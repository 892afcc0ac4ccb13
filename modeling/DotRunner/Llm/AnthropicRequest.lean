import DotRunner.Llm.Requests
import Mathlib.Data.List.Chain

/-!
# Requests to Anthropic

The content blocks of a message, translated role by role.  Tool results go out in
user messages, and consecutive messages of one role become one.
-/

namespace DotRunner
namespace Llm
namespace Anthropic

open Py Gathering

/-- A content block of a request. -/
inductive ContentBlock where
  | text (text : String)
  | imageUrl (url : String)
  /-- the bytes go out in base64 -/
  | imageData (mediaType : String) (data : List UInt8)
  | toolUse (id name : String) (input : Value)
  | toolResult (toolUseId content : String) (isError : Bool)
  | thinking (thinking signature : String)
  | redactedThinking (data : String)

section Translate

variable [Runtime]

def unsupportedAssistant (kind : ContentKind) : RequestError :=
  .configurationError (("Anthropic adapter: unsupported content kind " ++ kind.repr ++ " in ") ++
    "assistant message. Supported: TEXT, TOOL_CALL, THINKING, " ++
    "REDACTED_THINKING. AUDIO and DOCUMENT parts are not supported.")

/-- One part of an assistant message. -/
def translateAssistantPart (part : ContentPart) : Except RequestError ContentBlock :=
  match part.kind, part.text, part.toolCall, part.thinking with
  | .text, some text, _, _ => .ok (.text text)
  | .toolCall, _, some call, _ =>
    (argumentsObject call.arguments).map fun input => .toolUse call.id call.name input
  | .thinking, _, _, some thinking => .ok (.thinking thinking.text (thinking.signature.getD ""))
  | .redactedThinking, _, _, some thinking => .ok (.redactedThinking thinking.text)
  | kind, _, _, _ => .error (unsupportedAssistant kind)

def translateAssistantContent (parts : List ContentPart) : Except RequestError (List ContentBlock) :=
  parts.mapM translateAssistantPart

/-! ## Users and tools -/

def unsupportedUser (kind : ContentKind) : RequestError :=
  .configurationError (("Anthropic adapter: unsupported content kind " ++ kind.repr ++ " in user ") ++
    "message. Only TEXT and IMAGE parts are supported for Anthropic user " ++
    "messages. AUDIO and DOCUMENT parts are not yet implemented.")

omit [Runtime] in
def imageBlock (image : ImageData) : ImageSource → ContentBlock
  | .url url => .imageUrl url
  | .data data => .imageData image.mime data

def translateUserContent (parts : List ContentPart) : Except RequestError (List ContentBlock) :=
  gather (userPart .text imageBlock unsupportedUser) parts

def resultBlock (result : ToolResultData) : Except RequestError ContentBlock :=
  (contentText result.content).map fun content =>
    .toolResult result.toolCallId content result.isError

def translateToolResultContent (parts : List ContentPart) :
    Except RequestError (List ContentBlock) :=
  gather (resultPart resultBlock) parts

end Translate

/-! ## Messages -/

inductive WireRole where
  | user
  | assistant
deriving DecidableEq

structure WireMessage where
  role : WireRole
  content : List ContentBlock

structure Payload where
  system : List String
  messages : List WireMessage

/-- A message joins the last one if that has its role. -/
def mergeInto (merged : List WireMessage) (m : WireMessage) : List WireMessage :=
  match merged.getLast? with
  | none => [m]
  | some last =>
    if m.role = last.role then merged.dropLast ++ [⟨last.role, last.content ++ m.content⟩]
    else merged ++ [m]

def mergeConsecutiveRoles (messages : List WireMessage) : List WireMessage :=
  messages.foldl mergeInto []

section Request

variable [Runtime]

/-- System messages do not come here. -/
def translateMessage (m : Message) : Except RequestError (List WireMessage) :=
  match m.role with
  | .user => (translateUserContent m.content).map fun content => [⟨.user, content⟩]
  | .assistant => (translateAssistantContent m.content).map fun content => [⟨.assistant, content⟩]
  | .tool => (translateToolResultContent m.content).map fun content => [⟨.user, content⟩]
  | .system | .developer => .ok []

def unschemaedJson : RequestError :=
  .configurationError ("Anthropic does not support unschemaed JSON output mode. " ++
    "Use response_format with type='json_schema' and a JSON schema.")

/-- Is JSON asked for without a schema? -/
def asksForJson (request : Request) : Bool :=
  match request.responseFormat with
  | some format => format.type == "json"
  | none => false

/-- `AnthropicAdapter._translate_request`, as far as the messages go. -/
def translateRequest (request : Request) : Except RequestError Payload :=
  match hoist translateMessage request.messages with
  | .error e => .error e
  | .ok p =>
    if asksForJson request then .error unschemaedJson
    else .ok { system := p.system, messages := mergeConsecutiveRoles p.items }

end Request

/-! ## What a block says -/

def WireMessage.units (m : WireMessage) : List (WireRole × ContentBlock) :=
  m.content.map (m.role, ·)

def wireRole : Role → WireRole
  | .assistant => .assistant
  | _ => .user

section Says

variable [Runtime]

def SaysPart : ContentBlock → ContentPart → Prop
  | .text text, part => part.kind = .text ∧ part.text = some text
  | .imageUrl url, part =>
    part.kind = .image ∧ ∃ image, part.image = some image ∧ image.source = some (.url url)
  | .imageData mime data, part =>
    part.kind = .image ∧
      ∃ image, part.image = some image ∧ image.source = some (.data data) ∧ image.mime = mime
  | .toolUse id name input, part =>
    part.kind = .toolCall ∧ ∃ call, part.toolCall = some call ∧
      call.id = id ∧ call.name = name ∧ argumentsObject call.arguments = .ok input
  | .toolResult id content isError, part =>
    part.kind = .toolResult ∧ ∃ result, part.toolResult = some result ∧
      result.toolCallId = id ∧ contentText result.content = .ok content ∧ result.isError = isError
  | .thinking text signature, part =>
    part.kind = .thinking ∧ ∃ thinking, part.thinking = some thinking ∧
      thinking.text = text ∧ thinking.signature.getD "" = signature
  | .redactedThinking data, part =>
    part.kind = .redactedThinking ∧ ∃ thinking, part.thinking = some thinking ∧ thinking.text = data

/-- The block says the part, in a message of the role that is due. -/
def Says (unit : WireRole × ContentBlock) (p : Placed) : Prop :=
  unit.1 = wireRole p.role ∧ SaysPart unit.2 p.part

def assistantFate (part : ContentPart) : Fate :=
  match part.kind, part.text, part.toolCall, part.thinking with
  | .text, some _, _, _ => .sent
  | .toolCall, _, some call, _ =>
    match argumentsObject call.arguments with
    | .ok _ => .sent
    | .error _ => .crashed
  | .thinking, _, _, some _ => .sent
  | .redactedThinking, _, _, some _ => .sent
  | _, _, _, _ => .refused

/-- What becomes of a part of the conversation. -/
def partFate (p : Placed) : Fate :=
  match p.role with
  | .user => userFate p.part
  | .assistant => assistantFate p.part
  | .tool => resultFate p.part
  | .system | .developer => .lost

/-- The request gets through whole: it is refused, or its payload has every part once
and in order, and the roles take turns. -/
def NothingDropped (request : Request) : Prop :=
  Faithful RequestError.IsConfiguration (fun p : Payload =>
    Represents Says p.system (p.messages.flatMap WireMessage.units) request.messages ∧
      (p.messages.map WireMessage.role).IsChain (· ≠ ·)) (translateRequest request)

end Says

/-! ## Merging -/

theorem mergeInto_units (merged : List WireMessage) (m : WireMessage) :
    (mergeInto merged m).flatMap WireMessage.units = merged.flatMap WireMessage.units ++ m.units := by
  unfold mergeInto
  split
  case h_1 hnone =>
    rw [List.getLast?_eq_none_iff.mp hnone]
    exact List.append_nil _
  case h_2 last hlast =>
    have hsplit : merged = merged.dropLast ++ [last] :=
      (List.dropLast_append_getLast? last hlast).symm
    split
    case isTrue hrole =>
      have hunits : (⟨last.role, last.content ++ m.content⟩ : WireMessage).units =
          last.units ++ m.units := by
        rw [WireMessage.units, List.map_append, ← hrole]
        rw [WireMessage.units, WireMessage.units, hrole]
      conv_rhs => rw [hsplit]
      rw [List.flatMap_append, List.flatMap_append, List.flatMap_singleton, List.flatMap_singleton,
        hunits, List.append_assoc]
    case isFalse => rw [List.flatMap_append, List.flatMap_singleton]

theorem mergeInto_alternates {merged : List WireMessage} (m : WireMessage)
    (h : (merged.map WireMessage.role).IsChain (· ≠ ·)) :
    ((mergeInto merged m).map WireMessage.role).IsChain (· ≠ ·) := by
  unfold mergeInto
  split
  case h_1 => exact .singleton _
  case h_2 last hlast =>
    have hsplit : merged = merged.dropLast ++ [last] :=
      (List.dropLast_append_getLast? last hlast).symm
    split
    case isTrue =>
      rw [hsplit, List.map_append] at h
      rw [List.map_append]
      exact h
    case isFalse hrole =>
      rw [List.map_append]
      refine h.append (.singleton _) fun r hr r' hr' => ?_
      rw [List.getLast?_map, hlast] at hr
      have hsame : last.role = r := Option.some.inj hr
      have hsame' : m.role = r' := Option.some.inj hr'
      rw [← hsame, ← hsame']
      exact fun heq => hrole heq.symm

/-- Merging keeps all blocks under their roles, and the roles take turns after it. -/
theorem mergeConsecutiveRoles_spec (messages : List WireMessage) :
    (mergeConsecutiveRoles messages).flatMap WireMessage.units =
        messages.flatMap WireMessage.units ∧
      ((mergeConsecutiveRoles messages).map WireMessage.role).IsChain (· ≠ ·) := by
  rw [mergeConsecutiveRoles]
  induction messages using List.reverseRecOn with
  | nil => exact ⟨rfl, .nil⟩
  | append_singleton messages m ih =>
    rw [List.foldl_append, List.foldl_cons, List.foldl_nil, mergeInto_units, ih.1,
      List.flatMap_append, List.flatMap_singleton]
    exact ⟨rfl, mergeInto_alternates m ih.2⟩

/-! ## What is dropped -/

section Drops

variable [Runtime]

/-- The units of one part. -/
def partUnits (role : Role) (part : ContentPart) :
    Except RequestError (List (WireRole × ContentBlock)) :=
  match role with
  | .user => userPart (fun t => (.user, .text t)) (fun i source => (.user, imageBlock i source))
      unsupportedUser part
  | .assistant => (translateAssistantPart part).map fun b => [(.assistant, b)]
  | .tool => resultPart (fun result => (contentText result.content).map fun content =>
      (.user, .toolResult result.toolCallId content result.isError)) part
  | .system | .developer => .ok []

omit [Runtime] in
theorem map_units {f : ContentPart → Except RequestError (List ContentBlock)} (role : WireRole)
    (parts : List ContentPart) :
    ((gather f parts).map fun content => [(⟨role, content⟩ : WireMessage)]).map
        (List.flatMap WireMessage.units) =
      gather (fun part => (f part).map (List.flatMap fun b => [(role, b)])) parts := by
  rw [← map_gather]
  cases gather f parts with
  | error e => rfl
  | ok content =>
    refine congrArg Except.ok ?_
    rw [List.flatMap_singleton]
    exact List.map_eq_flatMap

theorem translateMessage_units (m : Message) (h : m.role.isSystem = false) :
    (translateMessage m).map (List.flatMap WireMessage.units) =
      gather (partUnits m.role) m.content := by
  unfold translateMessage partUnits
  cases hrole : m.role with
  | system | developer =>
    rw [hrole] at h
    cases h
  | user =>
    rw [translateUserContent]
    refine (map_units .user m.content).trans (gather_congr fun part _ => ?_)
    unfold userPart
    split
    · rfl
    · cases ‹ImageData›.source <;> rfl
    · rfl
  | assistant =>
    rw [translateAssistantContent, ← gather_singleton]
    refine (map_units .assistant m.content).trans (gather_congr fun part _ => ?_)
    cases translateAssistantPart part <;> rfl
  | tool =>
    rw [translateToolResultContent]
    refine (map_units .user m.content).trans (gather_congr fun part _ => ?_)
    unfold resultPart
    split
    case h_1 result _ _ =>
      show ((((contentText result.content).map _).map ([·])).map _ : Except RequestError _) =
        ((contentText result.content).map _).map ([·])
      cases contentText result.content <;> rfl
    case h_2 => rfl

theorem translateAssistantPart_meets (p : Placed) (hrole : p.role = .assistant) :
    Meets RequestError.IsConfiguration (Says · p)
      ((translateAssistantPart p.part).map fun b => [(.assistant, b)]) (assistantFate p.part) := by
  have hwire : WireRole.assistant = wireRole p.role := by rw [hrole]; rfl
  unfold translateAssistantPart assistantFate
  split
  case h_1 text hkind htext => exact .sent ⟨hwire, hkind, htext⟩
  case h_2 call hkind hcall =>
    cases harguments : argumentsObject call.arguments with
    | ok input => exact .sent ⟨hwire, hkind, call, hcall, rfl, rfl, harguments⟩
    | error e => exact .crashed (argumentsObject_error harguments)
  case h_3 thinking hkind hthinking => exact .sent ⟨hwire, hkind, thinking, hthinking, rfl, rfl⟩
  case h_4 thinking hkind hthinking => exact .sent ⟨hwire, hkind, thinking, hthinking, rfl⟩
  case h_5 => exact .refused trivial

theorem partUnits_meets (p : Placed) (h : p.role.isSystem = false) :
    Meets RequestError.IsConfiguration (Says · p) (partUnits p.role p.part) (partFate p) := by
  unfold partUnits partFate
  cases hrole : p.role with
  | system | developer =>
    rw [hrole] at h
    cases h
  | user =>
    have hwire : WireRole.user = wireRole p.role := by rw [hrole]; rfl
    refine userPart_meets (fun _ => trivial) (fun t hkind htext => ⟨hwire, hkind, htext⟩)
      fun i source hkind himage hsource => ⟨hwire, ?_⟩
    cases source with
    | url url => exact ⟨hkind, i, himage, hsource⟩
    | data data => exact ⟨hkind, i, himage, hsource, rfl⟩
  | assistant => exact translateAssistantPart_meets p hrole
  | tool =>
    have hwire : WireRole.user = wireRole p.role := by rw [hrole]; rfl
    exact resultPart_meets fun result text hkind hresult htext =>
      ⟨hwire, hkind, result, hresult, rfl, htext, rfl⟩

/-- The fates of all parts, those of the system messages first. -/
def fates (messages : List Message) : List Fate :=
  (systemParts messages).map systemFate ++ (placed messages).map partFate

/-- Every part gets through, or the request is refused before anything else happens. -/
theorem nothingDropped_iff (request : Request) :
    NothingDropped request ↔ Settled (fates request.messages) ∨
      asksForJson request = true ∧
        (fates request.messages).find? Fate.stops ≠ some .crashed := by
  have hmeets : ∀ p ∈ placed request.messages, Meets RequestError.IsConfiguration (Says · p)
      (partUnits p.role p.part) (partFate p) := fun p hp => partUnits_meets p (placed_role hp)
  have hsettled := faithful_hoist_iff (P := fun p : Hoisted WireMessage =>
    Represents Says p.system (p.items.flatMap WireMessage.units) request.messages)
    translateMessage_units hmeets fun _ => Iff.rfl
  have hraised := hoist_mayRaise_iff translateMessage_units hmeets
  rw [NothingDropped, translateRequest, fates]
  cases hhoist : hoist translateMessage request.messages with
  | error e =>
    rw [hhoist] at hsettled hraised
    exact ⟨fun hmay => .inl (hsettled.mp hmay),
      fun h => h.elim hsettled.mpr fun hjson => hraised.mpr hjson.2⟩
  | ok p =>
    rw [hhoist] at hsettled hraised
    cases hjson : asksForJson request with
    | true => exact iff_of_true trivial (.inr ⟨rfl, hraised.mp trivial⟩)
    | false =>
      obtain ⟨hunits, halternates⟩ := mergeConsecutiveRoles_spec p.items
      show Represents Says p.system ((mergeConsecutiveRoles p.items).flatMap WireMessage.units) _ ∧ _ ↔
        _
      rw [hunits]
      exact ⟨fun h => .inl (hsettled.mp h.1),
        fun h => ⟨hsettled.mpr (h.resolve_right nofun), halternates⟩⟩

end Drops

end Anthropic
end Llm
end DotRunner
