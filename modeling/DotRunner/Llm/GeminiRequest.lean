import DotRunner.Llm.Requests

/-!
# Requests to Gemini

A result stands under the name of its function, which is looked up under the id of
its call.
-/

namespace DotRunner
namespace Llm
namespace Gemini

open Py Gathering

inductive WirePart where
  | text (text : String)
  | fileData (mimeType uri : String)
  /-- the bytes go out in base64 -/
  | inlineData (mimeType : String) (data : List UInt8)
  | functionCall (name : String) (args : Value)
  | functionResponse (name : String) (response : Value)

inductive WireRole where
  | user
  | model
deriving DecidableEq

structure Content where
  role : WireRole
  parts : List WirePart

structure Payload where
  systemInstruction : Option String
  contents : List Content

/-- `call_id_to_name`: the last call under an id counts. -/
def callNames (calls : List ToolCallData) : Dict String String :=
  calls.foldl (fun d call => d.set call.id call.name) .empty

/-- The name of the last of these calls under the id, or else the id. -/
def nameOf (calls : List ToolCallData) (id : String) : String :=
  ((callNames calls).get? id).getD id

section Translate

variable [Runtime]

def unsupportedUser (kind : ContentKind) : RequestError :=
  .configurationError (("Gemini adapter: unsupported content kind " ++ kind.repr ++ " in user ") ++
    "message. Only TEXT and IMAGE parts are supported for Gemini user " ++
    "messages. AUDIO and DOCUMENT parts are not yet implemented.")

def unsupportedAssistant (kind : ContentKind) : RequestError :=
  .configurationError (("Gemini adapter: unsupported content kind " ++ kind.repr ++ " in ") ++
    "assistant message. Supported: TEXT, TOOL_CALL. AUDIO and DOCUMENT " ++
    "parts are not supported.")

omit [Runtime] in
def imagePart (image : ImageData) : ImageSource → WirePart
  | .url url => .fileData image.mime url
  | .data data => .inlineData image.mime data

def translateContentParts (parts : List ContentPart) : Except RequestError (List WirePart) :=
  gather (userPart .text imagePart unsupportedUser) parts

def modelPart (part : ContentPart) : Except RequestError (List WirePart) :=
  match part.kind, part.text, part.toolCall with
  | .text, some text, _ => .ok [.text text]
  | .toolCall, _, some call =>
    (argumentsObject call.arguments).map fun args => [.functionCall call.name args]
  | kind, _, _ => .error (unsupportedAssistant kind)

def translateModelParts (parts : List ContentPart) : Except RequestError (List WirePart) :=
  gather modelPart parts

/-- A text is wrapped, an object stays, anything else is wrapped as its text. -/
def responseData : Value → Value
  | .dict kvs => .dict kvs
  | .keyed kinds kvs => .keyed kinds kvs
  | .str text => .dict [("result", .str text)]
  | v => .dict [("result", .str v.toStr)]

def translateToolResultParts (calls : List ToolCallData) (parts : List ContentPart) :
    Except RequestError (List WirePart) :=
  gather (resultPart fun result => .ok (.functionResponse (nameOf calls result.toolCallId)
    (responseData result.content))) parts

/-- System messages do not come here. -/
def translateMessage (calls : List ToolCallData) (m : Message) :
    Except RequestError (List Content) :=
  match m.role with
  | .user => (translateContentParts m.content).map fun parts => [⟨.user, parts⟩]
  | .assistant => (translateModelParts m.content).map fun parts => [⟨.model, parts⟩]
  | .tool => (translateToolResultParts calls m.content).map fun parts => [⟨.user, parts⟩]
  | .system | .developer => .ok []

omit [Runtime] in
/-- The calls of a whole conversation. -/
def allCalls (messages : List Message) : List ToolCallData := messages.flatMap Message.callsMade

/-- `GeminiAdapter._translate_request`, as far as the messages go. -/
def translateRequest (request : Request) : Except RequestError Payload :=
  (hoist (translateMessage (allCalls request.messages)) request.messages).map fun p =>
    { systemInstruction := joined "\n\n" p.system, contents := p.items }

end Translate

/-! ## What a part says -/

def Content.units (c : Content) : List (WireRole × WirePart) := c.parts.map (c.role, ·)

def wireRole : Role → WireRole
  | .assistant => .model
  | _ => .user

section Says

variable [Runtime]

/-- A result is under its own call if it has the name of the last call under its id
that was made before it. -/
def SaysPart (made : List ToolCallData) : WirePart → ContentPart → Prop
  | .text text, part => part.kind = .text ∧ part.text = some text
  | .fileData mime url, part => part.kind = .image ∧
    ∃ image, part.image = some image ∧ image.source = some (.url url) ∧ image.mime = mime
  | .inlineData mime data, part => part.kind = .image ∧
    ∃ image, part.image = some image ∧ image.source = some (.data data) ∧ image.mime = mime
  | .functionCall name args, part => part.kind = .toolCall ∧
    ∃ call, part.toolCall = some call ∧ call.name = name ∧ argumentsObject call.arguments = .ok args
  | .functionResponse name response, part => part.kind = .toolResult ∧
    ∃ result, part.toolResult = some result ∧ nameOf made result.toolCallId = name ∧
      responseData result.content = response

def Says (unit : WireRole × WirePart) (p : Placed) : Prop :=
  unit.1 = wireRole p.role ∧ SaysPart p.made unit.2 p.part

def modelFate (part : ContentPart) : Fate :=
  match part.kind, part.text, part.toolCall with
  | .text, some _, _ => .sent
  | .toolCall, _, some call =>
    match argumentsObject call.arguments with
    | .ok _ => .sent
    | .error _ => .crashed
  | _, _, _ => .refused

omit [Runtime] in
/-- A result is said if the calls after it leave its name as it is. -/
def responseFate (calls made : List ToolCallData) (part : ContentPart) : Fate :=
  match part.kind, part.toolResult with
  | .toolResult, some result =>
    if nameOf made result.toolCallId = nameOf calls result.toolCallId then .sent else .lost
  | _, _ => .lost

/-- What becomes of a part of the conversation. -/
def partFate (calls : List ToolCallData) (p : Placed) : Fate :=
  match p.role with
  | .user => userFate p.part
  | .assistant => modelFate p.part
  | .tool => responseFate calls p.made p.part
  | .system | .developer => .lost

def fates (messages : List Message) : List Fate :=
  (systemParts messages).map systemFate ++
    (placed messages).map (partFate (allCalls messages))

/-- The request is refused, or its payload has every part once and in order. -/
def NothingDropped (request : Request) : Prop :=
  Faithful RequestError.IsConfiguration (fun p : Payload =>
    ∃ texts, p.systemInstruction = joined "\n\n" texts ∧
      Represents Says texts (p.contents.flatMap Content.units) request.messages)
    (translateRequest request)

/-! ## What is dropped -/

/-- The units of one part. -/
def partUnits (calls : List ToolCallData) (role : Role) (part : ContentPart) :
    Except RequestError (List (WireRole × WirePart)) :=
  match role with
  | .user => userPart (fun t => (.user, .text t)) (fun i source => (.user, imagePart i source))
      unsupportedUser part
  | .assistant => (modelPart part).map (List.flatMap fun p => [(.model, p)])
  | .tool => resultPart (fun result => .ok (.user, .functionResponse
      (nameOf calls result.toolCallId) (responseData result.content))) part
  | .system | .developer => .ok []

omit [Runtime] in
theorem map_content_units {f : ContentPart → Except RequestError (List WirePart)} (role : WireRole)
    (parts : List ContentPart) :
    ((gather f parts).map fun ps => [(⟨role, ps⟩ : Content)]).map (List.flatMap Content.units) =
      gather (fun part => (f part).map (List.flatMap fun p => [(role, p)])) parts := by
  rw [← map_gather]
  cases gather f parts with
  | error e => rfl
  | ok ps =>
    refine congrArg Except.ok ?_
    rw [List.flatMap_singleton]
    exact List.map_eq_flatMap

theorem translateMessage_units (calls : List ToolCallData) (m : Message)
    (h : m.role.isSystem = false) :
    (translateMessage calls m).map (List.flatMap Content.units) =
      gather (partUnits calls m.role) m.content := by
  unfold translateMessage partUnits
  cases hrole : m.role with
  | system | developer =>
    rw [hrole] at h
    cases h
  | user =>
    refine (map_content_units .user m.content).trans (gather_congr fun part _ => ?_)
    unfold userPart
    split
    · rfl
    · cases ‹ImageData›.source <;> rfl
    · rfl
  | assistant => exact map_content_units .model m.content
  | tool =>
    refine (map_content_units .user m.content).trans (gather_congr fun part _ => ?_)
    unfold resultPart
    split <;> rfl

omit [Runtime] in
theorem responseFate_of {calls made : List ToolCallData} {part : ContentPart}
    {result : ToolResultData} (hkind : part.kind = .toolResult)
    (hresult : part.toolResult = some result) :
    responseFate calls made part =
      if nameOf made result.toolCallId = nameOf calls result.toolCallId then .sent else .lost := by
  unfold responseFate
  rw [hkind, hresult]

omit [Runtime] in
theorem responseFate_other {calls made : List ToolCallData} {part : ContentPart}
    (h : ∀ result, part.kind = .toolResult → part.toolResult = some result → False) :
    responseFate calls made part = .lost := by
  unfold responseFate
  split
  case h_1 result hkind hresult => exact (h result hkind hresult).elim
  case h_2 => rfl

theorem partUnits_meets (calls : List ToolCallData) (p : Placed) (h : p.role.isSystem = false) :
    Meets RequestError.IsConfiguration (Says · p) (partUnits calls p.role p.part)
      (partFate calls p) := by
  unfold partUnits partFate
  cases hrole : p.role with
  | system | developer =>
    rw [hrole] at h
    cases h
  | user =>
    have hwire : WireRole.user = wireRole p.role := by rw [hrole]; rfl
    refine userPart_meets (fun _ => trivial) (fun t hkind htext => ⟨hwire, hkind, htext⟩)
      fun i source hkind himage hsource => ⟨hwire, ?_⟩
    cases source with
    | url url => exact ⟨hkind, i, himage, hsource, rfl⟩
    | data data => exact ⟨hkind, i, himage, hsource, rfl⟩
  | assistant =>
    have hwire : WireRole.model = wireRole p.role := by rw [hrole]; rfl
    show Meets _ _ ((modelPart p.part).map _) (modelFate p.part)
    unfold modelPart modelFate
    split
    case h_1 text hkind htext => exact .sent ⟨hwire, hkind, htext⟩
    case h_2 call hkind hcall =>
      cases harguments : argumentsObject call.arguments with
      | ok args => exact .sent ⟨hwire, hkind, call, hcall, rfl, harguments⟩
      | error e => exact .crashed (argumentsObject_error harguments)
    case h_3 => exact .refused trivial
  | tool =>
    have hwire : WireRole.user = wireRole p.role := by rw [hrole]; rfl
    show Meets _ _ (resultPart _ p.part) (responseFate calls p.made p.part)
    unfold resultPart
    split
    case h_1 result hkind hresult =>
      rw [responseFate_of hkind hresult]
      by_cases hname : nameOf p.made result.toolCallId = nameOf calls result.toolCallId
      · rw [if_pos hname]
        exact .sent ⟨hwire, hkind, result, hresult, hname, rfl⟩
      · rw [if_neg hname]
        refine .garbled fun ⟨_, _, result', hresult', hname', _⟩ => hname ?_
        rw [← Option.some.inj (hresult.symm.trans hresult')] at hname'
        exact hname'
    case h_2 hnone =>
      rw [responseFate_other hnone]
      exact .dropped

/-- Every part gets through, or the request is refused before anything else happens. -/
theorem nothingDropped_iff (request : Request) :
    NothingDropped request ↔ Settled (fates request.messages) := by
  have hmeets : ∀ p ∈ placed request.messages, Meets RequestError.IsConfiguration (Says · p)
      (partUnits (allCalls request.messages) p.role p.part)
      (partFate (allCalls request.messages) p) :=
    fun p hp => partUnits_meets (allCalls request.messages) p (placed_role hp)
  rw [NothingDropped, translateRequest, faithful_map]
  exact faithful_hoist_iff (translateMessage_units (allCalls request.messages)) hmeets fun items =>
    joined_represents_iff Says (items.flatMap Content.units) request.messages

end Says

end Gemini
end Llm
end DotRunner
