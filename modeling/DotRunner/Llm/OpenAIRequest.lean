import DotRunner.Llm.Requests

/-!
# Requests to OpenAI

The Responses API takes one list of items: the calls of an assistant message stand
between its texts, and tool results stand on their own.
-/

namespace DotRunner
namespace Llm
namespace OpenAI

open Py Gathering

inductive InputContent where
  | text (text : String)
  | imageUrl (url : String)
  /-- a `data:` url, with the bytes in base64 -/
  | imageData (mediaType : String) (data : List UInt8)

inductive InputItem where
  | userMessage (content : List InputContent)
  | assistantMessage (texts : List String)
  | functionCall (callId name : String) (arguments : Value)
  | functionCallOutput (callId output : String)

structure Payload where
  instructions : Option String
  input : List InputItem

section Translate

variable [Runtime]

def unsupportedUser (kind : ContentKind) : RequestError :=
  .configurationError (("OpenAI adapter: unsupported content kind " ++ kind.repr ++ " in user ") ++
    "message. Only TEXT and IMAGE parts are supported for OpenAI user " ++
    "messages. AUDIO and DOCUMENT parts are not yet implemented.")

def unsupportedAssistant (kind : ContentKind) : RequestError :=
  .configurationError (("OpenAI adapter: unsupported content kind " ++ kind.repr ++ " in ") ++
    "assistant message. Supported: TEXT, TOOL_CALL. AUDIO and DOCUMENT " ++
    "parts are not supported.")

omit [Runtime] in
def inputImage (image : ImageData) : ImageSource → InputContent
  | .url url => .imageUrl url
  | .data data => .imageData image.mime data

def translateUserContent (parts : List ContentPart) : Except RequestError (List InputContent) :=
  gather (userPart .text inputImage unsupportedUser) parts

/-- The texts so far make a message. -/
def flushed (texts : List String) : List InputItem :=
  if texts = [] then [] else [.assistantMessage texts]

/-- A text is kept for later, a call goes out after the texts before it. -/
def assistantStep (st : List String × List InputItem) (part : ContentPart) :
    Except RequestError (List String × List InputItem) :=
  match part.kind, part.text, part.toolCall with
  | .text, some text, _ => .ok (st.1 ++ [text], st.2)
  | .toolCall, _, some call => (argumentsText call.arguments).map fun arguments =>
    ([], st.2 ++ flushed st.1 ++ [.functionCall call.id call.name arguments])
  | kind, _, _ => .error (unsupportedAssistant kind)

def translateAssistantToInput (parts : List ContentPart) : Except RequestError (List InputItem) :=
  (parts.foldlM assistantStep ([], [])).map fun st => st.2 ++ flushed st.1

def translateToolResultsToInput (parts : List ContentPart) :
    Except RequestError (List InputItem) :=
  gather (resultPart fun result => (contentText result.content).map
    (.functionCallOutput result.toolCallId)) parts

/-- System messages do not come here. -/
def translateMessage (m : Message) : Except RequestError (List InputItem) :=
  match m.role with
  | .user => (translateUserContent m.content).map fun content => [.userMessage content]
  | .assistant => translateAssistantToInput m.content
  | .tool => translateToolResultsToInput m.content
  | .system | .developer => .ok []

/-- `OpenAIAdapter._translate_request`, as far as the messages go. -/
def translateRequest (request : Request) : Except RequestError Payload :=
  (hoist translateMessage request.messages).map fun p =>
    { instructions := joined "\n\n" p.system, input := p.items }

end Translate

/-! ## What an item says -/

/-- A piece of the input, with the side it comes from. -/
inductive InputUnit where
  | user (content : InputContent)
  | assistantText (text : String)
  | functionCall (callId name : String) (arguments : Value)
  | functionCallOutput (callId output : String)

def InputItem.units : InputItem → List InputUnit
  | userMessage content => content.map .user
  | assistantMessage texts => texts.map .assistantText
  | functionCall callId name arguments => [.functionCall callId name arguments]
  | functionCallOutput callId output => [.functionCallOutput callId output]

section Says

variable [Runtime]

def Says : InputUnit → Placed → Prop
  | .user (.text text), p => p.role = .user ∧ p.part.kind = .text ∧ p.part.text = some text
  | .user (.imageUrl url), p => p.role = .user ∧ p.part.kind = .image ∧
    ∃ image, p.part.image = some image ∧ image.source = some (.url url)
  | .user (.imageData mime data), p => p.role = .user ∧ p.part.kind = .image ∧
    ∃ image, p.part.image = some image ∧ image.source = some (.data data) ∧ image.mime = mime
  | .assistantText text, p => p.role = .assistant ∧ p.part.kind = .text ∧ p.part.text = some text
  | .functionCall callId name arguments, p => p.role = .assistant ∧ p.part.kind = .toolCall ∧
    ∃ call, p.part.toolCall = some call ∧ call.id = callId ∧ call.name = name ∧
      argumentsText call.arguments = .ok arguments
  | .functionCallOutput callId output, p => p.role = .tool ∧ p.part.kind = .toolResult ∧
    ∃ result, p.part.toolResult = some result ∧ result.toolCallId = callId ∧
      contentText result.content = .ok output

def assistantFate (part : ContentPart) : Fate :=
  match part.kind, part.text, part.toolCall with
  | .text, some _, _ => .sent
  | .toolCall, _, some call =>
    match argumentsText call.arguments with
    | .ok _ => .sent
    | .error _ => .crashed
  | _, _, _ => .refused

/-- What becomes of a part of the conversation. -/
def partFate (p : Placed) : Fate :=
  match p.role with
  | .user => userFate p.part
  | .assistant => assistantFate p.part
  | .tool => resultFate p.part
  | .system | .developer => .lost

def fates (messages : List Message) : List Fate :=
  (systemParts messages).map systemFate ++ (placed messages).map partFate

/-- The request is refused, or its payload has every part once and in order. -/
def NothingDropped (request : Request) : Prop :=
  Faithful RequestError.IsConfiguration (fun p : Payload =>
    ∃ texts, p.instructions = joined "\n\n" texts ∧
      Represents Says texts (p.input.flatMap InputItem.units) request.messages)
    (translateRequest request)

/-! ## What is dropped -/

/-- The units of one part of an assistant message. -/
def assistantUnits (part : ContentPart) : Except RequestError (List InputUnit) :=
  match part.kind, part.text, part.toolCall with
  | .text, some text, _ => .ok [.assistantText text]
  | .toolCall, _, some call => (argumentsText call.arguments).map fun arguments =>
    [.functionCall call.id call.name arguments]
  | kind, _, _ => .error (unsupportedAssistant kind)

/-- The units of one part. -/
def partUnits (role : Role) (part : ContentPart) : Except RequestError (List InputUnit) :=
  match role with
  | .user => userPart (fun t => .user (.text t)) (fun i source => .user (inputImage i source))
      unsupportedUser part
  | .assistant => assistantUnits part
  | .tool => resultPart (fun result => (contentText result.content).map
      (.functionCallOutput result.toolCallId)) part
  | .system | .developer => .ok []

/-- What has gone out, and what is kept. -/
def keptUnits (st : List String × List InputItem) : List InputUnit :=
  st.2.flatMap InputItem.units ++ st.1.map InputUnit.assistantText

omit [Runtime] in
theorem flushed_units (texts : List String) :
    (flushed texts).flatMap InputItem.units = texts.map .assistantText := by
  rw [flushed]
  by_cases hnil : texts = []
  · rw [if_pos hnil, hnil]
    rfl
  · rw [if_neg hnil, List.flatMap_singleton]
    rfl

/-- Kept or sent, a part comes after those before it. -/
theorem assistantStep_units (st : List String × List InputItem) (part : ContentPart) :
    (assistantStep st part).map keptUnits = (assistantUnits part).map (keptUnits st ++ ·) := by
  unfold assistantStep assistantUnits
  split
  case h_1 text hkind htext =>
    refine congrArg Except.ok ?_
    show _ ++ (st.1 ++ [text]).map InputUnit.assistantText = _ ++ _ ++ [.assistantText text]
    rw [List.map_append, List.append_assoc]
    rfl
  case h_2 call hkind hcall =>
    cases argumentsText call.arguments with
    | error e => rfl
    | ok arguments =>
      refine congrArg Except.ok ?_
      show (st.2 ++ flushed st.1 ++ [_]).flatMap InputItem.units ++ [] = keptUnits st ++ [_]
      rw [List.append_nil, List.flatMap_append, List.flatMap_append, flushed_units]
      rfl
  case h_3 => rfl

theorem translateMessage_units (m : Message) (h : m.role.isSystem = false) :
    (translateMessage m).map (List.flatMap InputItem.units) =
      gather (partUnits m.role) m.content := by
  unfold translateMessage partUnits
  cases hrole : m.role with
  | system | developer =>
    rw [hrole] at h
    cases h
  | user =>
    have hmap := map_gather (fun c : InputContent => [InputUnit.user c]) m.content
      (f := userPart .text inputImage unsupportedUser)
    have hcongr : gather (fun part => (userPart .text inputImage unsupportedUser part).map
        (List.flatMap fun c => [InputUnit.user c])) m.content =
        gather (fun part => userPart (fun t => .user (.text t))
          (fun i source => .user (inputImage i source)) unsupportedUser part) m.content := by
      refine gather_congr fun part _ => ?_
      unfold userPart
      split
      · rfl
      · cases ‹ImageData›.source <;> rfl
      · rfl
    refine Eq.trans ?_ (hmap.trans hcongr)
    rw [translateUserContent]
    cases gather (userPart .text inputImage unsupportedUser) m.content with
    | error e => rfl
    | ok content =>
      refine congrArg Except.ok ?_
      rw [List.flatMap_singleton]
      exact List.map_eq_flatMap
  | assistant =>
    have hview := foldlM_view assistantStep_units ([], []) m.content
    have hnil : (gather assistantUnits m.content).map (keptUnits ([], []) ++ ·) =
        gather assistantUnits m.content := by
      cases gather assistantUnits m.content <;> rfl
    refine Eq.trans ?_ (hview.trans hnil)
    rw [translateAssistantToInput]
    cases m.content.foldlM assistantStep ([], []) with
    | error e => rfl
    | ok st =>
      refine congrArg Except.ok ?_
      rw [List.flatMap_append, flushed_units]
      rfl
  | tool =>
    show (gather _ m.content).map (List.flatMap InputItem.units) = _
    rw [map_gather]
    refine gather_congr fun part _ => ?_
    unfold resultPart
    split
    case h_1 result _ _ =>
      show ((((contentText result.content).map _).map ([·])).map _ : Except RequestError _) =
        ((contentText result.content).map _).map ([·])
      cases contentText result.content <;> rfl
    case h_2 => rfl

theorem partUnits_meets (p : Placed) (h : p.role.isSystem = false) :
    Meets RequestError.IsConfiguration (Says · p) (partUnits p.role p.part) (partFate p) := by
  unfold partUnits partFate
  cases hrole : p.role with
  | system | developer =>
    rw [hrole] at h
    cases h
  | user =>
    refine userPart_meets (fun _ => trivial) (fun t hkind htext => ⟨hrole, hkind, htext⟩)
      fun i source hkind himage hsource => ?_
    cases source with
    | url url => exact ⟨hrole, hkind, i, himage, hsource⟩
    | data data => exact ⟨hrole, hkind, i, himage, hsource, rfl⟩
  | assistant =>
    show Meets _ _ (assistantUnits p.part) (assistantFate p.part)
    unfold assistantUnits assistantFate
    split
    case h_1 text hkind htext => exact .sent ⟨hrole, hkind, htext⟩
    case h_2 call hkind hcall =>
      cases harguments : argumentsText call.arguments with
      | ok arguments => exact .sent ⟨hrole, hkind, call, hcall, rfl, rfl, harguments⟩
      | error e => exact .crashed (argumentsText_error harguments)
    case h_3 => exact .refused trivial
  | tool =>
    exact resultPart_meets fun result text hkind hresult htext =>
      ⟨hrole, hkind, result, hresult, rfl, htext⟩

/-- Every part gets through, or the request is refused before anything else happens. -/
theorem nothingDropped_iff (request : Request) :
    NothingDropped request ↔ Settled (fates request.messages) := by
  have hmeets : ∀ p ∈ placed request.messages, Meets RequestError.IsConfiguration (Says · p)
      (partUnits p.role p.part) (partFate p) := fun p hp => partUnits_meets p (placed_role hp)
  rw [NothingDropped, translateRequest, faithful_map]
  exact faithful_hoist_iff translateMessage_units hmeets fun items =>
    joined_represents_iff Says (items.flatMap InputItem.units) request.messages

end Says

end OpenAI
end Llm
end DotRunner
