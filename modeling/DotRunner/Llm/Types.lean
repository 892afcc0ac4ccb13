import DotRunner.Py.JsonScan

/-!
# The unified types

Messages, responses and stream events as all providers share them.  Bytes are
lists, costs are rationals, and `Value` is what JSON gives.
-/

namespace DotRunner
namespace Llm

open Py

/-! ## Messages -/

inductive Role where
  | system
  | user
  | assistant
  | tool
  | developer
deriving DecidableEq

inductive ContentKind where
  | text
  | image
  | audio
  | document
  | toolCall
  | toolResult
  | thinking
  | redactedThinking
  | other (name : String)
deriving DecidableEq

structure ImageData where
  url : Option String := none
  data : Option (List UInt8) := none
  mediaType : Option String := none
  detail : Option String := none

structure ToolCallData where
  id : String
  name : String
  /-- an object, or a text -/
  arguments : Value
  type : String := "function"

structure ToolResultData where
  toolCallId : String
  /-- a text or an object -/
  content : Value
  isError : Bool := false
  imageData : Option (List UInt8) := none
  imageMediaType : Option String := none

structure ThinkingData where
  text : String
  signature : Option String := none
  redacted : Bool := false

/-- `kind` says which of the fields is meant. -/
structure ContentPart where
  kind : ContentKind
  text : Option String := none
  image : Option ImageData := none
  toolCall : Option ToolCallData := none
  toolResult : Option ToolResultData := none
  thinking : Option ThinkingData := none

structure Message where
  role : Role
  content : List ContentPart
  name : Option String := none
  toolCallId : Option String := none

namespace ContentPart

def ofText (text : String) : ContentPart where
  kind := .text
  text := some text

def ofThinking (thinking : ThinkingData) : ContentPart where
  kind := .thinking
  thinking := some thinking

def ofRedacted (thinking : ThinkingData) : ContentPart where
  kind := .redactedThinking
  thinking := some thinking

def ofToolCall (call : ToolCallData) : ContentPart where
  kind := .toolCall
  toolCall := some call

end ContentPart

/-- The texts of the text parts, joined. -/
def Message.text (m : Message) : String :=
  String.join (m.content.filterMap fun part => if part.kind = .text then part.text else none)

/-! ## Responses -/

structure Usage where
  inputTokens : Int
  outputTokens : Int
  totalTokens : Int
  reasoningTokens : Option Int := none
  cacheReadTokens : Option Int := none
  cacheWriteTokens : Option Int := none
  costUsd : Option ℚ := none
deriving DecidableEq

/-- What the provider counted: all but the cost, which the client adds. -/
def Usage.counts (u : Usage) : Usage := { u with costUsd := none }

def Usage.zero : Usage := ⟨0, 0, 0, none, none, none, none⟩

structure FinishReason where
  reason : String
  raw : Option String := none
deriving DecidableEq

structure Response where
  id : String
  model : String
  provider : String
  message : Message
  finishReason : FinishReason
  usage : Usage

def Response.text (r : Response) : String := r.message.text

def Response.toolCalls (r : Response) : List ToolCallData :=
  r.message.content.filterMap fun part => if part.kind = .toolCall then part.toolCall else none

/-- What a call costs, where the price of the model is known. -/
class CostTable where
  computeCost : (model : String) → (inputTokens outputTokens cacheReadTokens cacheWriteTokens : Int) →
    Option ℚ

/-- The usage with its cost, where none was set. -/
def Usage.withCost [CostTable] (u : Usage) (model : String) : Usage :=
  match u.costUsd with
  | some _ => u
  | none => { u with
    costUsd := CostTable.computeCost model u.inputTokens u.outputTokens
      (u.cacheReadTokens.getD 0) (u.cacheWriteTokens.getD 0) }

namespace Unpriced

/-- A table without prices. -/
scoped instance costTable : CostTable where
  computeCost _ _ _ _ _ := none

end Unpriced

@[simp] theorem Usage.withCost_counts [CostTable] (u : Usage) (model : String) :
    (u.withCost model).counts = u.counts := by
  unfold Usage.withCost
  split <;> rfl

/-! ## Streams -/

/-- A tool invocation taken from a response. -/
structure ToolCall where
  id : String
  name : String
  arguments : Value
  rawArguments : Option String := none

inductive StreamEventType where
  | streamStart
  | textStart
  | textDelta
  | textEnd
  | reasoningStart
  | reasoningDelta
  | reasoningEnd
  | toolCallStart
  | toolCallDelta
  | toolCallEnd
  | finish
  | error
  | providerEvent
  | other (name : String)
deriving DecidableEq

structure StreamEvent where
  type : StreamEventType
  delta : Option String := none
  textId : Option String := none
  reasoningDelta : Option String := none
  toolCall : Option ToolCall := none
  finishReason : Option FinishReason := none
  usage : Option Usage := none
  response : Option Response := none

namespace StreamEvent

def ofType (type : StreamEventType) : StreamEvent := { type := type }

def textDeltaOf (delta : String) : StreamEvent := { type := .textDelta, delta := some delta }

def reasoningDeltaOf (delta : String) : StreamEvent :=
  { type := .reasoningDelta, reasoningDelta := some delta }

def toolCallStartOf (call : ToolCall) : StreamEvent := { type := .toolCallStart, toolCall := some call }

/-- The adapters name no call in a delta. -/
def toolCallDeltaOf (delta : String) : StreamEvent := { type := .toolCallDelta, delta := some delta }

def toolCallEndOf (call : ToolCall) : StreamEvent := { type := .toolCallEnd, toolCall := some call }

/-- The end of a stream, with a response that has no content. -/
def finishOf (id model provider : String) (finishReason : FinishReason) (usage : Usage) :
    StreamEvent where
  type := .finish
  finishReason := some finishReason
  usage := some usage
  response := some
    { id := id, model := model, provider := provider, message := ⟨.assistant, [], none, none⟩,
      finishReason := finishReason, usage := usage }

end StreamEvent

/-! ## Arguments of a call

They come as a text; what is not JSON counts as no arguments. -/

/-- `json.loads(text) if text else {}`, and no arguments if that raises. -/
def parseArguments [Runtime] (text : String) : Value :=
  if text = "" then .dict [] else (Json.loads text.toList).getD (.dict [])

/-- `text or None` -/
def orNone (text : String) : Option String := if text = "" then none else some text

end Llm
end DotRunner
