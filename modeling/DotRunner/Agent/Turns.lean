import DotRunner.Py.Value
import DotRunner.Transducer

/-!
# Turns and messages

The history of a session is a list of turns.  For a request it is turned into
messages: the results of a batch get the ids of the calls that stand before them,
by position, and results that are too old are replaced by a stub.
-/

namespace DotRunner
namespace Agent

open Py

/-! ## Turns -/

structure ToolCall where
  id : String
  name : String
  arguments : Value

structure ToolResult where
  success : Bool
  output : String
deriving DecidableEq

/-- `get_serialized_output`, of a result whose output is a text already -/
def ToolResult.getSerializedOutput (r : ToolResult) : String := r.output

structure AssistantTurn where
  content : String
  toolCalls : List ToolCall := []
  reasoning : Option String := none
  reasoningSignature : Option String := none

inductive Turn where
  | user (content : String)
  | assistant (turn : AssistantTurn)
  | toolResults (results : List ToolResult)
  | steering (content : String)
  | system (content : String)

def Turn.isToolResults : Turn → Bool
  | .toolResults _ => true
  | _ => false

/-! ## Messages -/

inductive MessageRole where
  | system
  | developer
  | user
  | assistant
  | function
  | tool
deriving DecidableEq

inductive ContentBlock where
  | text (text : String)
  | thinking (thinking : String) (signature : Option String)

inductive MessageContent where
  | text (text : String)
  | blocks (blocks : List ContentBlock)

/-- A call as a message carries it, the function's name under both keys. -/
structure CallEntry where
  id : String
  name : String
  tool : String
  arguments : Value

structure Message where
  role : MessageRole
  content : MessageContent
  toolCalls : List CallEntry := []
  toolCallId : Option String := none

/-! ## From turns to messages -/

/-- `bool(text and text.strip())` -/
def hasText (text : String) : Bool := !(Text.strip text.toList).isEmpty

def elisionStub (toolName : String) (charCount : Nat) : String :=
  "[tool result elided: " ++ toolName ++ " " ++ toString charCount ++ " chars; re-run to see]"

/-- `reasoning` counts as given when it is not empty. -/
def assistantContent (turn : AssistantTurn) : MessageContent :=
  match turn.reasoning.filter (· ≠ "") with
  | some reasoning =>
    .blocks (.thinking reasoning (turn.reasoningSignature.filter (· ≠ "")) ::
      if hasText turn.content then [.text turn.content] else [])
  | none =>
    if hasText turn.content then .text turn.content
    else if turn.toolCalls.isEmpty then .text "" else .blocks []

def buildAssistantMessage (turn : AssistantTurn) : Message where
  role := .assistant
  content := assistantContent turn
  toolCalls := turn.toolCalls.map fun tc => ⟨tc.id, tc.name, tc.name, tc.arguments⟩

/-- `(call or {}).get("name") or "tool"` -/
def stubName (call : Option ToolCall) : String :=
  (call.map ToolCall.name).filter (· ≠ "") |>.getD "tool"

def toolMessage (elide : Bool) (call : Option ToolCall) (result : ToolResult) : Message where
  role := .tool
  content :=
    let serialized := result.getSerializedOutput
    .text (if elide then elisionStub (stubName call) serialized.length else serialized)
  toolCallId := call.map ToolCall.id

/-- What the conversion carries from turn to turn. -/
structure Pending where
  toolCalls : List ToolCall
  toolTurnOrdinal : Nat

/-- One turn, and what it adds to the messages that are not system messages. -/
def convertTurn (keepFrom : Int) (pending : Pending) : Turn → Pending × List Message
  | .system _ => (pending, [])
  | .user content => (pending, [{ role := .user, content := .text content }])
  | .steering content => (pending, [{ role := .user, content := .text content }])
  | .assistant turn =>
    ({ pending with
        toolCalls := if turn.toolCalls.isEmpty then pending.toolCalls else turn.toolCalls },
      [buildAssistantMessage turn])
  | .toolResults results =>
    (⟨[], pending.toolTurnOrdinal + 1⟩,
      results.mapIdx fun i result =>
        toolMessage (pending.toolTurnOrdinal < keepFrom) pending.toolCalls[i]? result)

def systemMessage? : Turn → Option Message
  | .system content => some { role := .system, content := .text content }
  | _ => none

/-- The ordinal of the oldest batch that keeps its results, or -1. -/
def keepFrom (turns : List Turn) (toolResultRetentionTurns : Int) : Int :=
  if toolResultRetentionTurns > 0 then
    turns.countP Turn.isToolResults - toolResultRetentionTurns
  else -1

def convertHistoryToMessages (turns : List Turn) (toolResultRetentionTurns : Int) : List Message :=
  turns.filterMap systemMessage? ++
    Transducer.emitted (convertTurn (keepFrom turns toolResultRetentionTurns)) ⟨[], 0⟩ turns

end Agent
end DotRunner
