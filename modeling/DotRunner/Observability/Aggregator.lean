import DotRunner.Behaviour
import DotRunner.Llm.Types
import DotRunner.Py.Dict
import DotRunner.Py.Value
import Mathlib.Algebra.BigOperators.Group.List.Basic
import Mathlib.Algebra.Group.Pi.Basic

/-!
# The state aggregator

Events of a run go to an aggregator that keeps the state of the run in memory: one record
for every execution of a node, and totals.  A time is the number of events before it.
-/

namespace DotRunner
namespace Telemetry

open Py Behaviour

/-! ## Events -/

/-- What an event carries. -/
abbrev Payload := Dict String Value

/-- `data.get(key, fallback)`, where a text is sent -/
def Payload.text (data : Payload) (key fallback : String) : String :=
  match data.get? key with
  | some (.str s) => s
  | _ => fallback

/-- `data.get(key, fallback)`, where an integer is sent -/
def Payload.count (data : Payload) (key : String) (fallback : Int) : Int :=
  match data.get? key with
  | some (.int n) => n
  | _ => fallback

/-- `int(data.get("duration_ms", 0))` -/
def Payload.durationMs (data : Payload) : Int :=
  match data.get? "duration_ms" with
  | some (.int n) => n
  | some (.float f) => f.toInt.toOption.getD 0
  | _ => 0

/-! ## The aggregator -/

structure NodeRun where
  status : String := "running"
  attempt : Int
  startedAt : Nat
  completedAt : Option Nat := none
  durationMs : Int := 0
  outcomeNotes : Option String := none
  llmCalls : Nat := 0
  tokensIn : Int := 0
  tokensOut : Int := 0
  tokensCached : Int := 0

structure PipelineRunState where
  pipelineId : String
  dotSource : String
  goal : String
  status : String := "running"
  nodesTotal : Int
  currentNode : Option String := none
  executionPath : List String := []
  nodeRuns : Dict String (List NodeRun) := .empty
  totalElapsedMs : Int := 0
  totalLlmCalls : Nat := 0
  totalTokensIn : Int := 0
  totalTokensOut : Int := 0
  totalTokensCached : Int := 0
  totalTokensReasoning : Int := 0
  nodesCompleted : Int := 0
  timing : Dict String Int := .empty
  /-- node, type and message -/
  errors : List (String × String × String) := []

def handlePipelineStart (data : Payload) : PipelineRunState where
  pipelineId := data.text "graph_name" "unknown"
  dotSource := data.text "dot_source" ""
  goal := data.text "goal" ""
  nodesTotal := data.count "node_count" 0

def handlePipelineComplete (data : Payload) (s : PipelineRunState) : PipelineRunState :=
  { s with
    status := if data.text "status" "success" = "fail" then "failed" else "complete"
    totalElapsedMs := data.durationMs
    nodesCompleted := data.count "total_nodes_executed" s.nodesCompleted }

/-- Append to the list under a key, which may be new. -/
def pushRun (runs : Dict String (List NodeRun)) (node : String) (run : NodeRun) :
    Dict String (List NodeRun) :=
  runs.set node (runs.getD node [] ++ [run])

/-- Change the last of a list, if there is one. -/
def onLast {α : Type} (f : α → α) (l : List α) : List α :=
  l.dropLast ++ (l.getLast?.map f).toList

/-- Change the last record of a node, if there is one. -/
def onLastRun (runs : Dict String (List NodeRun)) (node : String) (f : NodeRun → NodeRun) :
    Dict String (List NodeRun) :=
  match runs.get? node with
  | none => runs
  | some list => runs.set node (onLast f list)

def handleNodeStart (now : Nat) (data : Payload) (s : PipelineRunState) : PipelineRunState :=
  let nodeId := data.text "node_id" ""
  { s with
    currentNode := some nodeId
    nodeRuns := pushRun s.nodeRuns nodeId { attempt := data.count "attempt" 1, startedAt := now }
    executionPath :=
      if nodeId ∈ s.executionPath then s.executionPath else s.executionPath ++ [nodeId] }

/-- What `handle_node_complete` makes of the record it takes for the one that ends. -/
def NodeRun.completed (now : Nat) (data : Payload) (run : NodeRun) : NodeRun :=
  let notes := data.text "notes" ""
  let failureReason := data.text "failure_reason" ""
  { run with
    status := data.text "status" "success"
    completedAt := some now
    durationMs := data.durationMs
    outcomeNotes :=
      if notes ≠ "" then some notes
      else if failureReason ≠ "" then some failureReason
      else run.outcomeNotes }

def handleNodeComplete (now : Nat) (data : Payload) (s : PipelineRunState) : PipelineRunState :=
  let nodeId := data.text "node_id" ""
  { s with
    nodeRuns := onLastRun s.nodeRuns nodeId (.completed now data)
    nodesCompleted := s.nodesCompleted + 1
    timing := s.timing.set nodeId (s.timing.getD nodeId 0 + data.durationMs)
    currentNode := none }

def handleError (data : Payload) (s : PipelineRunState) : PipelineRunState :=
  { s with
    status := "failed"
    errors := s.errors ++
      [(data.text "node_id" "", data.text "error_type" "", data.text "message" "")] }

/-- What `handle_provider_response` adds to the record of the current node. -/
def NodeRun.charged (data : Payload) (run : NodeRun) : NodeRun :=
  { run with
    tokensIn := run.tokensIn + data.count "tokens_in" 0
    tokensOut := run.tokensOut + data.count "tokens_out" 0
    tokensCached := run.tokensCached + data.count "tokens_cached" 0
    llmCalls := run.llmCalls + 1 }

def handleProviderResponse (data : Payload) (s : PipelineRunState) : PipelineRunState :=
  { s with
    totalTokensIn := s.totalTokensIn + data.count "tokens_in" 0
    totalTokensOut := s.totalTokensOut + data.count "tokens_out" 0
    totalTokensCached := s.totalTokensCached + data.count "tokens_cached" 0
    totalTokensReasoning := s.totalTokensReasoning + data.count "tokens_reasoning" 0
    totalLlmCalls := s.totalLlmCalls + 1
    nodeRuns := match s.currentNode with
      | none => s.nodeRuns
      | some node => if node = "" then s.nodeRuns else onLastRun s.nodeRuns node (.charged data) }

/-! ## The emitters -/

def optionalCount : Option Int → Value
  | none => .none
  | some n => .int n

def usageValue (u : Llm.Usage) : Value :=
  .dict [("input_tokens", .int u.inputTokens), ("output_tokens", .int u.outputTokens),
    ("total_tokens", .int u.totalTokens), ("reasoning_tokens", optionalCount u.reasoningTokens),
    ("cache_read_tokens", optionalCount u.cacheReadTokens),
    ("cache_write_tokens", optionalCount u.cacheWriteTokens)]

/-- A `provider:response`, by who sends it. -/
inductive Sender where
  /-- `DirectWorker.run` -/
  | direct (nodeId provider model : String) (reasoningEffort : Value) (usage : Llm.Usage)
      (finishReason : String) (textLength stepCount : Nat) (costUsd : Value)
  /-- `hook_bridge_middleware`, which reads the node from the context, if it is set there -/
  | bridge (nodeId : Option String) (provider : Option String) (model : String)
      (usage : Option Llm.Usage) (finishReason : Option String) (textLength : Nat)

def Sender.payload : Sender → Payload
  | .direct nodeId provider model reasoningEffort usage finishReason textLength stepCount costUsd =>
    .ofList [("provider", .str provider), ("provider_module", .str provider),
      ("provider_instance", .none), ("model", .str model), ("reasoning_effort", reasoningEffort),
      ("node_id", .str nodeId), ("usage", usageValue usage), ("finish_reason", .str finishReason),
      ("text_length", .int textLength), ("step_count", .int stepCount), ("cost_usd", costUsd)]
  | .bridge nodeId provider model usage finishReason textLength =>
    .ofList [("provider", .str ((provider.filter (· ≠ "")).getD "unknown")), ("model", .str model),
      ("node_id", nodeId.elim .none .str), ("usage", usage.elim (.dict []) usageValue),
      ("finish_reason", .str (finishReason.getD "unknown")), ("text_length", .int textLength)]

/-! ## A run -/

inductive Action where
  /-- the run begins, or a child of it -/
  | pipelineStart (data : Payload)
  | pipelineComplete (data : Payload)
  /-- an execution of the node begins; `rest` is all of the payload but the node -/
  | nodeStart (node : String) (rest : Payload)
  /-- the execution that began at that time ends, or times out -/
  | nodeComplete (began : Nat) (node : String) (rest : Payload)
  /-- a node is complete without an execution, as it is skipped -/
  | skip (node : String) (rest : Payload)
  /-- the execution gets a response; inside a branch nodes begin without an event -/
  | response (began : Option Nat) (sender : Sender)
  | error (data : Payload)
  /-- an event whose handler keeps to fields that are left out here -/
  | other

def withNode (node : String) (rest : Payload) : Payload := rest.set "node_id" (.str node)

/-- `state` after the event; before the first `pipeline:start` there is none. -/
def handle (now : Nat) (state : Option PipelineRunState) : Action → Option PipelineRunState
  | .pipelineStart data => some (handlePipelineStart data)
  | .pipelineComplete data => state.map (handlePipelineComplete data)
  | .nodeStart node rest => state.map (handleNodeStart now (withNode node rest))
  | .nodeComplete _ node rest => state.map (handleNodeComplete now (withNode node rest))
  | .skip node rest => state.map (handleNodeComplete now (withNode node rest))
  | .response _ sender => state.map (handleProviderResponse sender.payload)
  | .error data => state.map (handleError data)
  | .other => state

structure State where
  /-- the events so far, the last one first -/
  past : List Action := []
  state : Option PipelineRunState := none

/-- The execution of the node began at that time. -/
def BeganAt (past : List Action) (began : Nat) (node : String) : Prop :=
  ∃ rest, past.reverse[began]? = some (.nodeStart node rest)

/-- Only what an execution of a node can send. -/
def Action.Possible (past : List Action) : Action → Prop
  | .nodeComplete began node _ => BeganAt past began node
  | .response (some began) sender =>
    BeganAt past began (sender.payload.text "node_id" "")
  | _ => True

def State.after (s : State) (a : Action) : State := ⟨a :: s.past, handle s.past.length s.state a⟩

/-- The branches of a run send their events in any order. -/
def Step (s : State) (a : Action) (s' : State) : Prop := a.Possible s.past ∧ s' = s.after a

/-- A run, as the aggregator sees it. -/
structure Life where
  steps : List (Transition State Action)
  last : State
  run : Run Step {} steps last

/-! ## Accounts -/

/-- What is counted. -/
inductive Kind where
  | input
  | output
  | cached
  | reasoning
  deriving DecidableEq

abbrev Tokens := Kind → Int

/-- A record has no field for reasoning tokens. -/
def NodeRun.tokens (run : NodeRun) : Tokens
  | .input => run.tokensIn
  | .output => run.tokensOut
  | .cached => run.tokensCached
  | .reasoning => 0

def PipelineRunState.totals (s : PipelineRunState) : Tokens
  | .input => s.totalTokensIn
  | .output => s.totalTokensOut
  | .cached => s.totalTokensCached
  | .reasoning => s.totalTokensReasoning

def Kind.usageKey : Kind → String
  | .input => "input_tokens"
  | .output => "output_tokens"
  | .cached => "cache_read_tokens"
  | .reasoning => "reasoning_tokens"

/-- The usage a response carries; nothing where there is no number. -/
def carried (data : Payload) : Tokens := fun kind =>
  match data.get? "usage" with
  | some (.dict usage) =>
    match Dict.lookup kind.usageKey usage with
    | some (.int n) => n
    | _ => 0
  | _ => 0

def State.totals (s : State) : Tokens := (s.state.map PipelineRunState.totals).getD 0

def State.runsOf (s : State) (node : String) : List NodeRun :=
  (s.state.map fun state => state.nodeRuns.getD node []).getD []

def State.allRuns (s : State) : List NodeRun :=
  (s.state.map fun state => state.nodeRuns.values.flatten).getD []

/-- What is on the records of the execution. -/
def State.tokensOf (s : State) (node : String) (began : Nat) : Tokens :=
  (((s.runsOf node).filter (·.startedAt = began)).map NodeRun.tokens).sum

/-- The executions of the node whose records were closed at the time. -/
def State.closedAt (s : State) (node : String) (now : Nat) : List Nat :=
  ((s.runsOf node).filter (·.completedAt = some now)).map NodeRun.startedAt

/-- The records sum up to the totals. -/
def State.Balanced (s : State) : Prop := (s.allRuns.map NodeRun.tokens).sum = s.totals

/-- The usage goes to the totals and to the record of the execution, and nowhere else. -/
structure Charged (s s' : State) (began : Option Nat) (data : Payload) : Prop where
  totals : s'.totals = s.totals + carried data
  record : ∀ node time, s'.tokensOf node time = s.tokensOf node time +
    if data.text "node_id" "" = node ∧ began = some time then carried data else 0

/-- What is asked of a step. -/
structure Conserved (t : Transition State Action) : Prop where
  balanced : t.target.Balanced
  charged : ∀ began sender, t.action = .response began sender →
    Charged t.source t.target began sender.payload
  /-- the record that is closed is that of the execution -/
  closed : ∀ began node rest, t.action = .nodeComplete began node rest →
    t.target.closedAt node t.source.past.length = [began]
  /-- where there was no execution no record is closed -/
  skipped : ∀ node rest, t.action = .skip node rest →
    t.target.closedAt node t.source.past.length = []

/-! ## What the code needs for that -/

def Action.isPipelineStart : Action → Bool
  | .pipelineStart _ => true
  | _ => false

/-- When the last execution of the node began, since the last `pipeline:start`. -/
def lastBegan : List Action → String → Option Nat
  | [], _ => none
  | .pipelineStart _ :: _, _ => none
  | .nodeStart node' _ :: past, node =>
    if node' = node ∧ past.any Action.isPipelineStart then some past.length
    else lastBegan past node
  | _ :: past, node => lastBegan past node

/-- No tokens are sent, and of the executions of a node it is the last one that ends. -/
def Meets (t : Transition State Action) : Prop :=
  match t.action with
  | .response _ sender => carried sender.payload = 0
  | .nodeComplete began node _ => lastBegan t.source.past node = some began
  | .skip node _ => lastBegan t.source.past node = none
  | _ => True

end Telemetry
end DotRunner
