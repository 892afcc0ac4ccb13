import DotRunner.Engine.State

/-!
# Writing and restoring an engine

The checkpoint a walk writes after every node, and what a resume makes of the
one it loads.
-/

namespace DotRunner

open Py

/-- A position in the graph, with the budgets of the loop around it. -/
structure Walk where
  engine : EngineState
  currentNode : Node
  goalGateRetries : Int := 0
  failureRoutingRetries : Int := 0
  steps : Int := 0
  resumeOutcome : Option Outcome := none

/-! ## Writing -/

/-- The routing and gating part of an outcome. -/
def outcomeRecord (o : Outcome) : List (String × Value) :=
  [("status", .str o.status.value), ("preferred_label", optionText o.preferredLabel),
    ("suggested_next_ids", optionIds o.suggestedNextIds), ("is_explicit", .bool o.isExplicit),
    ("failure_reason", optionText o.failureReason), ("notes", optionText o.notes)]

def serializeNodeOutcomes (s : EngineState) : List (String × Value) :=
  s.nodeOutcomes.entries.map fun p => (p.1, .dict (outcomeRecord p.2))

/-- `max(0, (attempt_count or 1) - 1)` -/
def retriesConsumed (o : Outcome) : Int :=
  let attempts := match o.attemptCount with
    | some n => if n = 0 then 1 else n
    | none => 1
  max 0 (attempts - 1)

def serializeNodeRetries (s : EngineState) : List (String × Value) :=
  s.nodeOutcomes.entries.map fun p => (p.1, .int (retriesConsumed p.2))

def serializeCounts (s : EngineState) : List (String × Value) :=
  s.nodeExecutionCounts.entries.map fun p => (p.1, .int p.2)

/-- The counters of the loop and of the engine. -/
def engineStateRecord (w : Walk) : List (String × Value) :=
  [("iteration_count", .int w.engine.iterationCount),
    ("node_execution_counts", .dict (serializeCounts w.engine)),
    ("goal_gate_retries", .int w.goalGateRetries),
    ("failure_routing_retries", .int w.failureRoutingRetries), ("steps", .int w.steps)]

def fingerprintDotSource [Runtime] (dotSource : String) : String :=
  "sha256:" ++ Runtime.sha256 dotSource

def graphIdentity [Runtime] (g : Graph) : List (String × Value) :=
  [("fingerprint", .str (fingerprintDotSource g.dotSource)), ("dot_source", .str g.dotSource)] ++
    if g.sourceDir = "" then [] else [("source_dir", .str g.sourceDir)]

/-- The checkpoint of `w` after `nodeId`. -/
def checkpointOf [Runtime] (g : Graph) (w : Walk) (nodeId timestamp : String) : Checkpoint where
  currentNode := .str nodeId
  completedNodes := w.engine.completedNodes.map .str
  contextSnapshot := .dict w.engine.context.snapshot.entries
  timestamp := .str timestamp
  nodeRetries := .dict (serializeNodeRetries w.engine)
  logs := .list w.engine.context.logs
  nodeOutcomes := .dict (serializeNodeOutcomes w.engine)
  engineState := .dict (engineStateRecord w)
  graph := graphIdentity g

/-- The payload of a finished run. -/
def Checkpoint.completed (cp : Checkpoint) : Checkpoint :=
  { cp with runState := .str runStateCompleted }

/-- What a returning run writes last, if it has written anything. -/
def markRunCompleted (s : EngineState) : Option Checkpoint := s.lastCheckpoint.map Checkpoint.completed

/-! ## Restoring -/

/-- `dict(v)`; a key that is no text has no place in a record. -/
def pyDict : Value → Except PyExc Record
  | .dict kvs => .ok (Dict.ofList kvs)
  | v => do
    let items ← pyList v
    let pairs ← items.mapM fun item => do
      match ← pyList item with
      | [.str k, a] => .ok (k, a)
      | [_, _] => .error (.typeError "unhashable key")
      | _ => .error (.valueError "dictionary update sequence element has the wrong length")
    return Dict.ofList pairs

/-- `v.get(key)` and its fellows need a dictionary. -/
def asDict (v : Value) : Except PyExc Record :=
  match v with
  | .dict kvs => .ok (Dict.ofList kvs)
  | v => .error (.attributeError ("'" ++ v.typeName ++ "' object has no attribute 'get'"))

/-- A record field as a text, where it is one or is missing. -/
def textOf : Value → Except PyExc (Option String)
  | .none => .ok none
  | .str s => .ok (some s)
  | v => .error (.typeError ("expected a text, found " ++ v.typeName))

def idsOf : Value → Except PyExc (Option (List Value))
  | .none => .ok none
  | .list l => .ok (some l)
  | v => .error (.typeError ("expected a list, found " ++ v.typeName))

variable [Runtime]

/-- Only the routing and gating subset of an outcome comes back; the attempts
are counted from the sibling `node_retries` entry. -/
def outcomeFromCheckpointRecord (record retries : Value) : Except PyExc Outcome := do
  let r ← asDict record
  let status ← match r.get? "status" with
    | none => .error (.keyError "status")
    | some (.str s) => match StageStatus.ofValue? s with
      | some status => .ok status
      | none => .error (.valueError (Value.reprStr s ++ " is not a valid StageStatus"))
    | some v => .error (.valueError (v.repr ++ " is not a valid StageStatus"))
  let preferredLabel ← textOf (r.getD "preferred_label" .none)
  let suggestedNextIds ← idsOf (r.getD "suggested_next_ids" .none)
  let notes ← textOf (r.getD "notes" .none)
  let failureReason ← textOf (r.getD "failure_reason" .none)
  let n ← retries.toInt
  return {
    status := status
    preferredLabel := preferredLabel
    suggestedNextIds := suggestedNextIds
    notes := notes
    failureReason := failureReason
    isExplicit := (r.getD "is_explicit" (.bool false)).truthy
    attemptCount := some (n + 1) }

/-- The outcomes of a checkpoint, one record after the other. -/
def restoreOutcomes (nodeRetries : Record) :
    List (String × Value) → Except PyExc (List (String × Outcome))
  | [] => .ok []
  | (nodeId, record) :: rest => do
    let o ← outcomeFromCheckpointRecord record (nodeRetries.getD nodeId (.int 0))
    let os ← restoreOutcomes nodeRetries rest
    return (nodeId, o) :: os

def restoreCounts : List (String × Value) → Except PyExc (List (String × Int))
  | [] => .ok []
  | (k, v) :: rest => do
    let n ← v.toInt
    let ns ← restoreCounts rest
    return (k, n) :: ns

/-- The table a resume derives: the outputs of every node whose recorded outcome
is a failure or a skip. -/
def deriveFailedOutputs (g : Graph) (outcomes : Dict String Outcome) : Dict String String :=
  outcomes.entries.foldl (fun acc p =>
    if p.2.status.failing then populateFailedOutputs g p.1 acc else acc) Dict.empty

def nodeIds : List Value → Except PyExc (List String)
  | [] => .ok []
  | .str s :: rest => do
    let ids ← nodeIds rest
    return s :: ids
  | v :: _ => .error (.typeError ("expected a node id, found " ++ v.typeName))

def resumeLogLine (nodeId : String) (completed : Nat) (iterationCount : Int) : String :=
  "resume: continuing from checkpoint after node '" ++ nodeId ++ "' (" ++ toString completed ++
    " node(s) already complete, iteration " ++ toString iterationCount ++ ")"

/-- The node a checkpoint stands at. -/
def entryNode (g : Graph) (currentNode : Value) : Except PyExc Node :=
  match currentNode with
  | .str s => match g.node? s with
    | some n => .ok n
    | none => .error (.runtimeError ("resume() called with an unvalidated checkpoint: " ++
        "current_node " ++ Value.reprStr s ++ " is not in the graph. Callers must use " ++
        "checkpoint.load_checkpoint_for_resume() + verify_checkpoint_structure() first."))
  | v =>
    if v.hashable then .error (.runtimeError ("resume() called with an unvalidated checkpoint: " ++
      "current_node " ++ v.repr ++ " is not in the graph. Callers must use " ++
      "checkpoint.load_checkpoint_for_resume() + verify_checkpoint_structure() first."))
    else .error (.typeError ("unhashable type: '" ++ v.typeName ++ "'"))

/-- A process that resumes a run: the context its engine was built with, and
what it puts over the restored one. -/
structure Resumption where
  context : PipelineContext := {}
  contextOverrides : Record := Dict.empty

/-- Everything `resume` does before the walk. -/
def restore (g : Graph) (r : Resumption) (cp : Checkpoint) : Except PyExc Walk := do
  let node ← entryNode g cp.currentNode
  let snapshot ← pyDict cp.contextSnapshot
  let logs ← pyList cp.logs
  let completedNodes ← nodeIds cp.completedNodes
  let nodeRetries ← asDict cp.nodeRetries
  let records ← asDict cp.nodeOutcomes
  let outcomes ← restoreOutcomes nodeRetries records.entries
  let engineState ← asDict cp.engineState
  let iterationCount ← (engineState.getD "iteration_count" (.int 0)).toIntOrZero
  let countRecords ← asDict ((engineState.getD "node_execution_counts" .none).orElse (.dict []))
  let counts ← restoreCounts countRecords.entries
  let goalGateRetries ← (engineState.getD "goal_gate_retries" (.int 0)).toIntOrZero
  let failureRoutingRetries ← (engineState.getD "failure_routing_retries" (.int 0)).toIntOrZero
  let steps ← (engineState.getD "steps" (.int 0)).toIntOrZero
  let nodeOutcomes := Dict.ofList outcomes
  let context := (r.context.update snapshot).update r.contextOverrides
  return {
    engine :=
      { context := { context with logs := context.logs ++ logs ++
          [.str (resumeLogLine node.id completedNodes.length iterationCount)] }
        nodeOutcomes := nodeOutcomes
        completedNodes := completedNodes
        iterationCount := iterationCount
        nodeExecutionCounts := Dict.ofList counts
        failedOutputs := deriveFailedOutputs g nodeOutcomes
        resumeFidelityArmed := true }
    currentNode := node
    goalGateRetries := goalGateRetries
    failureRoutingRetries := failureRoutingRetries
    steps := steps
    resumeOutcome := nodeOutcomes.get? node.id }

end DotRunner
