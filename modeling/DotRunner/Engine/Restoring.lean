import DotRunner.Engine.Ladder

/-!
# The restore phase on any document

What `resume` does to its engine before the walk, field by field and in the
order of the source, on a checkpoint whose fields hold whatever the file held.
An exception leaves the engine as far as it had come.
-/

namespace DotRunner

open Py

/-- The routing and gating part of an outcome, its texts unchecked. -/
structure RestoredOutcome where
  status : StageStatus
  preferredLabel : Value
  suggestedNextIds : Value
  notes : Value
  failureReason : Value
  isExplicit : Bool
  attemptCount : Int

/-- The part of an engine and its context that a resume writes. -/
structure EngineFields where
  values : Record := Dict.empty
  logs : List Value := []
  completedNodes : List Value := []
  nodeOutcomes : Dict String RestoredOutcome := Dict.empty
  iterationCount : Int := 0
  nodeExecutionCounts : Dict String Int := Dict.empty
  failedOutputs : Dict String String := Dict.empty
  resumeFidelityArmed : Bool := false

/-- The counters the walk is handed. -/
structure Counters where
  goalGateRetries : Int
  failureRoutingRetries : Int
  steps : Int

/-- One element of the sequence `dict(v)` is given. -/
def pairOf (item : Value) : Except PyExc (Value × Value) := do
  match ← pyList item with
  | [k, a] =>
    if k.hashable then .ok (k, a) else .error (.typeError ("unhashable type: '" ++ k.typeName ++ "'"))
  | _ => .error (.valueError "dictionary update sequence element has the wrong length; 2 is required")

def pairsOf : List Value → Except PyExc (List (Value × Value))
  | [] => .ok []
  | item :: rest => do
    let p ← pairOf item
    let ps ← pairsOf rest
    return p :: ps

/-- The items of `dict(v)`. -/
def dictItems : Value → Except PyExc (List (Value × Value))
  | .dict kvs => .ok (kvs.map fun p => (.str p.1, p.2))
  | v => do
    let items ← pyList v
    pairsOf items

/-- A key that is no text is never looked up again. -/
def textItems (items : List (Value × Value)) : List (String × Value) :=
  items.filterMap fun p => match p.1 with
    | .str s => some (s, p.2)
    | _ => none

section Restoring

variable [Runtime]

def restoredOutcome (retries record : Value) : Except PyExc RestoredOutcome := do
  let r ← asDict record
  let status ← match r.get? "status" with
    | none => .error (.keyError "status")
    | some (.str s) => match StageStatus.ofValue? s with
      | some status => .ok status
      | none => .error (.valueError (Value.reprStr s ++ " is not a valid StageStatus"))
    | some v => .error (.valueError (v.repr ++ " is not a valid StageStatus"))
  let n ← retries.toInt
  return {
    status := status
    preferredLabel := r.getD "preferred_label" .none
    suggestedNextIds := r.getD "suggested_next_ids" .none
    notes := r.getD "notes" .none
    failureReason := r.getD "failure_reason" .none
    isExplicit := (r.getD "is_explicit" (.bool false)).truthy
    attemptCount := n + 1 }

/-- `node_retries` is asked only where there is an outcome to count. -/
def restoredOutcomes (nodeRetries : Value) :
    List (String × Value) → Except PyExc (List (String × RestoredOutcome))
  | [] => .ok []
  | (nodeId, record) :: rest => do
    let retries ← asDict nodeRetries
    let o ← restoredOutcome (retries.getD nodeId (.int 0)) record
    let os ← restoredOutcomes nodeRetries rest
    return (nodeId, o) :: os

abbrev Restoring := ExceptT PyExc (StateM EngineFields)

def attempt {α : Type} (r : Except PyExc α) : Restoring α := ExceptT.mk (pure r)

def write (f : EngineFields → EngineFields) : Restoring Unit := modify f

def deriveFailed (g : Graph) (outcomes : Dict String RestoredOutcome) (failed : Dict String String) :
    Dict String String :=
  outcomes.entries.foldl (fun acc p =>
    if p.2.status.failing then populateFailedOutputs g p.1 acc else acc) failed

/-- The engine's own counters and those of the loop. -/
def restoreBudgets (cp : Checkpoint) : Restoring Counters := do
  let engineState ← attempt (asDict (cp.engineState.orElse (.dict [])))
  let iterationCount ← attempt (engineState.getD "iteration_count" (.int 0)).toIntOrZero
  write fun s => { s with iterationCount := iterationCount }
  let counts ← attempt (itemsOf ((engineState.getD "node_execution_counts" .none).orElse (.dict [])))
  let nodeExecutionCounts ← attempt (restoreCounts counts)
  write fun s => { s with nodeExecutionCounts := Dict.ofList nodeExecutionCounts }
  let goalGateRetries ← attempt (engineState.getD "goal_gate_retries" (.int 0)).toIntOrZero
  let failureRoutingRetries ← attempt
    (engineState.getD "failure_routing_retries" (.int 0)).toIntOrZero
  let steps ← attempt (engineState.getD "steps" (.int 0)).toIntOrZero
  return ⟨goalGateRetries, failureRoutingRetries, steps⟩

/-- Everything before `_run_loop`, after the check that the current node is one
of the graph. -/
def restorePhase (g : Graph) (contextOverrides : Record) (cp : Checkpoint) : Restoring Counters := do
  let snapshot ← attempt (dictItems cp.contextSnapshot)
  write fun s => { s with values := s.values.setAll (textItems snapshot) }
  write fun s => { s with values := s.values.update contextOverrides }
  let logs ← attempt (pyList cp.logs)
  write fun s => { s with logs := s.logs ++ logs }
  write fun s => { s with completedNodes := cp.completedNodes }
  let records ← attempt (itemsOf cp.nodeOutcomes)
  let outcomes ← attempt (restoredOutcomes cp.nodeRetries records)
  write fun s => { s with nodeOutcomes := Dict.ofList outcomes }
  let counters ← restoreBudgets cp
  write fun s => { s with failedOutputs := deriveFailed g s.nodeOutcomes s.failedOutputs }
  write fun s => { s with resumeFidelityArmed := true }
  write fun s => { s with logs := s.logs ++ [.str (resumeLogLine cp.currentNode.toStr
    s.completedNodes.length s.iterationCount)] }
  return counters

/-- A resume from the document in the file: the ladder, then the restore. -/
def resumeDocument (g : Graph) (path : String) (doc : Value) (source : Option String)
    (contextOverrides : Record) (s : EngineFields) : Except LadderExc Counters × EngineFields :=
  match loadCheckpointForResume path (some (.value doc)) source with
  | .error e => (.error e, s)
  | .ok cp => match verifyCheckpointStructure cp g with
    | .error e => (.error e, s)
    | .ok () => match (restorePhase g contextOverrides cp).run.run s with
      | (.error e, s') => (.error (.escaped e), s')
      | (.ok counters, s') => (.ok counters, s')

/-- Whatever goes wrong is a refusal of the resume family, and it leaves the
engine as it was. -/
def RefusesCleanly (s : EngineFields) (r : Except LadderExc Counters × EngineFields) : Prop :=
  ∀ e, r.1 = .error e → (∃ refusal, e = .refused refusal) ∧ r.2 = s

end Restoring

end DotRunner
