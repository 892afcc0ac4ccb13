import DotRunner.Checkpoint
import DotRunner.Handlers
import DotRunner.FanIn

/-!
# The state of an engine

What a walk changes in the engine it runs on, and the operations the walk is
made of: recording a completion, marking outputs as failed, clearing the run,
checking the goal gates.
-/

namespace DotRunner

open Py

/-- What an engine is built from. -/
structure PipelineEngine where
  graph : Graph
  logsRoot : String
  handlerRegistry : HandlerRegistry

structure EngineState where
  context : PipelineContext
  nodeOutcomes : Dict String Outcome := Dict.empty
  completedNodes : List String := []
  iterationCount : Int := 0
  nodeExecutionCounts : Dict String Int := Dict.empty
  failedOutputs : Dict String String := Dict.empty
  lastCheckpoint : Option Checkpoint := none
  resumeFidelityArmed : Bool := false

/-- The keys a failed or skipped node owed, each blamed on the first node that
failed to produce it. -/
def populateFailedOutputs (g : Graph) (nodeId : String) (failed : Dict String String) :
    Dict String String :=
  (outputsOf g nodeId).foldl (fun acc key => if acc.contains key then acc else acc.set key nodeId)
    failed

theorem mem_keys_foldl_mark (nodeId : String) (outputs : List String) (failed : Dict String String)
    (k : String) :
    k ∈ (outputs.foldl (fun acc key => if acc.contains key then acc else acc.set key nodeId)
      failed).keys ↔ k ∈ failed.keys ∨ k ∈ outputs := by
  induction outputs generalizing failed with
  | nil => simp
  | cons key rest ih =>
    rw [List.foldl_cons, ih, List.mem_cons]
    by_cases hc : failed.contains key = true
    · rw [if_pos hc]
      have hkey : key ∈ failed.keys := failed.contains_iff.mp hc
      constructor
      · rintro (h | h)
        · exact .inl h
        · exact .inr (.inr h)
      · rintro (h | rfl | h)
        · exact .inl h
        · exact .inl hkey
        · exact .inr h
    · rw [if_neg hc, Dict.mem_keys_set]
      tauto

/-- The table grows by exactly the outputs of the node. -/
theorem mem_keys_populateFailedOutputs (g : Graph) (nodeId : String) (failed : Dict String String)
    (k : String) :
    k ∈ (populateFailedOutputs g nodeId failed).keys ↔ k ∈ failed.keys ∨ k ∈ outputsOf g nodeId :=
  mem_keys_foldl_mark nodeId (outputsOf g nodeId) failed k

namespace EngineState

/-- `completed_nodes.append(id)` and `node_outcomes[id] = outcome`. -/
def recordCompletion (s : EngineState) (nodeId : String) (o : Outcome) : EngineState :=
  { s with
    completedNodes := s.completedNodes ++ [nodeId]
    nodeOutcomes := s.nodeOutcomes.set nodeId o }

def markFailed (s : EngineState) (g : Graph) (nodeId : String) : EngineState :=
  { s with failedOutputs := populateFailedOutputs g nodeId s.failedOutputs }

/-- The reset before a retry: attempt N must not block attempt N+1. -/
def clearRun (s : EngineState) : EngineState :=
  { s with
    completedNodes := []
    nodeOutcomes := Dict.empty
    failedOutputs := Dict.empty }

/-- Nothing is recorded: the state a reset leaves. -/
def isCleared (s : EngineState) : Bool :=
  s.completedNodes.isEmpty && s.nodeOutcomes.entries.isEmpty && s.failedOutputs.entries.isEmpty

def lastOutcome (s : EngineState) : Option Outcome :=
  s.completedNodes.getLast?.bind s.nodeOutcomes.get?

@[simp] theorem recordCompletion_completedNodes (s : EngineState) (nodeId : String) (o : Outcome) :
    (s.recordCompletion nodeId o).completedNodes = s.completedNodes ++ [nodeId] := rfl

@[simp] theorem recordCompletion_nodeOutcomes (s : EngineState) (nodeId : String) (o : Outcome) :
    (s.recordCompletion nodeId o).nodeOutcomes = s.nodeOutcomes.set nodeId o := rfl

@[simp] theorem recordCompletion_failedOutputs (s : EngineState) (nodeId : String) (o : Outcome) :
    (s.recordCompletion nodeId o).failedOutputs = s.failedOutputs := rfl

@[simp] theorem markFailed_completedNodes (s : EngineState) (g : Graph) (nodeId : String) :
    (s.markFailed g nodeId).completedNodes = s.completedNodes := rfl

@[simp] theorem markFailed_nodeOutcomes (s : EngineState) (g : Graph) (nodeId : String) :
    (s.markFailed g nodeId).nodeOutcomes = s.nodeOutcomes := rfl

@[simp] theorem clearRun_completedNodes (s : EngineState) : s.clearRun.completedNodes = [] := rfl

@[simp] theorem clearRun_nodeOutcomes (s : EngineState) : s.clearRun.nodeOutcomes = Dict.empty := rfl

@[simp] theorem clearRun_failedOutputs (s : EngineState) :
    s.clearRun.failedOutputs = Dict.empty := rfl

@[simp] theorem clearRun_isCleared (s : EngineState) : s.clearRun.isCleared = true := rfl

/-- A completion that is still recorded shows that nothing was reset. -/
theorem not_isCleared_of_mem {s : EngineState} {nodeId : String} (h : nodeId ∈ s.completedNodes) :
    s.isCleared = false := by
  have hne : s.completedNodes.isEmpty = false := by
    cases hc : s.completedNodes with
    | nil =>
      rw [hc] at h
      exact absurd h List.not_mem_nil
    | cons a l => rfl
  simp [isCleared, hne]

end EngineState

variable [Runtime]

/-! ## Skips -/

/-- The keys the node reads that a failed producer owes. -/
def failedRefs (ord : SetOrder) (node : Node) (failed : Dict String String) : List String :=
  (ord.iter (extractNodeRefs node)).filter fun key => failed.contains key

def skipOutcome (node : Node) (missingKeys : List String) : Outcome where
  status := .skipped
  notes := some ("Node '" ++ node.id ++ "' skipped: predecessor(s) failed for keys " ++
    Value.reprStrs missingKeys)
  failureReason := some "predecessor_failed"

/-- The missing keys of a node that must be skipped; `none` lets it run. -/
def checkNodeSkip (ord : SetOrder) (node : Node) (failed : Dict String String) :
    Option (List String) :=
  match failedRefs ord node failed with
  | [] => none
  | keys => some keys

theorem mem_failedRefs {ord : SetOrder} {node : Node} {failed : Dict String String} {k : String} :
    k ∈ failedRefs ord node failed ↔ k ∈ extractNodeRefs node ∧ k ∈ failed.keys := by
  rw [failedRefs, List.mem_filter, ord.mem_iter, Dict.contains_iff]

theorem checkNodeSkip_some {ord : SetOrder} {node : Node} {failed : Dict String String}
    {keys : List String} (h : checkNodeSkip ord node failed = some keys) :
    keys = failedRefs ord node failed ∧ keys ≠ [] := by
  unfold checkNodeSkip at h
  split at h
  · exact absurd h (by simp)
  · rename_i hne
    rw [Option.some.injEq] at h
    exact ⟨h.symm, fun hnil => hne (h.trans hnil)⟩

/-- A node is skipped exactly when it reads a key of the table. -/
theorem checkNodeSkip_isSome_iff {ord : SetOrder} {node : Node} {failed : Dict String String} :
    (checkNodeSkip ord node failed).isSome ↔ ∃ k ∈ extractNodeRefs node, k ∈ failed.keys := by
  constructor
  · intro h
    obtain ⟨keys, hk⟩ := Option.isSome_iff_exists.mp h
    obtain ⟨rfl, hne⟩ := checkNodeSkip_some hk
    obtain ⟨k, hmem⟩ := List.exists_mem_of_ne_nil _ hne
    exact ⟨k, mem_failedRefs.mp hmem⟩
  · rintro ⟨k, hk, hf⟩
    have hmem : k ∈ failedRefs ord node failed := mem_failedRefs.mpr ⟨hk, hf⟩
    unfold checkNodeSkip
    split
    · rename_i hnil
      rw [hnil] at hmem
      exact absurd hmem List.not_mem_nil
    · rfl

/-- Which nodes are skipped depends on the keys of the table alone. -/
theorem checkNodeSkip_isSome_congr (ord ord' : SetOrder) (node : Node)
    {failed failed' : Dict String String} (h : ∀ k, k ∈ failed.keys ↔ k ∈ failed'.keys) :
    (checkNodeSkip ord node failed).isSome = (checkNodeSkip ord' node failed').isSome := by
  rw [Bool.eq_iff_iff, checkNodeSkip_isSome_iff, checkNodeSkip_isSome_iff]
  simp only [h]

/-! ## Goal gates -/

def isGoalGate (g : Graph) (nodeId : String) : Bool :=
  match g.node? nodeId with
  | some n => n.hasGoalGate
  | none => false

omit [Runtime] in
def gateSatisfied (o : Outcome) : Bool := o.isSuccess && o.isExplicit

def unsatisfiedGates (g : Graph) (outcomes : Dict String Outcome) : List (String × Outcome) :=
  outcomes.entries.filter fun p => isGoalGate g p.1 && !gateSatisfied p.2

/-- The retry target of a gate: its own, its fallback, then the graph's. -/
def gateRetryTarget (g : Graph) (gate : Node) : Value :=
  (((gate.attr "retry_target").orElse (gate.attr "fallback_retry_target")).orElse
    (g.attr "retry_target")).orElse (g.attr "fallback_retry_target")

def unsatisfiedReason (unsatisfied : List (String × Outcome)) : String :=
  "Unsatisfied goal gates: " ++ Value.reprStrs (unsatisfied.map Prod.fst)

def checkGoalGates (g : Graph) (s : EngineState) : Outcome :=
  match unsatisfiedGates g s.nodeOutcomes with
  | [] => s.lastOutcome.getD { status := .success, notes := some "Pipeline completed" }
  | (gateId, o) :: rest =>
    let target := match g.node? gateId with
      | some gate => gateRetryTarget g gate
      | none => .none
    { status := .fail
      failureReason := some (unsatisfiedReason ((gateId, o) :: rest))
      suggestedNextIds := if (g.nodeOfValue? target).isSome && target.truthy then some [target]
        else none }

/-- The node a failed node falls back to when no edge matches; the graph's own
target is for goal gates only. -/
def resolveFailureRetryTarget (g : Graph) (node : Node) : Option Node :=
  let target := (node.attr "retry_target").orElse (node.attr "fallback_retry_target")
  if target.truthy then g.nodeOfValue? target else none

omit [Runtime] in
/-- The one way a walk that cannot be routed ends. -/
def terminatePipeline (upstream : Option Outcome) (terminationReason : String) : Outcome :=
  let reason := upstream.bind Outcome.failureReason
  { status := .fail
    failureReason := orStr reason (some terminationReason)
    notes := if truthyStr reason then some terminationReason else none }

def noMatchingEdgeReason (g : Graph) (nodeId : String) (o : Outcome) : String :=
  let reason := "No matching edge from node '" ++ nodeId ++ "'"
  if o.suggestions.isEmpty then reason
  else reason ++ " (suggested_next_ids=" ++ (Value.list o.suggestions).repr ++
    " matched none of the outgoing edges; available targets=" ++
    Value.reprStrs ((g.outgoingEdges nodeId).map Edge.toNode) ++ ")"

end DotRunner
