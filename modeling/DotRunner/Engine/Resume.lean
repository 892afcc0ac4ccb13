import DotRunner.Engine.Run

/-!
# What a resume restores

`resume` of the document `save` wrote gives back the walk the checkpoint was
taken of: the same records in the order they were made, the same counters, the
context as JSON gives it back, and the failed table derived anew.
-/

namespace DotRunner

open Py

/-- An outcome as its checkpoint record gives it back. -/
def Outcome.restored (o : Outcome) : Outcome where
  status := o.status
  preferredLabel := o.preferredLabel
  suggestedNextIds := o.suggestedNextIds.map fun l => l.map Value.viaJson
  notes := o.notes
  failureReason := o.failureReason
  isExplicit := o.isExplicit
  attemptCount := some (retriesConsumed o + 1)

theorem viaJson_optionText (o : Option String) : (optionText o).viaJson = optionText o := by
  cases o <;> rfl

theorem textOf_optionText (o : Option String) : textOf (optionText o) = .ok o := by
  cases o <;> rfl

theorem idsOf_viaJson_optionIds (o : Option (List Value)) :
    idsOf (optionIds o).viaJson = .ok (o.map fun l => l.map Value.viaJson) := by
  cases o with
  | none => rfl
  | some l =>
    simp only [optionIds, Value.viaJson, Value.viaJsonAll_eq_map, idsOf]
    rfl

variable [Runtime]

omit [Runtime] in
theorem viaJson_outcomeRecord (o : Outcome) : (Value.dict (outcomeRecord o)).viaJson =
    .dict [("status", .str o.status.value), ("preferred_label", optionText o.preferredLabel),
      ("suggested_next_ids", (optionIds o.suggestedNextIds).viaJson),
      ("is_explicit", .bool o.isExplicit), ("failure_reason", optionText o.failureReason),
      ("notes", optionText o.notes)] := by
  simp only [outcomeRecord, Value.viaJson, Value.viaJsonPairs, viaJson_optionText]

/-- One record, one outcome. -/
theorem outcomeFromCheckpointRecord_viaJson (o : Outcome) :
    outcomeFromCheckpointRecord (Value.dict (outcomeRecord o)).viaJson (.int (retriesConsumed o)) =
      .ok o.restored := by
  rw [viaJson_outcomeRecord]
  simp only [outcomeFromCheckpointRecord, asDict, bind, Except.bind, pure, Except.pure,
    Dict.getD, Dict.ofList, Dict.setAll, List.foldl_cons, List.foldl_nil, Dict.get?_set,
    Dict.get?_empty, String.reduceEq, if_true, if_false, Option.getD_some,
    StageStatus.ofValue?_value, textOf_optionText, idsOf_viaJson_optionIds, Value.toInt,
    Value.truthy]
  rfl

/-- Restoring records one by one restores the whole table. -/
theorem restoreOutcomes_eq {nodeRetries : Record} (l : List (String × Outcome))
    (h : ∀ p ∈ l, nodeRetries.getD p.1 (.int 0) = .int (retriesConsumed p.2)) :
    restoreOutcomes nodeRetries (l.map fun p => (p.1, (Value.dict (outcomeRecord p.2)).viaJson)) =
      .ok (l.map fun p => (p.1, p.2.restored)) := by
  induction l with
  | nil => rfl
  | cons p rest ih =>
    have hp : nodeRetries.getD p.1 (.int 0) = .int (retriesConsumed p.2) :=
      h p List.mem_cons_self
    have hrest := ih fun q hq => h q (List.mem_cons_of_mem p hq)
    simp only [List.map_cons, restoreOutcomes, hp, outcomeFromCheckpointRecord_viaJson, hrest]
    rfl

theorem restoreCounts_eq (l : List (String × Int)) :
    restoreCounts (l.map fun p => (p.1, Value.int p.2)) = .ok l := by
  induction l with
  | nil => rfl
  | cons p rest ih =>
    simp only [List.map_cons, restoreCounts, Value.toInt, ih]
    rfl

omit [Runtime] in
theorem nodeIds_eq (l : List String) : nodeIds (l.map Value.str) = .ok l := by
  induction l with
  | nil => rfl
  | cons s rest ih =>
    simp only [List.map_cons, nodeIds, ih]
    rfl

/-- The walk a resume in `r` makes of a checkpoint of `w` at `node`. -/
def Walk.restored (w : Walk) (g : Graph) (r : Resumption) (node : Node) : Walk :=
  let outcomes := w.engine.nodeOutcomes.mapVals fun _ o => o.restored
  let context := (r.context.update w.engine.context.values.viaJson).update r.contextOverrides
  { engine :=
      { context := { context with logs := context.logs ++
          w.engine.context.logs.map Value.viaJson ++ [.str (resumeLogLine node.id
            w.engine.completedNodes.length w.engine.iterationCount)] }
        nodeOutcomes := outcomes
        completedNodes := w.engine.completedNodes
        iterationCount := w.engine.iterationCount
        nodeExecutionCounts := w.engine.nodeExecutionCounts
        failedOutputs := deriveFailedOutputs g outcomes
        resumeFidelityArmed := true }
    currentNode := node
    goalGateRetries := w.goalGateRetries
    failureRoutingRetries := w.failureRoutingRetries
    steps := w.steps
    resumeOutcome := outcomes.get? node.id }

theorem toIntOrZero_int (i : Int) : (Value.int i).toIntOrZero = .ok i := by
  rw [Value.toIntOrZero]
  by_cases hi : i = 0
  · subst hi
    rfl
  · simp [Value.truthy, hi, Value.toInt]

theorem wellFormedGraphBlock_graphIdentity (g : Graph) :
    WellFormedGraphBlock ((graphIdentity g).map fun p => (p.1, p.2.viaJson)) := by
  intro v hv
  by_cases hs : g.sourceDir = ""
  · simp [graphIdentity, hs, Dict.ofList, Dict.setAll, Value.viaJson] at hv
  · simp [graphIdentity, hs, Dict.ofList, Dict.setAll, Value.viaJson] at hv
    exact ⟨g.sourceDir, hv.symm⟩

theorem entryNode_eq {g : Graph} {node : Node} (hn : g.node? node.id = some node) :
    entryNode g (.str node.id) = .ok node := by
  simp only [entryNode, hn]

omit [Runtime] in
theorem asDict_entries (r : Record) : asDict (.dict r.entries) = .ok r := by
  rw [asDict, Dict.ofList_entries]

omit [Runtime] in
theorem pyDict_entries (r : Record) : pyDict (.dict r.entries) = .ok r := by
  rw [pyDict, Dict.ofList_entries]

omit [Runtime] in
/-- A table written entry by entry is read back as the table of the images. -/
theorem viaJson_mapVals {α : Type} (d : Dict String α) (f : α → Value) :
    (Value.dict (d.entries.map fun p => (p.1, f p.2))).viaJson =
      .dict (d.mapVals fun _ a => (f a).viaJson).entries := by
  rw [Value.viaJson, Value.viaJsonPairs_eq_map, List.map_map]
  rfl

omit [Runtime] in
theorem viaJson_engineStateRecord (w : Walk) : (Value.dict (engineStateRecord w)).viaJson =
    .dict (engineStateRecord w) := by
  have hcounts : (Value.dict (serializeCounts w.engine)).viaJson =
      .dict (serializeCounts w.engine) := viaJson_mapVals w.engine.nodeExecutionCounts Value.int
  simp only [engineStateRecord, Value.viaJson, Value.viaJsonPairs, Value.dict.injEq] at hcounts ⊢
  rw [hcounts]

omit [Runtime] in
theorem ofList_restoredEntries (d : Dict String Outcome) :
    Dict.ofList (d.entries.map fun p => (p.1, p.2.restored)) = d.mapVals fun _ o => o.restored :=
  Dict.ofList_entries (d.mapVals fun _ (o : Outcome) => o.restored)

/-- The two tables of outcomes, read back together. -/
theorem restoreOutcomes_serialized (s : EngineState) :
    restoreOutcomes (s.nodeOutcomes.mapVals fun _ o => (Value.int (retriesConsumed o)).viaJson)
        (s.nodeOutcomes.mapVals fun _ o => (Value.dict (outcomeRecord o)).viaJson).entries =
      .ok (s.nodeOutcomes.entries.map fun p => (p.1, p.2.restored)) := by
  refine restoreOutcomes_eq s.nodeOutcomes.entries fun p hp => ?_
  have hget : s.nodeOutcomes.get? p.1 = some p.2 := (Dict.get?_eq_some_iff _).mpr hp
  rw [Dict.getD, Dict.get?_mapVals, hget]
  rfl

/-- What the counters of a checkpoint read back as. -/
theorem restoreCounters (w : Walk) : ∃ e : Record, asDict (.dict (engineStateRecord w)) = .ok e ∧
    (e.getD "iteration_count" (.int 0)).toIntOrZero = .ok w.engine.iterationCount ∧
    (e.getD "node_execution_counts" .none).orElse (.dict []) =
      .dict (serializeCounts w.engine) ∧
    (e.getD "goal_gate_retries" (.int 0)).toIntOrZero = .ok w.goalGateRetries ∧
    (e.getD "failure_routing_retries" (.int 0)).toIntOrZero = .ok w.failureRoutingRetries ∧
    (e.getD "steps" (.int 0)).toIntOrZero = .ok w.steps := by
  refine ⟨Dict.ofList (engineStateRecord w), rfl, ?_, ?_, ?_, ?_, ?_⟩ <;>
    simp only [engineStateRecord, Dict.getD, Dict.ofList, Dict.setAll, List.foldl_cons,
      List.foldl_nil, Dict.get?_set, Dict.get?_empty, String.reduceEq, if_true, if_false,
      Option.getD_some, toIntOrZero_int, orElse_dict]

/-- Resuming from the document of a checkpoint restores the walk it was taken
of. -/
theorem resume_saveCheckpoint {g : Graph} {node : Node} (hn : g.node? node.id = some node)
    (r : Resumption) (path timestamp : String) (w : Walk) :
    resume g r path (saveCheckpoint (checkpointOf g w node.id timestamp)) =
      .ok (w.restored g r node) := by
  have hload := loadCheckpoint_saveCheckpoint path (checkpointOf g w node.id timestamp)
    (wellFormedGraphBlock_graphIdentity g)
  have hcompleted : (w.engine.completedNodes.map Value.str).map Value.viaJson =
      w.engine.completedNodes.map Value.str := by
    rw [List.map_map]
    rfl
  have hlogs : (Value.list w.engine.context.logs).viaJson =
      .list (w.engine.context.logs.map Value.viaJson) := by
    rw [Value.viaJson, Value.viaJsonAll_eq_map]
  have hcounts : restoreCounts (w.engine.nodeExecutionCounts.mapVals fun _ n => Value.int n).entries =
      .ok w.engine.nodeExecutionCounts.entries := restoreCounts_eq _
  have hcountDict : asDict (.dict (serializeCounts w.engine)) =
      .ok (w.engine.nodeExecutionCounts.mapVals fun _ n => Value.int n) :=
    asDict_entries (w.engine.nodeExecutionCounts.mapVals fun _ n => Value.int n)
  obtain ⟨e, he, hiter, hexec, hgate, hfail, hsteps⟩ := restoreCounters w
  rw [resume, hload]
  show restore g r (checkpointOf g w node.id timestamp).viaJson = _
  simp only [restore, Checkpoint.viaJson, checkpointOf, serializeNodeRetries,
    serializeNodeOutcomes, PipelineContext.snapshot]
  rw [viaJson_mapVals w.engine.nodeOutcomes fun o => .int (retriesConsumed o),
    viaJson_mapVals w.engine.nodeOutcomes fun o => .dict (outcomeRecord o),
    viaJson_engineStateRecord, Record.viaJson_dict, hlogs, hcompleted, orElse_dict, orElse_dict]
  have hout := restoreOutcomes_serialized w.engine
  have hrestored : Dict.ofList w.engine.nodeExecutionCounts.entries =
      w.engine.nodeExecutionCounts := Dict.ofList_entries _
  simp only [Value.viaJson] at hout
  simp only [Value.viaJson, entryNode_eq hn, pyDict_entries, pyList, nodeIds_eq, asDict_entries,
    bind, Except.bind, pure, Except.pure, hout, he, hiter, hexec, hcountDict, hcounts, hgate,
    hfail, hsteps, ofList_restoredEntries, hrestored]
  rfl

end DotRunner
