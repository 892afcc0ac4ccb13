import DotRunner.Engine.Coherence
import DotRunner.Engine.Ladder

/-!
# The ladder on the engine's own documents

A checkpoint in flight passes every rung of the ladder; the same checkpoint,
flipped, is refused at rung 4.
-/

namespace DotRunner

open Py

variable [Runtime]

/-! ## The file -/

/-- A checkpoint an engine over `g` takes of some walk. -/
def Taken (g : Graph) (cp : Checkpoint) : Prop :=
  ∃ w nodeId timestamp, cp = checkpointOf g w nodeId timestamp

/-- The `run_state` a stored document holds. -/
def runStateOf : Value → Option Value
  | .dict kvs => (Dict.ofList kvs).get? "run_state"
  | _ => none

omit [Runtime] in
theorem runStateOf_saveCheckpoint (cp : Checkpoint) :
    runStateOf (saveCheckpoint cp) = some cp.runState.viaJson := by
  simp only [saveCheckpoint, Checkpoint.data, Value.viaJson, Value.viaJsonPairs, runStateOf,
    Dict.ofList, Dict.setAll, List.foldl_cons, List.foldl_nil, Dict.get?_set, Dict.get?_empty,
    String.reduceEq, if_true, if_false]

def InFlight (doc : Value) : Prop := runStateOf doc = some (.str runStateInFlight)

def RunCompleted (doc : Value) : Prop := runStateOf doc = some (.str runStateCompleted)

/-- The document of a finished run, refused at rung 4 whatever the caller
supplies. -/
structure NotResumable (doc : Value) : Prop where
  completed : RunCompleted doc
  refused : ∀ path source, ∃ text, loadCheckpointForResume path (some (.value doc)) source =
    .error (.refused (.alreadyCompleted text))

section Documents

variable {g : Graph} {cp : Checkpoint}

theorem Taken.inFlight (h : Taken g cp) : InFlight (saveCheckpoint cp) := by
  obtain ⟨w, nodeId, timestamp, rfl⟩ := h
  rw [InFlight, runStateOf_saveCheckpoint]
  rfl

theorem Taken.load (h : Taken g cp) (path : String) :
    loadCheckpoint path (saveCheckpoint cp) = .ok cp.viaJson := by
  obtain ⟨w, nodeId, timestamp, rfl⟩ := h
  exact loadCheckpoint_saveCheckpoint path _ (wellFormedGraphBlock_graphIdentity g)

theorem Taken.load_completed (h : Taken g cp) (path : String) :
    loadCheckpoint path (saveCheckpoint cp.completed) = .ok cp.completed.viaJson := by
  obtain ⟨w, nodeId, timestamp, rfl⟩ := h
  exact loadCheckpoint_saveCheckpoint path _ (wellFormedGraphBlock_graphIdentity g)

/-- A flipped checkpoint is refused at rung 4. -/
theorem Taken.notResumable (h : Taken g cp) : NotResumable (saveCheckpoint cp.completed) := by
  refine ⟨by rw [RunCompleted, runStateOf_saveCheckpoint]; rfl, fun path source => ?_⟩
  have hload := h.load_completed path
  obtain ⟨w, nodeId, timestamp, rfl⟩ := h
  rw [loadCheckpointForResume, parseRung, hload]
  exact ⟨_, rfl⟩

end Documents

/-! ## What the ladder accepts -/

omit [Runtime] in
theorem unknownNodes_eq_nil {g : Graph} {l : List String} (h : ∀ id ∈ l, (g.node? id).isSome) :
    unknownNodes g (l.map Value.str) = .ok [] := by
  induction l with
  | nil => rfl
  | cons id rest ih =>
    have hid : inNodes g (.str id) = .ok true := by
      have hsome : (g.nodeOfValue? (.str id)).isSome = true := h id List.mem_cons_self
      rw [inNodes, hsome]
      rfl
    have hrest := ih fun id' hm => h id' (List.mem_cons_of_mem _ hm)
    rw [List.map_cons, unknownNodes, hid, hrest]
    rfl

theorem verifyRecord_outcomeRecord {g : Graph} {nodeId : String} (o : Outcome)
    (h : (g.node? nodeId).isSome) :
    verifyRecord g nodeId (Value.dict (outcomeRecord o)).viaJson = .ok () := by
  have hnode : ¬ (g.node? nodeId).isNone = true := by
    cases hn : g.node? nodeId with
    | none =>
      rw [hn] at h
      cases h
    | some n => exact Bool.false_ne_true
  have hvalid : isValidStatus (.str o.status.value) = true := by
    cases o.status <;> decide
  rw [viaJson_outcomeRecord, verifyRecord, if_neg hnode]
  simp only [Dict.getD, Dict.ofList, Dict.setAll, List.foldl_cons, List.foldl_nil, Dict.get?_set,
    Dict.get?_empty, String.reduceEq, if_true, if_false, Option.getD_some, Value.hashable,
    Bool.not_true, Bool.false_eq_true, hvalid]

theorem verifyRecords_eq {g : Graph} {l : List (String × Outcome)}
    (h : ∀ p ∈ l, (g.node? p.1).isSome) :
    verifyRecords g (l.map fun p => (p.1, (Value.dict (outcomeRecord p.2)).viaJson)) = .ok () := by
  induction l with
  | nil => rfl
  | cons p rest ih =>
    rw [List.map_cons, verifyRecords, verifyRecord_outcomeRecord p.2 (h p List.mem_cons_self)]
    exact ih fun q hq => h q (List.mem_cons_of_mem _ hq)

/-- Rung 6 accepts every checkpoint a coherent engine takes. -/
theorem Snapshot.verified {g : Graph} {w : Walk} {node : Node} (h : Snapshot g w node)
    (timestamp : String) :
    verifyCheckpointStructure (checkpointOf g w node.id timestamp).viaJson g = .ok () := by
  have hcurrent : inNodes g (.str node.id) = .ok true := by
    have hsome : (g.nodeOfValue? (.str node.id)).isSome = true := by
      rw [Graph.nodeOfValue?, h.member]
      rfl
    rw [inNodes, hsome]
    rfl
  have hrecorded : ∀ id ∈ w.engine.nodeOutcomes.keys, (g.node? id).isSome := by
    intro id hid
    obtain ⟨o, ho⟩ := Dict.exists_get?_of_mem_keys _ hid
    obtain ⟨⟨n, hn, -⟩, -⟩ := h.recorded id o ho
    rw [hn]
    rfl
  have hcompleted : unknownNodes g ((w.engine.completedNodes.map Value.str).map Value.viaJson) =
      .ok [] := by
    have hmap : (w.engine.completedNodes.map Value.str).map Value.viaJson =
        w.engine.completedNodes.map Value.str := by
      rw [List.map_map]
      rfl
    rw [hmap]
    exact unknownNodes_eq_nil fun id hid => hrecorded id ((h.keys id).mpr hid)
  have hitems : itemsOf (Value.dict (w.engine.nodeOutcomes.mapVals fun _ o =>
      (Value.dict (outcomeRecord o)).viaJson).entries) =
      .ok (w.engine.nodeOutcomes.entries.map fun p =>
        (p.1, (Value.dict (outcomeRecord p.2)).viaJson)) := by
    rw [itemsOf, Dict.ofList_entries]
    rfl
  have hrecords := verifyRecords_eq (g := g) (l := w.engine.nodeOutcomes.entries)
    fun p hp => hrecorded p.1 (List.mem_map_of_mem hp)
  simp only [verifyCheckpointStructure, Checkpoint.viaJson, checkpointOf, serializeNodeOutcomes]
  rw [viaJson_mapVals w.engine.nodeOutcomes fun o => .dict (outcomeRecord o), orElse_dict, hitems,
    hcompleted]
  simp only [Value.viaJson, hcurrent, bind, Except.bind, escaping, refuseWhen, Bool.not_true,
    Bool.false_eq_true, if_false, List.isEmpty_nil]
  simpa only [Value.viaJson] using hrecords

/-- The source a stored checkpoint names is that of the graph. -/
theorem Taken.graphDotSource {g : Graph} {cp : Checkpoint} (h : Taken g cp) :
    cp.viaJson.graphDotSource = g.dotSource := by
  obtain ⟨w, nodeId, timestamp, rfl⟩ := h
  by_cases hd : g.sourceDir = "" <;>
    simp [Checkpoint.graphDotSource, Checkpoint.viaJson, checkpointOf, graphIdentity, hd,
      Dict.ofList, Dict.setAll, Dict.getD, Value.viaJson, Value.toStr]

theorem Taken.graphFingerprint {g : Graph} {cp : Checkpoint} (h : Taken g cp) :
    cp.viaJson.graphFingerprint = fingerprintDotSource g.dotSource := by
  obtain ⟨w, nodeId, timestamp, rfl⟩ := h
  by_cases hd : g.sourceDir = "" <;>
    simp [Checkpoint.graphFingerprint, Checkpoint.viaJson, checkpointOf, graphIdentity, hd,
      Dict.ofList, Dict.setAll, Dict.getD, Value.viaJson, Value.toStr]

/-- Rungs 1 to 5 accept every checkpoint in flight of an engine whose graph has a
source. -/
theorem Taken.accepted {g : Graph} {cp : Checkpoint} (h : Taken g cp) (hs : g.dotSource ≠ "")
    (path : String) :
    loadCheckpointForResume path (some (.value (saveCheckpoint cp))) none = .ok cp.viaJson := by
  have hload := h.load path
  have hsource := h.graphDotSource
  have hfingerprint := h.graphFingerprint
  obtain ⟨w, nodeId, timestamp, rfl⟩ := h
  have hne : fingerprintDotSource g.dotSource ≠ "" := by
    simp [fingerprintDotSource]
  have hidentity : identityRung path (checkpointOf g w nodeId timestamp).viaJson none = .ok () := by
    rw [identityRung, hsource, hfingerprint, if_neg (by simp [hs, hne])]
  have hlive : livenessRung path (checkpointOf g w nodeId timestamp).viaJson = .ok () := rfl
  rw [loadCheckpointForResume, parseRung, hload]
  simp only [bind, Except.bind, pure, Except.pure, hlive, hidentity]
  rfl

end DotRunner
