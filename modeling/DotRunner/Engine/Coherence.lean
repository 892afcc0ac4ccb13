import DotRunner.Engine.Resume
import DotRunner.Engine.Steps

/-!
# Coherent engines

What ties the records of a walk together in every reachable state, and what
every checkpoint document of a run is: the document of a coherent walk, taken at
a node it has just recorded or at an exit.
-/

namespace DotRunner

open Py

/-- What is known of every outcome an engine records. -/
structure Outcome.Recordable (o : Outcome) : Prop where
  attempts : o.CountsAttempts
  ids : (optionIds o.suggestedNextIds).serializable = true

theorem serializablePairs_iff {l : List (String × Value)} :
    Value.serializablePairs l = true ↔ ∀ p ∈ l, p.2.serializable = true := by
  induction l with
  | nil => exact ⟨fun _ => nofun, fun _ => rfl⟩
  | cons p l ih =>
    obtain ⟨k, v⟩ := p
    rw [Value.serializablePairs, Bool.and_eq_true, ih, List.forall_mem_cons]

mutual

theorem serializable_viaJson (v : Value) : v.viaJson.serializable = true := by
  match v with
  | .list xs => exact serializableAll_viaJson xs
  | .tuple xs => exact serializableAll_viaJson xs
  | .dict kvs => exact serializablePairs_viaJson kvs
  | .keyed _ kvs =>
    refine serializablePairs_iff.mpr fun p hp => ?_
    exact serializablePairs_iff.mp (serializablePairs_viaJson kvs) p (Dict.mem_of_mem_ofList hp)
  | .float (.nan _) | .float (.finite _) | .float (.inf _) => rfl
  | .other _ _ | .none | .bool _ | .int _ | .str _ => rfl

theorem serializableAll_viaJson (l : List Value) :
    Value.serializableAll (Value.viaJsonAll l) = true := by
  match l with
  | [] => rfl
  | v :: vs =>
    rw [Value.viaJsonAll, Value.serializableAll, serializable_viaJson v, serializableAll_viaJson vs]
    rfl

theorem serializablePairs_viaJson (l : List (String × Value)) :
    Value.serializablePairs (Value.viaJsonPairs l) = true := by
  match l with
  | [] => rfl
  | (_, v) :: kvs =>
    rw [Value.viaJsonPairs, Value.serializablePairs, serializable_viaJson v,
      serializablePairs_viaJson kvs]
    rfl

end

/-- A suggested id that JSON can write names the same node after it was read
back. -/
theorem coerceSuggestedId_viaJson {v : Value} (h : v.serializable = true) :
    coerceSuggestedId v.viaJson = coerceSuggestedId v := by
  cases v with
  | other s r => cases h
  | float f => cases f <;> rfl
  | _ => rfl

theorem serializable_of_mem {l : List Value} (h : Value.serializableAll l = true) {v : Value}
    (hv : v ∈ l) : v.serializable = true := by
  induction l with
  | nil => exact absurd hv List.not_mem_nil
  | cons a rest ih =>
    rw [Value.serializableAll, Bool.and_eq_true] at h
    rcases List.mem_cons.mp hv with rfl | hr
    · exact h.1
    · exact ih h.2 hr

theorem Outcome.Recordable.restored {o : Outcome} : o.restored.Recordable := by
  constructor
  · intro n hn
    have hsome : retriesConsumed o + 1 = n := Option.some.inj hn
    have hpos : 0 ≤ retriesConsumed o := Int.le_max_left 0 _
    omega
  · cases hs : o.suggestedNextIds with
    | none =>
      simp only [Outcome.restored, hs]
      rfl
    | some l =>
      simp only [Outcome.restored, hs, Option.map_some]
      have h := serializable_viaJson (.list l)
      rw [Value.viaJson, Value.viaJsonAll_eq_map] at h
      exact h

theorem recordable_skipOutcome [Runtime] (node : Node) (keys : List String) :
    (skipOutcome node keys).Recordable :=
  ⟨fun _ hn => (nomatch hn), rfl⟩

/-- The attempts of a recorded outcome come back, none read as one. -/
theorem attemptCount_restored {o : Outcome} (h : o.CountsAttempts) :
    o.restored.attemptCount = some (o.attemptCount.getD 1) := by
  cases ha : o.attemptCount with
  | none =>
    simp only [Outcome.restored, retriesConsumed, ha]
    rfl
  | some n =>
    have hpos : 1 ≤ n := h n ha
    have hne : n ≠ 0 := by omega
    have hmax : max 0 (n - 1) + 1 = n := by omega
    simp only [Outcome.restored, retriesConsumed, ha, if_neg hne, hmax, Option.getD_some]

variable [Runtime]

/-- The records name nodes of the graph, none of them an exit. -/
def Recorded (g : Graph) (s : EngineState) : Prop :=
  ∀ id o, s.nodeOutcomes.get? id = some o →
    (∃ n, g.node? id = some n ∧ n.isExitNode = false) ∧ o.Recordable

/-- The recorded outcomes are those of the completed nodes. -/
def KeysAgree (s : EngineState) : Prop := ∀ id, id ∈ s.nodeOutcomes.keys ↔ id ∈ s.completedNodes

structure Coherent (g : Graph) (w : Walk) : Prop where
  current : g.node? w.currentNode.id = some w.currentNode
  keys : KeysAgree w.engine
  recorded : Recorded g w.engine
  /-- an outcome handed to the walk is that of the node completed last -/
  resume : ∀ o, w.resumeOutcome = some o →
    w.engine.completedNodes.getLast? = some w.currentNode.id ∧
      w.engine.nodeOutcomes.get? w.currentNode.id = some o

/-- A walk a checkpoint may be taken of at `node`. -/
structure Snapshot (g : Graph) (w : Walk) (node : Node) : Prop where
  member : g.node? node.id = some node
  keys : KeysAgree w.engine
  recorded : Recorded g w.engine
  position : node.isExitNode = true ∨ w.engine.completedNodes.getLast? = some node.id

/-- A document some coherent walk wrote. -/
def CoherentDoc (g : Graph) (doc : Value) : Prop :=
  ∃ w node timestamp, Snapshot g w node ∧ doc = saveCheckpoint (checkpointOf g w node.id timestamp)

omit [Runtime] in
theorem keysAgree_recordCompletion {s : EngineState} (h : KeysAgree s) (nodeId : String)
    (o : Outcome) : KeysAgree (s.recordCompletion nodeId o) := by
  intro id
  rw [EngineState.recordCompletion_nodeOutcomes, Dict.mem_keys_set,
    EngineState.recordCompletion_completedNodes, List.mem_append, List.mem_singleton, h id]
  exact Or.comm

theorem recorded_recordCompletion {g : Graph} {s : EngineState} (h : Recorded g s) {n : Node}
    (hn : g.node? n.id = some n) (hx : n.isExitNode = false) {o : Outcome} (ho : o.Recordable) :
    Recorded g (s.recordCompletion n.id o) := by
  intro id o' hid
  rw [EngineState.recordCompletion_nodeOutcomes, Dict.get?_set] at hid
  by_cases he : n.id = id
  · rw [if_pos he, Option.some.injEq] at hid
    subst he
    subst hid
    exact ⟨⟨n, hn, hx⟩, ho⟩
  · rw [if_neg he] at hid
    exact h id o' hid

/-! ## One iteration -/

omit [Runtime] in
/-- The records of the walk a node was executed in. -/
theorem executed_records (w : Walk) (g : Graph) (context : PipelineContext) (armed : Bool)
    (o : Outcome) :
    (w.executed g context armed o).engine.completedNodes =
        w.engine.completedNodes ++ [w.currentNode.id] ∧
      (w.executed g context armed o).engine.nodeOutcomes =
        w.engine.nodeOutcomes.set w.currentNode.id o := by
  simp only [Walk.executed, completeNode]
  split <;> exact ⟨rfl, rfl⟩

theorem snapshot_executed {g : Graph} {w : Walk} (h : Coherent g w)
    (hx : w.currentNode.isExitNode = false) {o : Outcome} (ho : o.Recordable)
    (context : PipelineContext) (armed : Bool) :
    Snapshot g (w.executed g context armed o) w.currentNode := by
  obtain ⟨hc, hn⟩ := executed_records w g context armed o
  have hkeys := keysAgree_recordCompletion h.keys w.currentNode.id o
  have hrec := recorded_recordCompletion h.recorded h.current hx ho
  refine ⟨h.current, fun id => ?_, fun id o' hid => ?_, .inr ?_⟩
  · rw [hc, hn]
    exact hkeys id
  · rw [hn] at hid
    exact hrec id o' hid
  · rw [hc]
    exact List.getLast?_concat

theorem snapshot_skipped {g : Graph} {w : Walk} (h : Coherent g w)
    (hx : w.currentNode.isExitNode = false) {o : Outcome} (ho : o.Recordable) :
    Snapshot g (w.skipped g o) w.currentNode :=
  ⟨h.current, keysAgree_recordCompletion h.keys w.currentNode.id o,
    recorded_recordCompletion h.recorded h.current hx ho, .inr List.getLast?_concat⟩

theorem snapshot_exit {g : Graph} {w : Walk} (h : Coherent g w)
    (hx : w.currentNode.isExitNode = true) : Snapshot g w.counted w.currentNode :=
  ⟨h.current, h.keys, h.recorded, .inl hx⟩

/-- A move keeps the walk coherent: it leaves the records or resets them. -/
theorem Moved.coherent {g : Graph} {w w' : Walk} {m : Move} (hm : Moved g w m w')
    (hk : KeysAgree w.engine) (hr : Recorded g w.engine) (ho : w.resumeOutcome = none) :
    Coherent g w' := by
  have hres : ∀ o, w'.resumeOutcome = some o →
      w'.engine.completedNodes.getLast? = some w'.currentNode.id ∧
        w'.engine.nodeOutcomes.get? w'.currentNode.id = some o := by
    intro o hw'
    rw [hm.resumeOutcome, ho] at hw'
    cases hw'
  rcases hm.records with ⟨hc, hn, -⟩ | ⟨hc, hn, -⟩
  · refine ⟨hm.node?, fun id => ?_, fun id o hid => ?_, hres⟩
    · rw [hc, hn]
      exact hk id
    · rw [hn] at hid
      exact hr id o hid
  · refine ⟨hm.node?, fun id => ?_, fun id o hid => ?_, hres⟩
    · rw [hc, hn]
      simp
    · rw [hn] at hid
      cases hid

omit [Runtime] in
theorem recordable_of_statusWritable {o : Outcome} (hw : o.statusWritable = true)
    (ha : o.CountsAttempts) : o.Recordable := by
  rw [Outcome.statusWritable, Bool.and_eq_true, Bool.and_eq_true] at hw
  exact ⟨ha, hw.1.1⟩

/-- An exit that still holds an outcome to resume with would have recorded it. -/
theorem resumeOutcome_of_exit {g : Graph} {w : Walk} (h : Coherent g w)
    (hx : w.currentNode.isExitNode = true) : w.resumeOutcome = none := by
  cases hr : w.resumeOutcome with
  | none => rfl
  | some o =>
    obtain ⟨n, hn, hne⟩ := (h.recorded _ o (h.resume o hr).2).1
    have hsame : n = w.currentNode := Option.some.inj (hn.symm.trans h.current)
    rw [hsame, hx] at hne
    cases hne

/-- An iteration keeps a walk coherent, and what it writes is the document of a
snapshot. -/
theorem IterCase.coherent {p : PipelineEngine} {tick : Tick} {w : Walk} {r : IterEnd}
    (h : IterCase p tick w r) (hw : Coherent p.graph w) :
    (∀ s, r.saved = some s → Snapshot p.graph s.walk w.currentNode ∧
      s.checkpoint = checkpointOf p.graph s.walk w.currentNode.id tick.timestamp) ∧
    ∀ m w', r.next = .goto m w' → Coherent p.graph w' := by
  cases h with
  | guarded hg ho => exact ⟨fun _ h => (nomatch h), fun _ _ h => (nomatch h)⟩
  | exit hg hx =>
    refine ⟨fun s h => ?_, fun m w' h => ?_⟩
    · cases h
      exact ⟨snapshot_exit hw hx, rfl⟩
    · have ho : w.resumeOutcome = none := resumeOutcome_of_exit hw hx
      exact (leaveExit_moved h).coherent hw.keys hw.recorded ho
  | hop hg hx ho =>
    refine ⟨fun _ h => (nomatch h), fun m w' h => ?_⟩
    exact (route_moved h).coherent hw.keys hw.recorded rfl
  | @skip keys hg hx ho hk =>
    have hsnap := snapshot_skipped hw hx (recordable_skipOutcome w.currentNode keys)
    refine ⟨fun s h => ?_, fun m w' h => ?_⟩
    · cases h
      exact ⟨hsnap, rfl⟩
    · exact (routeSkipped_moved h).coherent hsnap.keys hsnap.recorded ho
  | @execute context armed o hg hx ho hk hsw ha =>
    have hsnap := snapshot_executed hw hx (recordable_of_statusWritable hsw ha) context armed
    refine ⟨fun s h => ?_, fun m w' h => ?_⟩
    · cases h
      exact ⟨hsnap, rfl⟩
    · exact (route_moved h).coherent hsnap.keys hsnap.recorded ho
  | abort hg hx ho hk hu hs => exact ⟨fun _ h => (nomatch h), fun _ _ h => (nomatch h)⟩

/-! ## Resumes -/

/-- Resuming from a document of a run restores the walk it was taken of. -/
theorem resumes_of_snapshot {p : PipelineEngine} {w w' : Walk} {node : Node} {timestamp : String}
    {e : Event} (hs : Snapshot p.graph w node)
    (h : Resumes p (saveCheckpoint (checkpointOf p.graph w node.id timestamp)) e w') :
    e = .resumed w' ∧ ∃ r, w' = w.restored p.graph r node := by
  obtain ⟨r, path, hres, he⟩ := h
  rw [resume_saveCheckpoint hs.member, Except.ok.injEq] at hres
  exact ⟨he, r, hres.symm⟩

omit [Runtime] in
theorem get?_restored (g : Graph) (w : Walk) (r : Resumption) (node : Node) (id : String) :
    (w.restored g r node).engine.nodeOutcomes.get? id =
      (w.engine.nodeOutcomes.get? id).map Outcome.restored :=
  Dict.get?_mapVals _ _ _

theorem Snapshot.coherent_restored {g : Graph} {w : Walk} {node : Node} (h : Snapshot g w node)
    (r : Resumption) : Coherent g (w.restored g r node) := by
  have hrec : Recorded g (w.restored g r node).engine := by
    intro id o hid
    rw [get?_restored, Option.map_eq_some_iff] at hid
    obtain ⟨o', ho', rfl⟩ := hid
    exact ⟨(h.recorded id o' ho').1, Outcome.Recordable.restored⟩
  have hkeys : KeysAgree (w.restored g r node).engine := by
    intro id
    have hsame : (w.restored g r node).engine.nodeOutcomes.keys = w.engine.nodeOutcomes.keys :=
      Dict.keys_mapVals _ _
    rw [hsame]
    exact h.keys id
  refine ⟨h.member, hkeys, hrec, fun o ho => ⟨?_, ho⟩⟩
  rcases h.position with hx | hlast
  · -- an exit has no record, so there is nothing to resume with
    obtain ⟨n, hn, hne⟩ := (hrec node.id o ho).1
    have hsame : n = node := Option.some.inj (hn.symm.trans h.member)
    rw [hsame, hx] at hne
    cases hne
  · exact hlast

theorem coherent_start {g : Graph} {goal : Option String} {c : PipelineContext} {w : Walk}
    (h : start g goal c = .ok w) : Coherent g w := by
  obtain ⟨n, hn, rfl⟩ := start_ok h
  obtain ⟨p, hp, rfl⟩ := List.mem_map.mp (mem_values_of_findStartNode hn)
  have hid : p.2.id = p.1 := g.keyed p hp
  have hget : g.node? p.2.id = some p.2 := (Dict.get?_eq_some_iff g.nodes).mpr (hid ▸ hp)
  refine ⟨hget, fun id => ?_, fun id o ho => ?_, fun o ho => ?_⟩
  · exact Iff.rfl
  · cases ho
  · cases ho

variable [JsonReader]

/-- Coherence is an invariant of every run, kills and resumes included. -/
theorem coherent_invariant (p : PipelineEngine) :
    Recovery.Invariant (engineSystem p) (Coherent p.graph) (CoherentDoc p.graph) where
  fresh := by
    rintro w ⟨goal, c, h⟩
    exact coherent_start h
  next := by
    rintro w e d w' hw ⟨tick, rfl, hd, hs⟩
    obtain ⟨m, hm⟩ := Next.walk?_eq_some hs.symm
    exact ((iterate_case p tick w).coherent hw).2 m w' hm
  write := by
    rintro w e d s hw ⟨tick, rfl, hd, hs⟩
    obtain ⟨saved, hsaved, rfl⟩ := Option.map_eq_some_iff.mp hd.symm
    obtain ⟨hsnap, hcp⟩ := ((iterate_case p tick w).coherent hw).1 saved hsaved
    exact ⟨saved.walk, w.currentNode, tick.timestamp, hsnap, congrArg saveCheckpoint hcp⟩
  restart := by
    rintro d e w ⟨w₁, node, timestamp, hsnap, rfl⟩ hr
    obtain ⟨-, r, rfl⟩ := resumes_of_snapshot hsnap hr
    exact hsnap.coherent_restored r

theorem Runs.coherent {p : PipelineEngine} {h : List Event} {docs : List Value} {w : Walk}
    (run : Runs p h docs (some w)) : Coherent p.graph w :=
  ((coherent_invariant p).run run).2 w rfl

theorem Runs.coherentDoc {p : PipelineEngine} {h : List Event} {docs : List Value}
    {o : Option Walk} (run : Runs p h docs o) : ∀ d ∈ docs, CoherentDoc p.graph d :=
  ((coherent_invariant p).run run).1

end DotRunner
