import DotRunner.Engine.Coherence
import DotRunner.Py.Ascii

/-!
# Where a checkpoint stands

Every checkpoint names the node completed last, with its outcome, or an exit
that has none; so a resume goes straight on to routing.
-/

namespace DotRunner

open Py

/-- What of an outcome survives the file: everything routing and the goal gates
read, with no attempt count read as one attempt. -/
structure Outcome.RoundTrips (o o' : Outcome) : Prop where
  status : o'.status = o.status
  preferredLabel : o'.preferredLabel = o.preferredLabel
  isExplicit : o'.isExplicit = o.isExplicit
  ids : o'.suggestedNextIds = o.suggestedNextIds.map fun l => l.map Value.viaJson
  named : o'.suggestions.map coerceSuggestedId = o.suggestions.map coerceSuggestedId
  attempts : o'.attemptCount = some (o.attemptCount.getD 1)

/-- What of a walk survives the file. -/
structure Walk.RoundTrips (w w' : Walk) : Prop where
  completed : w'.engine.completedNodes = w.engine.completedNodes
  keys : w'.engine.nodeOutcomes.keys = w.engine.nodeOutcomes.keys
  outcomes : ∀ id o, w.engine.nodeOutcomes.get? id = some o →
    ∃ o', w'.engine.nodeOutcomes.get? id = some o' ∧ o.RoundTrips o'
  iterationCount : w'.engine.iterationCount = w.engine.iterationCount
  executions : w'.engine.nodeExecutionCounts = w.engine.nodeExecutionCounts
  goalGateRetries : w'.goalGateRetries = w.goalGateRetries
  failureRoutingRetries : w'.failureRoutingRetries = w.failureRoutingRetries
  steps : w'.steps = w.steps

theorem suggestions_restored {o : Outcome} (h : o.Recordable) :
    o.restored.suggestions.map coerceSuggestedId = o.suggestions.map coerceSuggestedId := by
  cases hs : o.suggestedNextIds with
  | none => simp [Outcome.suggestions, Outcome.restored, hs]
  | some l =>
    have hser : Value.serializableAll l = true := by
      have hids := h.ids
      rw [hs] at hids
      exact hids
    simp only [Outcome.suggestions, Outcome.restored, hs, Option.map_some, Option.getD_some,
      List.map_map]
    refine List.map_congr_left fun v hv => ?_
    exact coerceSuggestedId_viaJson (serializable_of_mem hser hv)

theorem Outcome.Recordable.roundTrips {o : Outcome} (h : o.Recordable) : o.RoundTrips o.restored :=
  ⟨rfl, rfl, rfl, rfl, suggestions_restored h, attemptCount_restored h.attempts⟩

section Results

variable [Runtime]

theorem Snapshot.roundTrips {g : Graph} {w : Walk} {node : Node} (h : Snapshot g w node)
    (r : Resumption) : w.RoundTrips (w.restored g r node) := by
  refine ⟨rfl, Dict.keys_mapVals _ _, fun id o ho => ?_, rfl, rfl, rfl, rfl, rfl⟩
  refine ⟨o.restored, ?_, (h.recorded id o ho).2.roundTrips⟩
  rw [get?_restored, ho]
  rfl

/-- The position of a checkpoint written in an iteration that recorded `c`. -/
def PositionAgrees (g : Graph) (c : Option Completion) (cp : Checkpoint) : Prop :=
  (∃ done kvs, c = some done ∧ cp.currentNode = .str done.nodeId ∧
    cp.completedNodes.getLast? = some (.str done.nodeId) ∧
    cp.nodeOutcomes = .dict kvs ∧ (done.nodeId, .dict (outcomeRecord done.outcome)) ∈ kvs) ∨
  ∃ n kvs, g.node? n.id = some n ∧ n.isExitNode = true ∧ cp.currentNode = .str n.id ∧
    cp.nodeOutcomes = .dict kvs ∧ n.id ∉ kvs.map Prod.fst

/-- A completion just recorded is the position of the checkpoint. -/
theorem positionAgrees_of_recorded (g : Graph) {w : Walk} {s : EngineState} {nodeId : String}
    {o : Outcome} (keys : Option (List String)) (timestamp : String)
    (hc : w.engine.completedNodes = s.completedNodes ++ [nodeId])
    (hn : w.engine.nodeOutcomes = s.nodeOutcomes.set nodeId o) :
    PositionAgrees g (some ⟨nodeId, o, keys⟩) (checkpointOf g w nodeId timestamp) := by
  refine .inl ⟨⟨nodeId, o, keys⟩, serializeNodeOutcomes w.engine, rfl, rfl, ?_, rfl, ?_⟩
  · show (w.engine.completedNodes.map Value.str).getLast? = some (.str nodeId)
    rw [hc, List.map_append]
    exact List.getLast?_concat
  · have hget : w.engine.nodeOutcomes.get? nodeId = some o := by
      rw [hn]
      exact Dict.get?_set_self _ _ _
    exact List.mem_map.mpr ⟨(nodeId, o), (Dict.get?_eq_some_iff _).mp hget, rfl⟩

omit [Runtime] in
theorem mem_keys_of_mem_serialized {s : EngineState} {id : String}
    (h : id ∈ (serializeNodeOutcomes s).map Prod.fst) : id ∈ s.nodeOutcomes.keys := by
  rw [serializeNodeOutcomes, List.map_map] at h
  exact h

theorem IterCase.positionAgrees {p : PipelineEngine} {tick : Tick} {w : Walk} {r : IterEnd}
    (h : IterCase p tick w r) (hw : Coherent p.graph w) :
    ∀ s, r.saved = some s → PositionAgrees p.graph r.completion s.checkpoint := by
  intro s hs
  cases h with
  | guarded hg ho => cases hs
  | exit hg hx =>
    cases hs
    refine .inr ⟨w.currentNode, serializeNodeOutcomes w.engine, hw.current, hx, rfl, rfl, ?_⟩
    intro hmem
    obtain ⟨o, ho⟩ := Dict.exists_get?_of_mem_keys _ (mem_keys_of_mem_serialized hmem)
    obtain ⟨n, hn, hne⟩ := (hw.recorded _ o ho).1
    have hsame : n = w.currentNode := Option.some.inj (hn.symm.trans hw.current)
    rw [hsame, hx] at hne
    cases hne
  | hop hg hx ho => cases hs
  | @skip keys hg hx ho hk =>
    cases hs
    exact positionAgrees_of_recorded p.graph (some keys) tick.timestamp rfl rfl
  | @execute context armed o hg hx ho hk hsw ha =>
    cases hs
    obtain ⟨hc, hn⟩ := executed_records w p.graph context armed o
    exact positionAgrees_of_recorded p.graph none tick.timestamp hc hn
  | abort hg hx ho hk hu hsn => cases hs

omit [Runtime] in
/-- The state a run ends in keeps the pairing, unless a child graph could not be
resolved: then the outcome of the faulting node is recorded alone. -/
def EndsPaired (w : Walk) (h : Halt) (s : EngineState) : Prop :=
  KeysAgree s ∨ ∃ text, h = .returned (childDotOutcome text) ∧
    s.completedNodes = w.engine.completedNodes ∧
    s.nodeOutcomes = w.engine.nodeOutcomes.set w.currentNode.id (childDotOutcome text)

omit [Runtime] in
theorem keysAgree_congr {s s' : EngineState} (h : KeysAgree s)
    (hc : s'.completedNodes = s.completedNodes) (ho : s'.nodeOutcomes = s.nodeOutcomes) :
    KeysAgree s' := by
  intro id
  rw [hc, ho]
  exact h id

omit [Runtime] in
theorem Aborted.endsPaired {w : Walk} {h : Halt} {s : EngineState} (ha : Aborted w h s)
    (hk : KeysAgree w.engine) : EndsPaired w h s := by
  cases ha with
  | kept hc ho => exact .inl (keysAgree_congr hk hc ho)
  | childDot hc ho => exact .inr ⟨_, rfl, hc, ho⟩
  | @unwritable _ _ o hc ho =>
    exact .inl (keysAgree_congr (keysAgree_recordCompletion hk w.currentNode.id o) hc ho)

/-- Wherever an iteration ends the run, the pairing stands but for that one
case. -/
theorem IterCase.endsPaired {p : PipelineEngine} {tick : Tick} {w : Walk} {r : IterEnd}
    (h : IterCase p tick w r) (hw : Coherent p.graph w) :
    ∀ hlt s, r.next = .halt hlt s → EndsPaired w hlt s := by
  have hended : ∀ (w₁ : Walk) s, s = w₁.engine ∨ s = w₁.restartLoop.engine →
      KeysAgree w₁.engine → KeysAgree s := by
    rintro w₁ s (rfl | rfl) hk
    · exact hk
    · exact fun id => Iff.rfl
  intro hlt s hs
  cases h with
  | guarded hg ho =>
    cases hs
    exact .inl hw.keys
  | exit hg hx =>
    obtain ⟨-, rfl⟩ := leaveExit_halt hs
    exact .inl hw.keys
  | hop hg hx ho => exact .inl (hended _ s (route_halt hs).1 hw.keys)
  | @skip keys hg hx ho hk =>
    have hsnap := snapshot_skipped hw hx (recordable_skipOutcome w.currentNode keys)
    obtain ⟨rfl, -⟩ := routeSkipped_halt hs
    exact .inl hsnap.keys
  | @execute context armed o hg hx ho hk hsw ha =>
    have hsnap := snapshot_executed hw hx (recordable_of_statusWritable hsw ha) context armed
    exact .inl (hended _ s (route_halt hs).1 hsnap.keys)
  | abort hg hx ho hk hu hsn =>
    cases hs
    exact hsn.endsPaired hw.keys

variable [JsonReader]

/-- The first iteration of a resume neither calls a handler nor records
anything: whatever the handler would do, the iteration is the same. -/
theorem iterate_of_resumed {p : PipelineEngine} {tick : Tick} {w : Walk}
    (h : w.currentNode.isExitNode = true ∨ w.resumeOutcome.isSome) (run : NodeRun) :
    iterate p { tick with run := run } w = iterate p tick w ∧
      (iterate p tick w).completion = none := by
  have hguard : guardLoop p { tick with run := run } w.counted = guardLoop p tick w.counted := rfl
  cases hg : guardLoop p tick w.counted with
  | some o =>
    rw [iterate_guarded (hguard.trans hg), iterate_guarded hg]
    exact ⟨rfl, rfl⟩
  | none =>
    rw [iterate_unguarded (hguard.trans hg), iterate_unguarded hg]
    by_cases hx : w.counted.currentNode.isExitNode = true
    · simp only [visit_eq, hx, if_true]
      exact ⟨rfl, rfl⟩
    · obtain ⟨o, ho⟩ : ∃ o, w.counted.resumeOutcome = some o :=
        Option.isSome_iff_exists.mp (h.resolve_left hx)
      simp only [visit_eq, hx, ho]
      exact ⟨rfl, rfl⟩

omit [JsonReader] in
theorem Snapshot.resumed {g : Graph} {w : Walk} {node : Node} (h : Snapshot g w node)
    (r : Resumption) : (w.restored g r node).currentNode.isExitNode = true ∨
      (w.restored g r node).resumeOutcome.isSome := by
  rcases h.position with hx | hlast
  · exact .inl hx
  · have hmem : node.id ∈ w.engine.nodeOutcomes.keys :=
      (h.keys node.id).mpr (List.mem_of_getLast? hlast)
    obtain ⟨o, ho⟩ := Dict.exists_get?_of_mem_keys _ hmem
    have hres : (w.restored g r node).resumeOutcome = some o.restored := by
      show (w.restored g r node).engine.nodeOutcomes.get? node.id = some o.restored
      rw [get?_restored, ho]
      rfl
    exact .inr (by rw [hres]; rfl)

/-- The walks of `run`, and of `resume` from a coherent checkpoint. -/
inductive Reached (p : PipelineEngine) : Walk → Prop
  | fresh {goal : Option String} {c : PipelineContext} {w : Walk}
      (h : start p.graph goal c = .ok w) : Reached p w
  | resumed {doc : Value} {r : Resumption} {path : String} {w : Walk}
      (hd : CoherentDoc p.graph doc) (h : resume p.graph r path doc = .ok w) : Reached p w
  | step {tick : Tick} {w w' : Walk} {m : Move} (hw : Reached p w)
      (h : (iterate p tick w).next = .goto m w') : Reached p w'

theorem Reached.after {p : PipelineEngine} {ticks : List Tick} {w w' : Walk} (hw : Reached p w)
    (ha : walkAfter p ticks w = some w') : Reached p w' := by
  induction ticks generalizing w with
  | nil =>
    cases ha
    exact hw
  | cons tick ticks ih =>
    unfold walkAfter at ha
    split at ha
    · rename_i m w₁ hnext
      exact ih (.step hw hnext) ha
    · cases ha

theorem Reached.coherent {p : PipelineEngine} {w : Walk} (h : Reached p w) :
    Coherent p.graph w := by
  induction h with
  | fresh h => exact coherent_start h
  | resumed hd h => exact (coherent_invariant p).restart hd ⟨_, _, h, rfl⟩
  | @step tick w w' m hw h ih => exact ((iterate_case p tick w).coherent ih).2 m w' h

/-- Checkpoint coherence.  In every walk reached, and in every state a run ends
in but the one a child-graph resolution fault leaves, the recorded outcomes are
those of the completed nodes.  Every checkpoint written is coherent: it names the
node just completed, with its outcome, or an exit without one.  A resume from it
restores what routing and the gates read, and begins without the handler of its
node. -/
theorem checkpoint_coherence {p : PipelineEngine} {w : Walk} (hw : Reached p w) (tick : Tick) :
    KeysAgree w.engine ∧
    (∀ hlt s, (iterate p tick w).next = .halt hlt s → EndsPaired w hlt s) ∧
    ∀ saved, (iterate p tick w).saved = some saved →
      CoherentDoc p.graph saved.doc ∧
      PositionAgrees p.graph (iterate p tick w).completion saved.checkpoint ∧
      ∀ r path, ∃ w', resume p.graph r path saved.doc = .ok w' ∧ saved.walk.RoundTrips w' ∧
        ∀ tick' run', iterate p { tick' with run := run' } w' = iterate p tick' w' ∧
          (iterate p tick' w').completion = none := by
  have hco : Coherent p.graph w := hw.coherent
  have hcase := iterate_case p tick w
  refine ⟨hco.keys, hcase.endsPaired hco, fun saved hsaved => ?_⟩
  obtain ⟨hsnap, hcp⟩ := (hcase.coherent hco).1 saved hsaved
  refine ⟨⟨saved.walk, w.currentNode, tick.timestamp, hsnap, congrArg saveCheckpoint hcp⟩,
    hcase.positionAgrees hco saved hsaved, fun r path => ?_⟩
  refine ⟨saved.walk.restored p.graph r w.currentNode, ?_, hsnap.roundTrips r, fun tick' run' =>
    iterate_of_resumed (hsnap.resumed r) run'⟩
  rw [Written.doc, hcp]
  exact resume_saveCheckpoint hsnap.member r path tick.timestamp saved.walk

end Results

section Demo

open Py.Ascii

/-- A start node and a folder node behind it. -/
def folderPipeline : PipelineEngine where
  graph := Graph.ofNodes [{ id := "start", shape := "Mdiamond" }, { id := "child", shape := "folder" }]
    [{ fromNode := "start", toNode := "child" }]
  logsRoot := "/logs"
  handlerRegistry := ⟨standardHandlers⟩

def folderStart : Walk where
  engine := { context := initializeContext folderPipeline.graph none 0 {} }
  currentNode := { id := "start", shape := "Mdiamond" }

theorem folderStart_reached : Reached folderPipeline folderStart :=
  @Reached.fresh _ _ folderPipeline none {} folderStart rfl

def succeeds : Tick := Tick.ending (.returned { status := .success })

theorem folderStart_runs : Runs folderPipeline [] [] (some folderStart) :=
  Recovery.Run.fresh ⟨none, {}, rfl⟩

theorem checkpoint_coherence_folder : KeysAgree folderStart.engine ∧
    ∃ saved, (iterate folderPipeline succeeds folderStart).saved = some saved ∧
      ∃ w', resume folderPipeline.graph {} "" saved.doc = .ok w' ∧ saved.walk.RoundTrips w' := by
  obtain ⟨hkeys, -, hsaved⟩ := checkpoint_coherence folderStart_reached succeeds
  obtain ⟨saved, hs⟩ : ∃ saved, (iterate folderPipeline succeeds folderStart).saved = some saved :=
    Option.isSome_iff_exists.mp (by decide +kernel)
  obtain ⟨w', hw', hround, -⟩ := (hsaved saved hs).2.2 {} ""
  exact ⟨hkeys, saved, hs, w', hw', hround⟩

/-- The keys of the recorded outcomes and the completed nodes of the state a run
ends in. -/
def endRecords (next : Next) : List String × List String :=
  match next with
  | .goto _ _ => ([], [])
  | .halt _ s => (s.nodeOutcomes.keys, s.completedNodes)

/-- A child graph that cannot be resolved: its node has an outcome and is not
completed. -/
theorem childDot_unpaired : ∃ w tick, Reached folderPipeline w ∧
    ∃ hlt s, (iterate folderPipeline tick w).next = .halt hlt s ∧ ¬ KeysAgree s := by
  obtain ⟨w, hw⟩ : ∃ w, walkAfter folderPipeline [succeeds] folderStart = some w :=
    Option.isSome_iff_exists.mp (by decide +kernel)
  have hreached : Reached folderPipeline w := folderStart_reached.after hw
  have hend : (walkAfter folderPipeline [succeeds] folderStart).map (fun w =>
      endRecords (iterate folderPipeline (Tick.ending (.childDot "no such file")) w).next) =
        some (["start", "child"], ["start"]) := by decide +kernel
  rw [hw, Option.map_some, Option.some.injEq] at hend
  refine ⟨w, Tick.ending (.childDot "no such file"), hreached, ?_⟩
  cases hn : (iterate folderPipeline (Tick.ending (.childDot "no such file")) w).next with
  | goto m w' =>
    rw [hn] at hend
    cases hend
  | halt hlt s =>
    rw [hn, endRecords, Prod.mk.injEq] at hend
    refine ⟨hlt, s, rfl, fun hk => ?_⟩
    have hmem : "child" ∈ s.completedNodes := (hk "child").mp (by rw [hend.1]; decide)
    rw [hend.2] at hmem
    exact absurd hmem (by decide +kernel)

end Demo

end DotRunner
