import DotRunner.Engine.Positions

/-!
# Why the walk moves

Each move of a walk against the reasons the graph gives for it, and the one
place where a handler's own suggestion is taken for a goal gate's.
-/

namespace DotRunner

open Py

section Reasons

variable [Runtime]

/-- The outcome a node that is left in this iteration is routed by. -/
def routingOutcome (w : Walk) (r : IterEnd) : Option Outcome :=
  match r.completion with
  | some ⟨_, o, some _⟩ => some (Walk.skipRouting o)
  | some ⟨_, o, none⟩ => some o
  | none => w.resumeOutcome

/-- The context edges are selected in: the one in the checkpoint just written, or
the restored one. -/
def routingContext (w : Walk) (r : IterEnd) : PipelineContext :=
  match r.saved with
  | some s => s.walk.engine.context
  | none => w.engine.context

/-- Was the node skipped? -/
def wasSkipped (r : IterEnd) : Prop := ∃ id o keys, r.completion = some ⟨id, o, some keys⟩

/-- The reasons for leaving a node that is no exit. -/
inductive EdgeReason (g : Graph) (ord : SetOrder) (w : Walk) (r : IterEnd) (o : Outcome) :
    Node → Prop
  | selected {e : Edge} {n : Node}
      (he : selectEdge w.currentNode.id o (routingContext w r) g = some e)
      (hn : g.node? e.toNode = some n) : EdgeReason g ord w r o n
  | unconditional {e : Edge} {n : Node} (hs : wasSkipped r)
      (he : bestUnconditional (g.outgoingEdges w.currentNode.id) = some e)
      (hn : g.node? e.toNode = some n) : EdgeReason g ord w r o n
  | fanIn {roots : List String} {n : Node} (hr : Walk.branchRoots g w.currentNode = some roots)
      (hf : g.findFanInNode ord roots = some n.id) (hn : g.node? n.id = some n) :
      EdgeReason g ord w r o n
  | retry {n : Node} (hs : selectEdge w.currentNode.id o (routingContext w r) g = none)
      (hn : resolveFailureRetryTarget g w.currentNode = some n) : EdgeReason g ord w r o n

/-- At an exit the only reason to go on is a goal gate that is not satisfied. -/
def GateReason (g : Graph) (w : Walk) (n : Node) : Prop :=
  ∃ gateId o gate, (gateId, o) ∈ unsatisfiedGates g w.engine.nodeOutcomes ∧
    g.node? gateId = some gate ∧ g.nodeOfValue? (gateRetryTarget g gate) = some n

/-- The move to `n` in this iteration has a reason. -/
def Justified (g : Graph) (ord : SetOrder) (w : Walk) (r : IterEnd) (n : Node) : Prop :=
  if w.currentNode.isExitNode then GateReason g w n
  else ∃ o, routingOutcome w r = some o ∧ EdgeReason g ord w r o n

/-- An exit reached with every gate satisfied, by a node that failed and
suggested a node of the graph, with a gate retry left. -/
def StrayExit (g : Graph) (w : Walk) : Prop :=
  w.currentNode.isExitNode = true ∧ unsatisfiedGates g w.engine.nodeOutcomes = [] ∧
    w.goalGateRetries < maxGoalGateRetries ∧
    ∃ o raw rest n, w.engine.lastOutcome = some o ∧ o.status = .fail ∧
      o.suggestions = raw :: rest ∧ (coerceSuggestedId raw).bind g.node? = some n

/-! ## Exits -/

theorem checkGoalGates_satisfied {g : Graph} {s : EngineState}
    (h : unsatisfiedGates g s.nodeOutcomes = []) :
    checkGoalGates g s = s.lastOutcome.getD { status := .success, notes := some "Pipeline completed" } := by
  rw [checkGoalGates, h]

/-- A jump from an exit is to the target of a gate, or the exit is a stray one. -/
theorem leaveExit_cases {g : Graph} {w w' : Walk} {m : Move} (h : w.leaveExit g = .goto m w')
    (hx : w.currentNode.isExitNode = true) :
    (∃ gateId o gate, (gateId, o) ∈ unsatisfiedGates g w.engine.nodeOutcomes ∧
      g.node? gateId = some gate ∧ (gateRetryTarget g gate).truthy = true ∧
      g.nodeOfValue? (gateRetryTarget g gate) = some w'.currentNode) ∨ StrayExit g w := by
  unfold Walk.leaveExit at h
  dsimp only at h
  split at h
  · rename_i hcond
    obtain ⟨hfail, hbudget⟩ := hcond
    split at h
    · cases h
    · rename_i raw rest hsugg
      split at h
      · rename_i target htarget
        cases h
        cases hu : unsatisfiedGates g w.engine.nodeOutcomes with
        | nil =>
          -- the result is the last node's own outcome
          rw [checkGoalGates_satisfied hu] at hfail hsugg
          cases hl : w.engine.lastOutcome with
          | none =>
            rw [hl] at hfail
            cases hfail
          | some o =>
            rw [hl] at hfail hsugg
            exact .inr ⟨hx, hu, hbudget, o, raw, rest, target, hl, hfail, hsugg, htarget⟩
        | cons entry others =>
          obtain ⟨gateId, o⟩ := entry
          left
          simp only [checkGoalGates, hu] at hsugg
          have hmem : (gateId, o) ∈ unsatisfiedGates g w.engine.nodeOutcomes := by
            rw [hu]
            exact List.mem_cons_self
          have hgate : isGoalGate g gateId = true := by
            have hfilter := (List.mem_filter.mp hmem).2
            rw [Bool.and_eq_true] at hfilter
            exact hfilter.1
          obtain ⟨gate, hg⟩ : ∃ gate, g.node? gateId = some gate := by
            unfold isGoalGate at hgate
            split at hgate
            · rename_i n hn
              exact ⟨n, hn⟩
            · cases hgate
          rw [hg] at hsugg
          refine ⟨gateId, o, gate, List.mem_cons_self, hg, ?_⟩
          by_cases ht : ((g.nodeOfValue? (gateRetryTarget g gate)).isSome &&
              (gateRetryTarget g gate).truthy) = true
          · simp only [Outcome.suggestions, ht, if_true, Option.getD_some, List.cons.injEq] at hsugg
            obtain ⟨hraw, -⟩ := hsugg
            rw [Bool.and_eq_true] at ht
            refine ⟨ht.2, ?_⟩
            obtain ⟨n, hn⟩ := Option.isSome_iff_exists.mp ht.1
            rw [← hraw] at htarget
            cases hv : gateRetryTarget g gate with
            | str s =>
              rw [hv] at htarget
              exact htarget
            | _ =>
              rw [hv] at hn
              cases hn
          · simp [Outcome.suggestions, ht] at hsugg
      · cases h
  · cases h

/-- A jump from an exit is for a gate, or the exit is a stray one. -/
theorem leaveExit_reason {g : Graph} {w w' : Walk} {m : Move} (h : w.leaveExit g = .goto m w')
    (hx : w.currentNode.isExitNode = true) : GateReason g w w'.currentNode ∨ StrayExit g w := by
  rcases leaveExit_cases h hx with ⟨gateId, o, gate, hmem, hgate, -, htarget⟩ | hstray
  · exact .inl ⟨gateId, o, gate, hmem, hgate, htarget⟩
  · exact .inr hstray

theorem leaveExit_stray {g : Graph} {w : Walk} (h : StrayExit g w) :
    ∃ m w', w.leaveExit g = .goto m w' := by
  obtain ⟨-, hu, hbudget, o, raw, rest, n, hl, hfail, hsugg, hn⟩ := h
  have hres : checkGoalGates g w.engine = o := by
    rw [checkGoalGates_satisfied hu, hl]
    rfl
  unfold Walk.leaveExit
  dsimp only
  rw [hres, if_pos ⟨hfail, hbudget⟩, hsugg]
  dsimp only
  rw [hn]
  exact ⟨_, _, rfl⟩

/-! ## Nodes -/

theorem route_reason {g : Graph} {ord : SetOrder} {w₁ w w' : Walk} {r : IterEnd} {o : Outcome}
    {m : Move} (h : w₁.route g ord o = .goto m w') (hcur : w₁.currentNode = w.currentNode)
    (hctx : w₁.engine.context = routingContext w r) : EdgeReason g ord w r o w'.currentNode := by
  unfold Walk.route at h
  split at h
  · rename_i roots hroots
    split at h
    · cases h
    · rename_i fanIn hfan
      split at h
      · obtain ⟨n, hn, rfl, rfl⟩ := jump_goto h
        rw [hcur] at hroots
        have hid : n.id = fanIn := g.id_of_node? hn
        exact .fanIn hroots (hid ▸ hfan) (node?_id hn)
      · cases h
  · unfold Walk.selectAndGo at h
    split at h
    · rename_i e he
      rw [hcur, hctx] at he
      unfold Walk.follow at h
      obtain ⟨n, hn, -, rfl⟩ := jump_goto h
      exact .selected he hn
    · rename_i hnone
      rw [hcur, hctx] at hnone
      obtain ⟨n, hn, rfl, hm⟩ := failureRoute_moved h
      rw [hcur] at hn
      cases hm
      exact .retry hnone hn

theorem routeSkipped_reason {g : Graph} {ord : SetOrder} {w₁ w w' : Walk} {r : IterEnd}
    {o : Outcome} {m : Move} (h : w₁.routeSkipped g o = .goto m w')
    (hcur : w₁.currentNode = w.currentNode) (hctx : w₁.engine.context = routingContext w r)
    (hs : wasSkipped r) :
    EdgeReason g ord w r (Walk.skipRouting o) w'.currentNode := by
  unfold Walk.routeSkipped at h
  dsimp only at h
  split at h
  · rename_i e he
    obtain ⟨n, hn, rfl, rfl⟩ := jump_goto h
    unfold Walk.skipEdge at he
    rw [hcur, hctx] at he
    rcases Option.or_eq_some_iff.mp he with hsel | ⟨-, hbest⟩
    · exact .selected hsel hn
    · exact .unconditional hs hbest hn
  · rename_i hnone
    unfold Walk.skipEdge at hnone
    rw [hcur, hctx] at hnone
    split at h
    · rename_i n hn
      split at h
      · cases h
        rw [hcur] at hn
        exact .retry (Option.or_eq_none_iff.mp hnone).1 hn
      · cases h
    · cases h

/-- A move has a reason, or leaves a stray exit. -/
theorem IterCase.justified {p : PipelineEngine} {tick : Tick} {w w' : Walk} {r : IterEnd} {m : Move}
    (h : IterCase p tick w r) (hn : r.next = .goto m w') :
    Justified p.graph tick.ord w r w'.currentNode ∨ StrayExit p.graph w := by
  cases h with
  | guarded hg ho => cases hn
  | exit hg hx =>
    rcases leaveExit_reason hn hx with hgate | hstray
    · left
      rw [Justified, if_pos hx]
      exact hgate
    · exact .inr hstray
  | @hop o hg hx ho =>
    left
    rw [Justified, if_neg (by simp [hx])]
    exact ⟨o, ho, route_reason hn rfl rfl⟩
  | @skip keys hg hx ho hk =>
    left
    rw [Justified, if_neg (by simp [hx])]
    exact ⟨_, rfl, routeSkipped_reason hn rfl rfl ⟨_, _, keys, rfl⟩⟩
  | @execute context armed o hg hx ho hk hsw ha =>
    left
    rw [Justified, if_neg (by simp [hx])]
    exact ⟨o, rfl, route_reason hn rfl rfl⟩
  | abort hg hx ho hk hu hs => cases hn

end Reasons

section Runs

variable [Runtime] [JsonReader]

/-- Every move of a run is justified exactly when no iteration that passes the
guards of the loop stands at a stray exit. -/
theorem transitions_justified_iff {p : PipelineEngine} {h : List Event} {docs : List Value}
    {o : Option Walk} (_ : Runs p h docs o) :
    (∀ w tick, .iterated w tick ∈ h → ∀ m w', (iterate p tick w).next = .goto m w' →
      Justified p.graph tick.ord w (iterate p tick w) w'.currentNode) ↔
    ∀ w tick, .iterated w tick ∈ h → guardLoop p tick w.counted = none →
      ¬ StrayExit p.graph w := by
  constructor
  · intro hall w tick he hg hstray
    have hx : w.currentNode.isExitNode = true := hstray.1
    have hvisit : iterate p tick w = visitExit p tick w.counted := by
      rw [iterate_unguarded hg]
      exact if_pos hx
    obtain ⟨m, w', hgo⟩ := @leaveExit_stray _ p.graph (w.counted.withCheckpoint
      (checkpointOf p.graph w.counted w.currentNode.id tick.timestamp)) hstray
    have hnext : (iterate p tick w).next = .goto m w' := by
      rw [hvisit]
      exact hgo
    have hjust := hall w tick he m w' hnext
    rw [Justified, if_pos hx] at hjust
    obtain ⟨gateId, o, gate, hmem, -, -⟩ := hjust
    rw [hstray.2.1] at hmem
    exact absurd hmem List.not_mem_nil
  · intro hnone w tick he m w' hgo
    have hcase := iterate_case p tick w
    rcases hcase.justified hgo with hjust | hstray
    · exact hjust
    · refine absurd hstray (hnone w tick he ?_)
      cases hg : guardLoop p tick w.counted with
      | none => rfl
      | some o =>
        have hhalt : (iterate p tick w).next = .halt (.returned o) w.engine := by
          rw [iterate_guarded hg]
        rw [hhalt] at hgo
        cases hgo

end Runs

section Demo

open Py.Ascii

/-- A start, some work, an exit, and no goal gate. -/
def workPipeline : PipelineEngine where
  graph := Graph.ofNodes
    [{ id := "begin", shape := "Mdiamond" }, { id := "work" }, { id := "done", shape := "Msquare" }]
    [{ fromNode := "begin", toNode := "work" }, { fromNode := "work", toNode := "done" }]
  logsRoot := "/logs"
  handlerRegistry := ⟨standardHandlers⟩

def workStart : Walk where
  engine := { context := initializeContext workPipeline.graph none 0 {} }
  currentNode := { id := "begin", shape := "Mdiamond" }

theorem workStart_runs : Runs workPipeline [] [] (some workStart) :=
  Recovery.Run.fresh ⟨none, {}, rfl⟩

/-- A failure that suggests to begin again. -/
def failsSuggesting : Tick :=
  Tick.ending (.returned { status := .fail, suggestedNextIds := some [.str "begin"] })

def targetId : Next → Option String
  | .goto _ w => some w.currentNode.id
  | .halt _ _ => none

theorem transitions_justified_work : ∃ docs w,
    Runs workPipeline [.iterated workStart succeeds] docs (some w) ∧
      ∀ w' tick, Event.iterated w' tick ∈ [Event.iterated workStart succeeds] →
        ∀ m w'', (iterate workPipeline tick w').next = .goto m w'' →
          Justified workPipeline.graph tick.ord w' (iterate workPipeline tick w') w''.currentNode := by
  obtain ⟨w, hw⟩ : ∃ w, (iterate workPipeline succeeds workStart).next.walk? = some w :=
    Option.isSome_iff_exists.mp (by decide +kernel)
  have run : Runs workPipeline [.iterated workStart succeeds] _ (some w) :=
    Recovery.Run.step workStart_runs ⟨succeeds, rfl, rfl, hw.symm⟩
  refine ⟨_, w, run, (transitions_justified_iff run).mpr fun w' tick he _ hstray => ?_⟩
  cases List.mem_singleton.mp he
  exact absurd hstray.1 (by decide +kernel)

/-- The exit of a graph without goal gates sends the run back to where the
failed node suggested. -/
theorem exit_jumps_to_suggestion : ∃ h docs w m w', Runs workPipeline h docs (some w) ∧
    w.currentNode.isExitNode = true ∧
    unsatisfiedGates workPipeline.graph w.engine.nodeOutcomes = [] ∧
    (iterate workPipeline failsSuggesting w).next = .goto m w' ∧ w'.currentNode.id = "begin" ∧
    ¬ Justified workPipeline.graph failsSuggesting.ord w
      (iterate workPipeline failsSuggesting w) w'.currentNode := by
  obtain ⟨w, hw⟩ : ∃ w, walkAfter workPipeline [succeeds, failsSuggesting] workStart = some w :=
    Option.isSome_iff_exists.mp (by decide +kernel)
  have hfacts : (walkAfter workPipeline [succeeds, failsSuggesting] workStart).map (fun w =>
      (w.currentNode.isExitNode,
        (unsatisfiedGates workPipeline.graph w.engine.nodeOutcomes).isEmpty,
        targetId (iterate workPipeline failsSuggesting w).next)) =
          some (true, true, some "begin") := by decide +kernel
  rw [hw, Option.map_some, Option.some.injEq, Prod.mk.injEq, Prod.mk.injEq] at hfacts
  obtain ⟨hexit, hgates, htarget⟩ := hfacts
  obtain ⟨docs, run⟩ := workStart_runs.after hw
  have hnil : unsatisfiedGates workPipeline.graph w.engine.nodeOutcomes = [] :=
    List.isEmpty_iff.mp hgates
  cases hn : (iterate workPipeline failsSuggesting w).next with
  | halt hlt s =>
    rw [hn] at htarget
    cases htarget
  | goto m w' =>
    rw [hn, targetId, Option.some.injEq] at htarget
    refine ⟨_, docs, w, m, w', run, hexit, hnil, hn, htarget, fun hjust => ?_⟩
    rw [Justified, if_pos hexit] at hjust
    obtain ⟨gateId, o, gate, hmem, -, -⟩ := hjust
    rw [hnil] at hmem
    exact absurd hmem List.not_mem_nil

end Demo

end DotRunner
