import DotRunner.Engine.SkipSoundness
import DotRunner.Engine.Transitions

/-!
# The run and the resume from its checkpoint

The action a walk takes right after a checkpoint against the one a resume from
the checkpoint takes.
-/

namespace DotRunner

open Py

/-- What an iteration decides: the next node and whether the records of the run
are cleared, the status the run ends with, or an exception. -/
inductive Action where
  | goto (nodeId : String) (cleared : Bool)
  | stop (status : StageStatus)
  | crash
deriving DecidableEq

def Next.action : Next → Action
  | .goto _ w => .goto w.currentNode.id w.engine.isCleared
  | .halt (.returned o) _ => .stop o.status
  | .halt (.raised _) _ => .crash

section Actions

/-- Along an edge. -/
def jumpAction (g : Graph) (nodeId : String) (cleared : Bool) : Action :=
  match g.node? nodeId with
  | some n => .goto n.id cleared
  | none => .crash

def fanInAction (g : Graph) (ord : SetOrder) (roots : List String) : Action :=
  match g.findFanInNode ord roots with
  | some fanIn => jumpAction g fanIn false
  | none => .stop .fail

/-- Without an edge: the retry target of the node, or a failed run. -/
def retryAction (g : Graph) (node : Node) (retries : Int) (cleared : Bool) : Action :=
  match resolveFailureRetryTarget g node with
  | some target => if retries < maxGoalGateRetries then .goto target.id cleared else .stop .fail
  | none => .stop .fail

def selectAction [Runtime] (g : Graph) (node : Node) (retries : Int) : Option Edge → Action
  | some e => jumpAction g e.toNode e.restarts
  | none => retryAction g node retries true

def skipAction (g : Graph) (node : Node) (retries : Int) : Option Edge → Action
  | some e => jumpAction g e.toNode false
  | none => retryAction g node retries false

/-- Past the goal gates, which ended with `status` and named `target`. -/
def exitAction (status : StageStatus) (target : Option Node) (retries : Int) : Action :=
  if status = .fail ∧ retries < maxGoalGateRetries then
    match target with
    | some n => .goto n.id true
    | none => .stop status
  else .stop status

theorem jump_action (w : Walk) (g : Graph) (nodeId : String) (m : Move) :
    (w.jump g nodeId m).action = jumpAction g nodeId w.engine.isCleared := by
  unfold Walk.jump jumpAction
  cases g.node? nodeId <;> rfl

variable [Runtime]

theorem follow_action (w : Walk) (g : Graph) (e : Edge) (h : w.engine.isCleared = false) :
    (w.follow g e).action = jumpAction g e.toNode e.restarts := by
  unfold Walk.follow
  rw [jump_action]
  by_cases hr : e.restarts = true
  · rw [if_pos hr, hr]
    rfl
  · rw [if_neg hr, h, eq_false_of_ne_true hr]

theorem failureRoute_action (w : Walk) (g : Graph) (o : Outcome) :
    (w.failureRoute g o).action = retryAction g w.currentNode w.failureRoutingRetries true := by
  unfold Walk.failureRoute retryAction
  cases resolveFailureRetryTarget g w.currentNode with
  | none => rfl
  | some target =>
    dsimp only
    split <;> rfl

theorem selectAndGo_action (w : Walk) (g : Graph) (o : Outcome) (h : w.engine.isCleared = false) :
    (w.selectAndGo g o).action = selectAction g w.currentNode w.failureRoutingRetries
      (selectEdge w.currentNode.id o w.engine.context g) := by
  unfold Walk.selectAndGo
  cases selectEdge w.currentNode.id o w.engine.context g with
  | some e => exact follow_action w g e h
  | none => exact failureRoute_action w g o

theorem route_action (w : Walk) (g : Graph) (ord : SetOrder) (o : Outcome)
    (h : w.engine.isCleared = false) :
    (w.route g ord o).action = match Walk.branchRoots g w.currentNode with
      | some roots => fanInAction g ord roots
      | none => selectAction g w.currentNode w.failureRoutingRetries
          (selectEdge w.currentNode.id o w.engine.context g) := by
  unfold Walk.route
  cases Walk.branchRoots g w.currentNode with
  | none => exact selectAndGo_action w g o h
  | some roots =>
    dsimp only [fanInAction]
    cases g.findFanInNode ord roots with
    | none => rfl
    | some fanIn =>
      dsimp only [jumpAction]
      cases hn : g.node? fanIn with
      | none => rfl
      | some n =>
        dsimp only
        rw [jump_action, jumpAction, hn, h]

theorem routeSkipped_action (w : Walk) (g : Graph) (o : Outcome) (h : w.engine.isCleared = false) :
    (w.routeSkipped g o).action = skipAction g w.currentNode w.failureRoutingRetries
      (w.skipEdge g (Walk.skipRouting o)) := by
  unfold Walk.routeSkipped
  dsimp only
  cases he : w.skipEdge g (Walk.skipRouting o) with
  | some e =>
    dsimp only [skipAction]
    rw [jump_action, h]
  | none =>
    dsimp only [skipAction, retryAction]
    cases hr : resolveFailureRetryTarget g w.currentNode with
    | none => rfl
    | some target =>
      dsimp only
      split
      · simp only [Next.action, h]
      · rfl

theorem leaveExit_action (w : Walk) (g : Graph) : (w.leaveExit g).action =
    exitAction (checkGoalGates g w.engine).status
      (((checkGoalGates g w.engine).suggestions.map coerceSuggestedId).head?.bind fun named =>
        named.bind g.node?) w.goalGateRetries := by
  unfold Walk.leaveExit exitAction
  dsimp only
  split
  · split
    · rename_i hnil
      rw [hnil]
      rfl
    · rename_i raw rest hcons
      rw [hcons]
      simp only [List.map_cons, List.head?_cons, Option.bind_some]
      cases (coerceSuggestedId raw).bind g.node? with
      | some target => rfl
      | none => rfl
  · rfl

end Actions

/-! ## What a resume reads -/

section Restored

variable [Runtime]

/-- The resuming process leaves these keys of the context as they were, and JSON
leaves their spelling. -/
structure Resumption.Keeps (r : Resumption) (c : PipelineContext) (keys : List String) : Prop where
  overrides : ∀ k ∈ keys, k ∉ r.contextOverrides.keys
  fresh : ∀ k ∈ keys, k ∈ r.context.values.keys → k ∈ c.values.keys
  texts : ∀ k ∈ keys, ∀ v, c.values.get? k = some v → v.viaJson.toStr = v.toStr

omit [Runtime] in
theorem viaJson_eq_none {v : Value} (h : v.viaJson = .none) : v = .none := by
  cases v with
  | float f => cases f <;> cases h
  | none => rfl
  | _ => cases h

theorem contextText_restored {w : Walk} {r : Resumption} {keys : List String}
    (h : r.Keeps w.engine.context keys) (g : Graph) (node : Node) :
    ∀ k ∈ keys, contextText (w.restored g r node).engine.context k =
      contextText w.engine.context k := by
  intro k hk
  have hover : r.contextOverrides.get? k = none :=
    (Dict.get?_eq_none_iff _).mpr (h.overrides k hk)
  have hget : (w.restored g r node).engine.context.values.get? k =
      ((w.engine.context.values.get? k).map Value.viaJson).or (r.context.values.get? k) := by
    show (((r.context.update w.engine.context.values.viaJson).update
      r.contextOverrides).values).get? k = _
    rw [PipelineContext.update, PipelineContext.update, Dict.get?_update, Dict.get?_update, hover,
      Option.none_or, Record.viaJson, Dict.get?_mapVals]
  simp only [contextText, PipelineContext.get, Dict.getD, hget]
  cases hv : w.engine.context.values.get? k with
  | none =>
    have hmissing : k ∉ w.engine.context.values.keys := (Dict.get?_eq_none_iff _).mp hv
    have hnone : r.context.values.get? k = none :=
      (Dict.get?_eq_none_iff _).mpr fun hmem => hmissing (h.fresh k hk hmem)
    rw [hnone]
    rfl
  | some v =>
    simp only [Option.map_some, Option.some_or, Option.getD_some]
    by_cases hnone : v = .none
    · subst hnone
      rfl
    · split
      · rename_i hj
        exact absurd (viaJson_eq_none hj) hnone
      · rw [h.texts k hk v hv]

omit [Runtime] in
theorem Outcome.Recordable.sameRouting {o : Outcome} (h : o.Recordable) :
    o.restored.SameRouting o := ⟨rfl, rfl, suggestions_restored h⟩

/-- The gates answer a resume as they answered the run. -/
theorem checkGoalGates_restored {g : Graph} {w : Walk} (h : Recorded g w.engine) (r : Resumption)
    (node : Node) :
    (checkGoalGates g (w.restored g r node).engine).status = (checkGoalGates g w.engine).status ∧
    (checkGoalGates g (w.restored g r node).engine).suggestions.map coerceSuggestedId =
      (checkGoalGates g w.engine).suggestions.map coerceSuggestedId := by
  have hgates : unsatisfiedGates g (w.restored g r node).engine.nodeOutcomes =
      (unsatisfiedGates g w.engine.nodeOutcomes).map fun p => (p.1, p.2.restored) := by
    show List.filter _ (List.map (fun p : String × Outcome => (p.1, p.2.restored))
      w.engine.nodeOutcomes.entries) = _
    rw [List.filter_map]
    rfl
  simp only [checkGoalGates, hgates]
  cases hu : unsatisfiedGates g w.engine.nodeOutcomes with
  | cons p rest => exact ⟨rfl, rfl⟩
  | nil =>
    simp only [List.map_nil]
    have hlast : (w.restored g r node).engine.lastOutcome =
        w.engine.lastOutcome.map Outcome.restored := by
      rw [EngineState.lastOutcome, EngineState.lastOutcome]
      show w.engine.completedNodes.getLast?.bind (w.restored g r node).engine.nodeOutcomes.get? = _
      cases hl : w.engine.completedNodes.getLast? with
      | none => rfl
      | some id => exact get?_restored g w r node id
    rw [hlast]
    cases ho : w.engine.lastOutcome with
    | none => exact ⟨rfl, rfl⟩
    | some o =>
      obtain ⟨id, -, hid⟩ := Option.bind_eq_some_iff.mp ho
      exact ⟨rfl, suggestions_restored (h id o hid).2⟩

end Restored

/-! ## Agreement -/

section Agreement

variable [Runtime]

/-- A skipped node is routed by its record as it is by the failure the run makes
of it: it is no parallel node, the selected edges lead to one node without a
restart, and without an edge there is no retry. -/
structure SkipRoutesAlike (g : Graph) (w : Walk) (skip : Outcome) : Prop where
  branch : Walk.branchRoots g w.currentNode = none
  edge : ∀ e, selectEdge w.currentNode.id (Walk.skipRouting skip) w.engine.context g = some e →
    ∃ e', selectEdge w.currentNode.id skip w.engine.context g = some e' ∧ e'.toNode = e.toNode ∧
      e'.restarts = false
  noEdge : selectEdge w.currentNode.id (Walk.skipRouting skip) w.engine.context g = none →
    selectEdge w.currentNode.id skip w.engine.context g = none ∧
      (resolveFailureRetryTarget g w.currentNode = none ∨
        maxGoalGateRetries ≤ w.failureRoutingRetries)

/-- What makes a resume in `r` route the checkpoint of `w` as the run did, by the
completion the checkpoint was written for; an exit is left by its gates. -/
structure RoutesAlike (g : Graph) (r : Resumption) (w : Walk) (c : Option Completion) : Prop where
  context : c.isSome → r.Keeps w.engine.context (g.reads w.currentNode.id)
  executed : ∀ id o, c = some ⟨id, o, none⟩ → ∀ roots,
    Walk.branchRoots g w.currentNode = some roots → g.UnambiguousFanIn roots
  skipped : ∀ id o keys, c = some ⟨id, o, some keys⟩ → SkipRoutesAlike g w o

/-- The resumed loop has a step and time left, and is not cancelled. -/
structure Undisturbed (g : Graph) (w : Walk) (tick : Tick) : Prop where
  steps : w.steps < maxSteps g
  duration : overDuration g tick.elapsedMs = false
  cancelled : tick.cancelled = false

omit [Runtime] in
theorem Undisturbed.guardLoop {p : PipelineEngine} {w : Walk} {tick : Tick}
    (h : Undisturbed p.graph w tick) : guardLoop p tick w.counted = none := by
  have hsteps : ¬ maxSteps p.graph < w.counted.steps := by
    have hcounted : w.counted.steps = w.steps + 1 := rfl
    have hlt := h.steps
    omega
  simp only [DotRunner.guardLoop, if_neg hsteps, h.duration, h.cancelled, Bool.false_eq_true,
    if_false]

omit [Runtime] in
theorem fanInAction_congr {g : Graph} {roots : List String} (h : g.UnambiguousFanIn roots)
    (ord ord' : SetOrder) : fanInAction g ord roots = fanInAction g ord' roots := by
  rw [fanInAction, fanInAction, Graph.findFanInNode_eq h ord ord']

theorem skipEdge_eq (w : Walk) (g : Graph) (o : Outcome) :
    w.skipEdge g o = selectEdge w.currentNode.id o w.engine.context g := by
  unfold Walk.skipEdge
  cases hs : selectEdge w.currentNode.id o w.engine.context g with
  | some e => rfl
  | none => exact bestUnconditional_eq_none_of_selectEdge hs

/-- The action after a skip is the one its record gives. -/
theorem SkipRoutesAlike.action {g : Graph} {w : Walk} {skip : Outcome}
    (h : SkipRoutesAlike g w skip) :
    selectAction g w.currentNode w.failureRoutingRetries
        (selectEdge w.currentNode.id skip w.engine.context g) =
      skipAction g w.currentNode w.failureRoutingRetries
        (w.skipEdge g (Walk.skipRouting skip)) := by
  rw [skipEdge_eq]
  cases hs : selectEdge w.currentNode.id (Walk.skipRouting skip) w.engine.context g with
  | some e =>
    obtain ⟨e', he', hto, hr⟩ := h.edge e hs
    rw [he', selectAction, skipAction, hto, hr]
  | none =>
    obtain ⟨hnone, hretry⟩ := h.noEdge hs
    rw [hnone, selectAction, skipAction, retryAction, retryAction]
    rcases hretry with htarget | hbudget
    · rw [htarget]
    · have hspent : ¬ w.failureRoutingRetries < maxGoalGateRetries := by omega
      simp only [if_neg hspent]

variable [JsonReader]

theorem iterate_hop {p : PipelineEngine} {tick : Tick} {w : Walk} {o : Outcome}
    (hg : guardLoop p tick w.counted = none) (hx : w.currentNode.isExitNode = false)
    (ho : w.resumeOutcome = some o) :
    (iterate p tick w).next =
      { w.counted with resumeOutcome := none }.route p.graph tick.ord o := by
  rw [iterate_unguarded hg]
  have hx' : w.counted.currentNode.isExitNode = false := hx
  have ho' : w.counted.resumeOutcome = some o := ho
  simp only [visit_eq, hx', ho', Bool.false_eq_true, if_false]

/-- A resume from the checkpoint of a node just recorded with `o` selects from
its record. -/
theorem resumed_action {p : PipelineEngine} {w : Walk} {node : Node} (hs : Snapshot p.graph w node)
    (hx : node.isExitNode = false) {o : Outcome}
    (ho : w.engine.nodeOutcomes.get? node.id = some o) {r : Resumption}
    (hctx : r.Keeps w.engine.context (p.graph.reads node.id)) {tick : Tick}
    (hu : Undisturbed p.graph w tick) :
    (iterate p tick (w.restored p.graph r node)).next.action =
      match Walk.branchRoots p.graph node with
      | some roots => fanInAction p.graph tick.ord roots
      | none => selectAction p.graph node w.failureRoutingRetries
          (selectEdge node.id o w.engine.context p.graph) := by
  have hu' : Undisturbed p.graph (w.restored p.graph r node) tick := ⟨hu.steps, hu.2, hu.3⟩
  have hres : (w.restored p.graph r node).resumeOutcome = some o.restored := by
    show (w.restored p.graph r node).engine.nodeOutcomes.get? node.id = some o.restored
    rw [get?_restored, ho]
    rfl
  have hmem : node.id ∈ w.engine.completedNodes :=
    (hs.keys node.id).mp (Dict.mem_keys_of_get? _ ho)
  have hkept : ({ (w.restored p.graph r node).counted with resumeOutcome := none } :
      Walk).engine.isCleared = false := EngineState.not_isCleared_of_mem hmem
  have hsel : selectEdge node.id o.restored (w.restored p.graph r node).engine.context p.graph =
      selectEdge node.id o w.engine.context p.graph :=
    selectEdge_congr p.graph (hs.recorded node.id o ho).2.sameRouting
      (contextText_restored hctx p.graph node)
  rw [iterate_hop hu'.guardLoop hx hres]
  refine (route_action _ _ _ _ hkept).trans ?_
  show (match Walk.branchRoots p.graph node with
    | some roots => fanInAction p.graph tick.ord roots
    | none => selectAction p.graph node w.failureRoutingRetries (selectEdge node.id o.restored
        (w.restored p.graph r node).engine.context p.graph)) = _
  rw [hsel]

/-- The action after a checkpoint is the action after a resume from it. -/
theorem IterCase.agrees {p : PipelineEngine} {tick : Tick} {w : Walk} {r : IterEnd}
    (h : IterCase p tick w r) (hw : Coherent p.graph w) {saved : Written}
    (hs : r.saved = some saved) {res : Resumption}
    (hroutes : RoutesAlike p.graph res saved.walk r.completion) {tick' : Tick}
    (hu : Undisturbed p.graph saved.walk tick') :
    (iterate p tick' (saved.walk.restored p.graph res w.currentNode)).next.action =
      r.next.action := by
  cases h with
  | guarded hg ho => cases hs
  | exit hg hx =>
    cases hs
    have hu' : Undisturbed p.graph (w.counted.restored p.graph res w.currentNode) tick' :=
      ⟨hu.steps, hu.duration, hu.cancelled⟩
    obtain ⟨hstatus, hnamed⟩ := checkGoalGates_restored (w := w.counted) hw.recorded res w.currentNode
    rw [iterate_exit hu'.guardLoop hx, leaveExit_action, leaveExit_action]
    show exitAction (checkGoalGates p.graph (w.counted.restored p.graph res
      w.currentNode).engine).status ((((checkGoalGates p.graph (w.counted.restored p.graph res
        w.currentNode).engine).suggestions.map coerceSuggestedId).head?).bind _) _ = _
    rw [hstatus, hnamed]
    rfl
  | hop hg hx ho => cases hs
  | @skip keys hg hx ho hk =>
    cases hs
    have hsnap := snapshot_skipped hw hx (recordable_skipOutcome w.currentNode keys)
    have halike := hroutes.skipped _ _ _ rfl
    have hbranch : Walk.branchRoots p.graph w.currentNode = none := halike.branch
    rw [resumed_action hsnap hx (Dict.get?_set_self _ _ _) (hroutes.context rfl) hu, hbranch]
    have hmem : w.currentNode.id ∈ (w.skipped p.graph
        (skipOutcome w.currentNode keys)).engine.completedNodes :=
      List.mem_append_right _ List.mem_cons_self
    have hkept : ((w.skipped p.graph (skipOutcome w.currentNode keys)).withCheckpoint
        (checkpointOf p.graph (w.skipped p.graph (skipOutcome w.currentNode keys))
          w.currentNode.id tick.timestamp)).engine.isCleared = false :=
      EngineState.not_isCleared_of_mem hmem
    exact halike.action.trans (routeSkipped_action _ _ _ hkept).symm
  | @execute context armed o hg hx ho hk hsw ha =>
    cases hs
    have hsnap := snapshot_executed hw hx (recordable_of_statusWritable hsw ha) context armed
    obtain ⟨hc, hn⟩ := executed_records w p.graph context armed o
    have hget : (w.executed p.graph context armed o).engine.nodeOutcomes.get? w.currentNode.id =
        some o := by
      rw [hn]
      exact Dict.get?_set_self _ _ _
    have hmem : w.currentNode.id ∈ (w.executed p.graph context armed o).engine.completedNodes := by
      rw [hc]
      exact List.mem_append_right _ List.mem_cons_self
    rw [resumed_action hsnap hx hget (hroutes.context rfl) hu]
    have hkept : ((w.executed p.graph context armed o).withCheckpoint
        (checkpointOf p.graph (w.executed p.graph context armed o) w.currentNode.id
          tick.timestamp)).engine.isCleared = false := EngineState.not_isCleared_of_mem hmem
    refine Eq.trans ?_ (route_action _ _ _ _ hkept).symm
    show _ = match Walk.branchRoots p.graph w.currentNode with
      | some roots => fanInAction p.graph tick.ord roots
      | none => _
    cases hb : Walk.branchRoots p.graph w.currentNode with
    | some roots => exact fanInAction_congr (hroutes.executed _ _ rfl roots hb) _ _
    | none => rfl
  | abort hg hx ho hk hu hsn => cases hs

/-- Resume agrees with the uninterrupted run.  After every checkpoint of a run, a
resume from it that is not disturbed takes the action the run took, where its
routing reads the same. -/
theorem resume_agrees {p : PipelineEngine} {h : List Event} {docs : List Value} {o : Option Walk}
    (run : Runs p h docs o) {w : Walk} {tick : Tick} (he : .iterated w tick ∈ h) {saved : Written}
    (hs : (iterate p tick w).saved = some saved) {r : Resumption}
    (hroutes : RoutesAlike p.graph r saved.walk (iterate p tick w).completion) {path : String}
    {w' : Walk} (hr : resume p.graph r path saved.doc = .ok w') {tick' : Tick}
    (hu : Undisturbed p.graph saved.walk tick') :
    (iterate p tick' w').next.action = (iterate p tick w).next.action := by
  obtain ⟨h', docs', hrun⟩ := run.iterated he
  have hcase := iterate_case p tick w
  obtain ⟨hsnap, hcp⟩ := (hcase.coherent hrun.coherent).1 saved hs
  rw [Written.doc, hcp, resume_saveCheckpoint hsnap.member, Except.ok.injEq] at hr
  subst hr
  exact hcase.agrees hrun.coherent hs hroutes hu

end Agreement

section Demo

open Py.Ascii

/-- What the agreement at a checkpoint rests on. -/
def checkpointFacts (r : IterEnd) : Option (String × Bool × List String × Option (List String)) :=
  r.saved.map fun s => (s.walk.currentNode.id, decide (s.walk.steps < maxSteps toolPipeline.graph),
    toolPipeline.graph.reads s.walk.currentNode.id,
    Walk.branchRoots toolPipeline.graph s.walk.currentNode)

theorem resume_agrees_begin : ∃ docs w saved w',
    Runs toolPipeline [.iterated toolStart (endsWith .success)] docs (some w) ∧
    (iterate toolPipeline (endsWith .success) toolStart).saved = some saved ∧
    resume toolPipeline.graph {} "" saved.doc = .ok w' ∧
    (iterate toolPipeline (endsWith .success) w').next.action =
      (iterate toolPipeline (endsWith .success) toolStart).next.action := by
  obtain ⟨w, hw⟩ : ∃ w, (iterate toolPipeline (endsWith .success) toolStart).next.walk? = some w :=
    Option.isSome_iff_exists.mp (by decide +kernel)
  have run : Runs toolPipeline [.iterated toolStart (endsWith .success)] _ (some w) :=
    Recovery.Run.step toolStart_runs ⟨endsWith .success, rfl, rfl, hw.symm⟩
  have hfacts : checkpointFacts (iterate toolPipeline (endsWith .success) toolStart) =
      some ("begin", true, [], none) := by decide +kernel
  have hdone : skippedFor (iterate toolPipeline (endsWith .success) toolStart) = none := by
    decide +kernel
  obtain ⟨saved, hs, hfact⟩ := Option.map_eq_some_iff.mp hfacts
  simp only [Prod.mk.injEq, decide_eq_true_eq] at hfact
  obtain ⟨-, hsteps, hreads, hbranch⟩ := hfact
  obtain ⟨hsnap, hcp⟩ := ((iterate_case toolPipeline (endsWith .success) toolStart).coherent
    toolStart_runs.coherent).1 saved hs
  have hres : resume toolPipeline.graph {} "" saved.doc =
      .ok (saved.walk.restored toolPipeline.graph {} toolStart.currentNode) := by
    rw [Written.doc, hcp]
    exact resume_saveCheckpoint hsnap.member {} "" _ saved.walk
  have hroutes : RoutesAlike toolPipeline.graph {} saved.walk
      (iterate toolPipeline (endsWith .success) toolStart).completion := by
    refine ⟨fun _ => ?_, fun _ _ _ roots hr => ?_, fun id o keys hc => ?_⟩
    · rw [hreads]
      exact ⟨fun _ hk => absurd hk List.not_mem_nil, fun _ hk => absurd hk List.not_mem_nil,
        fun _ hk => absurd hk List.not_mem_nil⟩
    · rw [hbranch] at hr
      cases hr
    · rw [skippedFor, hc] at hdone
      cases hdone
  exact ⟨_, w, saved, _, run, hs, hres,
    resume_agrees run List.mem_cons_self hs hroutes hres ⟨hsteps, rfl, rfl⟩⟩

/-- A report that is skipped with its tool, and one edge for either way its end
can be read. -/
def skipPipeline : PipelineEngine where
  graph := Graph.ofNodes
    [{ id := "begin", shape := "Mdiamond" }, { id := "fetch", shape := "parallelogram" },
      { id := "report", prompt := "Summarise $tool.output" }, { id := "repair" },
      { id := "archive" }]
    [{ fromNode := "begin", toNode := "fetch" }, { fromNode := "fetch", toNode := "report" },
      { fromNode := "report", toNode := "repair", condition := "outcome=fail" },
      { fromNode := "report", toNode := "archive", condition := "outcome=skipped" }]
  logsRoot := "/logs"
  handlerRegistry := ⟨standardHandlers⟩

def skipStart : Walk where
  engine := { context := initializeContext skipPipeline.graph none 0 {} }
  currentNode := { id := "begin", shape := "Mdiamond" }

theorem skipStart_runs : Runs skipPipeline [] [] (some skipStart) :=
  Recovery.Run.fresh ⟨none, {}, rfl⟩

/-- The action of an iteration, and of the resume from its checkpoint. -/
def actions (p : PipelineEngine) (tick tick' : Tick) (w : Walk) : Option (Action × Action) :=
  (iterate p tick w).saved.bind fun s => match resume p.graph {} "" s.doc with
    | .ok w' => some ((iterate p tick w).next.action, (iterate p tick' w').next.action)
    | .error _ => none

/-- The run leaves the skipped report for the repair, the resume for the
archive. -/
theorem skipped_report_resumed_elsewhere : ∃ h docs w, Runs skipPipeline h docs (some w) ∧
    actions skipPipeline (endsWith .success) (endsWith .success) w =
      some (.goto "repair" false, .goto "archive" false) := by
  obtain ⟨w, hw⟩ : ∃ w, walkAfter skipPipeline [endsWith .success, endsWith .fail] skipStart =
      some w := Option.isSome_iff_exists.mp (by decide +kernel)
  have hactions : (walkAfter skipPipeline [endsWith .success, endsWith .fail] skipStart).map
      (actions skipPipeline (endsWith .success) (endsWith .success)) =
        some (some (.goto "repair" false, .goto "archive" false)) := by decide +kernel
  rw [hw, Option.map_some, Option.some.injEq] at hactions
  obtain ⟨docs, run⟩ := skipStart_runs.after hw
  exact ⟨_, docs, w, run, hactions⟩

end Demo

end DotRunner
