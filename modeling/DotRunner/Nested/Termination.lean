import DotRunner.Nested.Branches

/-!
# Nested calls terminate

Which calls a call may make, and that it returns when they do: a nest of calls
without an endless descent ends.
-/

namespace DotRunner

open Py Approx

section Termination

variable [Runtime]

/-! ## The calls of a nest -/

/-- A call of `run_subgraph` from a node, or of `run`. -/
inductive Call where
  | walk (p : PipelineEngine) (root : String)
  | run (p : PipelineEngine)

def Call.engine : Call → PipelineEngine
  | .walk p _ => p
  | .run p => p

section Calls

variable (w : World)

/-- A walk inside another may go from the first node to the second. -/
def Goes (p : PipelineEngine) (n m : Node) : Prop :=
  n.isSubgraphTerminal = false ∧ ∃ o c e, MayEndWith p n o ∧
    selectEdge n.id o (applyOutcome c o) p.graph = some e ∧ p.graph.node? e.toNode = some m

/-- An iteration may take the main loop from the first node to the second. -/
def LoopGoes [JsonReader] (p : PipelineEngine) (n m : Node) : Prop :=
  ∃ tick walk move walk', (iterate p tick walk).next = .goto move walk' ∧ walk.currentNode = n ∧
    walk'.currentNode = m

/-- The nodes whose handlers a call may execute. -/
def Call.Visits [JsonReader] : Call → Node → Prop
  | .walk p root, n => n.isSubgraphTerminal = false ∧ n.isStartNode = false ∧
      ∃ first, p.graph.node? root = some first ∧ Relation.ReflTransGen (Goes p) first n
  | .run p, n => n.isExitNode = false ∧ ∃ goal context walk, start p.graph goal context = .ok walk ∧
      Relation.ReflTransGen (LoopGoes p) walk.currentNode n

/-- The calls the handler of a node may make. -/
inductive Starts (p : PipelineEngine) (n : Node) : Call → Prop
  | branch {e : Edge} (ht : p.handlerRegistry.get n = .ok "parallel")
      (he : e ∈ p.graph.outgoingEdges n.id) : Starts p n (.walk p e.toNode)
  | child {e : Edge} {rest : List Edge} (ht : p.handlerRegistry.get n = .ok "stack.manager_loop")
      (hd : (managerConfig p.graph n 0).childDotfile.truthy = false)
      (he : p.graph.outgoingEdges n.id = e :: rest) : Starts p n (.walk p e.toNode)
  | childGraph {place : Place} {context : PipelineContext} {g : Graph} {logsRoot : String}
      (ht : p.handlerRegistry.get n = .ok "stack.manager_loop")
      (hd : (managerConfig p.graph n 0).childDotfile.truthy = true)
      (hg : w.childDot place p.graph n context = .graph g logsRoot) :
      Starts p n (.run (childEngine g logsRoot))
  | folder {place : Place} {context : PipelineContext} {g : Graph} {logsRoot : String}
      (ht : p.handlerRegistry.get n = .ok "pipeline") (hd : (n.attr "dot_file").truthy = true)
      (hg : w.childDot place p.graph n context = .graph g logsRoot) :
      Starts p n (.run (childEngine g logsRoot))

/-- The second call may make the first. -/
def Opens [JsonReader] (c' c : Call) : Prop := ∃ n, c.Visits n ∧ Starts w c.engine n c'

/-- A parallel node whose branches wait for ever. -/
def Blocks (p : PipelineEngine) (n : Node) : Prop :=
  p.handlerRegistry.get n = .ok "parallel" ∧ p.graph.outgoingEdges n.id ≠ [] ∧
    (n.attrD "max_parallel" (.int 4)).toInt = .ok 0

/-- No call of the nest comes to such a node. -/
def Unblocked [JsonReader] (c : Call) : Prop :=
  ∀ c', Relation.ReflTransGen (fun a b => Opens w b a) c c' → ∀ n, c'.Visits n →
    ¬Blocks c'.engine n

/-- The call returns, whatever it is given: from some depth on its result is
there and stays. -/
def Call.Terminates [JsonReader] : Call → Prop
  | .walk p root => ∀ place context, Settles fun d => (runners w d).subgraph p place root context
  | .run p => ∀ place goal context, Settles fun d => (runners w d).run p place goal context

end Calls

variable {w : World} {p : PipelineEngine}

/-! ## Handlers -/

section Handlers

variable [JsonReader] {node : Node}

theorem superviseCycles_settles {cfg : ManagerConfig}
    (hchild : ∀ place context,
      Settles fun d => superviseChild w (runners w d) p place node cfg context)
    (place : Place) (left cycle : Nat) (last : Option Outcome) (context : PipelineContext) :
    Settles fun d => superviseCycles w (runners w d) p place node cfg left cycle last context := by
  induction left generalizing cycle last context with
  | zero => exact settles_some _
  | succ left ih =>
    refine (hchild _ _).option_bind fun _ child _ => ?_
    cases child.ended with
    | cut => exact settles_some _
    | done o =>
      dsimp only
      by_cases hdone : cycleDone cfg o (recordCycle cycle o context) = true
      · simp only [if_pos hdone]
        exact settles_some _
      · simp only [if_neg hdone]
        exact (ih _ _ _).option_map _

variable (hcalls : ∀ c, Starts w p node c → c.Terminates w)

include hcalls

theorem executeParallel_settles (hget : p.handlerRegistry.get node = .ok "parallel")
    (hblocks : ¬Blocks p node) (place : Place) (context : PipelineContext) :
    Settles fun d => executeParallel w (runners w d) p place node context := by
  unfold executeParallel
  dsimp only
  cases hout : p.graph.outgoingEdges node.id with
  | nil => exact settles_some _
  | cons first rest =>
    cases hmax : (node.attrD "max_parallel" (.int 4)).toInt with
    | error e => exact settles_some _
    | ok maxParallel =>
      have hne : maxParallel ≠ 0 := by
        rintro rfl
        exact hblocks ⟨hget, by rw [hout]; exact List.cons_ne_nil _ _, hmax⟩
      simp only [List.isEmpty_cons, if_neg hne]
      by_cases hneg : maxParallel < 0
      · simp only [if_pos hneg]
        exact settles_some _
      · simp only [if_neg hneg]
        refine Settles.option_map ?_ _
        refine Settles.mapM fun group hgroup => Settles.mapM fun i hi => ?_
        have hlt : i < (first :: rest).length :=
          lt_of_mem_begun (List.mem_flatten.mpr ⟨group, hgroup, hi⟩)
        have hmem : (first :: rest)[i] ∈ p.graph.outgoingEdges node.id := by
          rw [hout]
          exact List.getElem_mem hlt
        rw [List.getElem?_eq_getElem hlt]
        exact (hcalls _ (.branch hget hmem) (i :: place) (nestedContext context)).option_map _

theorem superviseChild_settles (cfg : ManagerConfig)
    (hget : p.handlerRegistry.get node = .ok "stack.manager_loop")
    (hcfg : cfg.childDotfile = (managerConfig p.graph node 0).childDotfile)
    (hchild : cfg.childDotfile.truthy = false → ∃ e rest, p.graph.outgoingEdges node.id = e :: rest ∧
      cfg.childStart = e.toNode) (place : Place) (context : PipelineContext) :
    Settles fun d => superviseChild w (runners w d) p place node cfg context := by
  unfold superviseChild
  cases hdot : cfg.childDotfile.truthy with
  | true =>
    simp only [if_true]
    cases hg : w.childDot place p.graph node context with
    | missing resolvedPath diagnostic => exact settles_some _
    | unparsed error => exact settles_some _
    | raised e => exact settles_some _
    | graph g logsRoot =>
      rw [hcfg] at hdot
      exact (hcalls _ (.childGraph hget hdot hg) place none context).option_map _
  | false =>
    simp only [Bool.false_eq_true, if_false]
    obtain ⟨e, rest, hout, hstart⟩ := hchild hdot
    rw [hcfg] at hdot
    rw [hstart]
    exact (hcalls _ (.child hget hdot hout) place context).option_map _

theorem executeManager_settles (hget : p.handlerRegistry.get node = .ok "stack.manager_loop")
    (place : Place) (context : PipelineContext) :
    Settles fun d => executeManager w (runners w d) p place node context := by
  unfold executeManager
  cases hmax : (node.attrD "manager.max_cycles" (.int 1000)).toInt with
  | error e => exact settles_some _
  | ok maxCycles =>
    dsimp only
    by_cases hnone : (!(managerConfig p.graph node maxCycles).childDotfile.truthy &&
        (p.graph.outgoingEdges node.id).isEmpty) = true
    · simp only [if_pos hnone]
      exact settles_some _
    · simp only [if_neg hnone]
      refine superviseCycles_settles (fun place context => ?_) place _ _ _ _
      refine superviseChild_settles hcalls (managerConfig p.graph node maxCycles) hget rfl
        (fun hdot => ?_) place context
      cases hout : p.graph.outgoingEdges node.id with
      | nil =>
        rw [hdot, hout] at hnone
        exact absurd rfl hnone
      | cons e rest =>
        refine ⟨e, rest, rfl, ?_⟩
        unfold managerConfig
        dsimp only
        rw [hout]

theorem executePipeline_settles (hget : p.handlerRegistry.get node = .ok "pipeline")
    (place : Place) (context : PipelineContext) :
    Settles fun d => executePipeline w (runners w d) p place node context := by
  unfold executePipeline
  cases hdot : (node.attr "dot_file").truthy with
  | false => exact settles_some _
  | true =>
    simp only [Bool.not_true, Bool.false_eq_true, if_false]
    cases hg : w.childDot place p.graph node context with
    | missing resolvedPath diagnostic => exact settles_some _
    | unparsed error => exact settles_some _
    | raised e => exact settles_some _
    | graph g logsRoot => exact (hcalls _ (.folder hget hdot hg) place _ _).option_map _

/-- A handler returns when the calls it may make do. -/
theorem executeHandler_settles {handlerType : String}
    (hget : p.handlerRegistry.get node = .ok handlerType) (hblocks : ¬Blocks p node) (place : Place)
    (context : PipelineContext) :
    Settles fun d => executeHandler w (runners w d) p place handlerType node context := by
  unfold executeHandler
  by_cases hparallel : handlerType = "parallel"
  · simp only [if_pos hparallel]
    exact executeParallel_settles hcalls (hparallel ▸ hget) hblocks place context
  · simp only [if_neg hparallel]
    by_cases hmanager : handlerType = "stack.manager_loop"
    · simp only [if_pos hmanager]
      exact executeManager_settles hcalls (hmanager ▸ hget) place context
    · simp only [if_neg hmanager]
      by_cases hpipeline : handlerType = "pipeline"
      · simp only [if_pos hpipeline]
        exact executePipeline_settles hcalls (hpipeline ▸ hget) place context
      · simp only [if_neg hpipeline]
        exact settles_some _

end Handlers

/-! ## Attempts and iterations -/

section Attempts

variable [JsonReader] {perform : Nat → Nat → PipelineContext → Nest AttemptEnd}
  (hp : ∀ n c, Settles fun d => perform d n c)

include hp

theorem runAttempts_settles (node : Node) (logsRoot : String) (nodeStartWall : Int)
    (maxAttempts left attempt : Nat) (last : Option Outcome) (context : PipelineContext)
    (disk : Disk) :
    Settles fun d => (runAttempts (perform d) node logsRoot nodeStartWall maxAttempts left attempt
      last context disk : Nest LadderRun) := by
  induction left generalizing attempt last context disk with
  | zero => exact settles_pure _
  | succ left ih =>
    refine (hp attempt context).bind fun _ a _ => ?_
    cases afterAttempt node logsRoot nodeStartWall attempt maxAttempts last a with
    | done result failed => exact settles_pure _
    | again last' => exact ih _ _ _ _

theorem awaitNodeIn_settles (p : PipelineEngine) (node : Node) (policy : RetryPolicy)
    (timeout : Option PyFloat) (run : NodeRun) (context : PipelineContext) :
    Settles fun d => (awaitNodeIn Logged.abandon p node policy timeout run (perform d) context :
      Nest (NodeEnd × PipelineContext)) := by
  have hladder : Settles fun d => (executeWithRetry (perform d) node context p.logsRoot policy
      run.ladderWall run.disk : Nest LadderRun) := runAttempts_settles hp _ _ _ _ _ _ _ _ _
  have hfinished : Settles fun d => (do
      let r ← executeWithRetry (perform d) node context p.logsRoot policy run.ladderWall run.disk
      pure (r.result.nodeEnd, r.context) : Nest (NodeEnd × PipelineContext)) :=
    hladder.bind fun _ _ _ => settles_pure _
  unfold awaitNodeIn
  cases hexpired : run.expired with
  | false => exact hfinished
  | true =>
    simp only [if_true]
    cases waitBound p.graph run.startMs timeout with
    | unbounded => exact hfinished
    | fuse => exact hladder.abandon.bind fun _ _ _ => settles_pure _
    | nodeTimeout t => exact hladder.abandon.bind fun _ _ _ => settles_pure _

theorem executeNodeIn_settles (p : PipelineEngine) (tick : Tick) (walk : Walk) :
    Settles fun d => (executeNodeIn Logged.abandon p tick (perform d) walk : Nest IterEnd) := by
  unfold executeNodeIn
  cases p.handlerRegistry.get walk.currentNode with
  | error e => exact settles_pure _
  | ok handlerType =>
    dsimp only
    cases RetryPolicy.fromNode walk.currentNode p.graph with
    | error e => exact settles_pure _
    | ok policy =>
      cases nodeTimeout walk.currentNode with
      | error e => exact settles_pure _
      | ok timeout =>
        exact (awaitNodeIn_settles hp _ _ _ _ _ _).bind fun _ _ _ => settles_pure _

end Attempts

/-- An iteration returns when the attempts at its node do, where it comes to
them. -/
theorem iterateIn_settles [JsonReader] {perform : Nat → Nat → PipelineContext → Nest AttemptEnd}
    {walk : Walk} (hp : walk.currentNode.isExitNode = false → ∀ n c, Settles fun d => perform d n c)
    (p : PipelineEngine) (tick : Tick) :
    Settles fun d => (iterateIn Logged.abandon p tick (perform d) walk : Nest IterEnd) := by
  unfold iterateIn visitIn
  dsimp only
  cases guardLoop p tick { walk with steps := walk.steps + 1 } with
  | some o => exact settles_pure _
  | none =>
    dsimp only
    cases hexit : walk.currentNode.isExitNode with
    | true => exact settles_pure _
    | false =>
      simp only [Bool.false_eq_true, if_false]
      cases walk.resumeOutcome with
      | some o => exact settles_pure _
      | none =>
        cases checkNodeSkip tick.ord walk.currentNode walk.engine.failedOutputs with
        | some keys => exact settles_pure _
        | none => exact executeNodeIn_settles (hp hexit) p tick _

/-- An iteration that comes to its node waits for the first attempt. -/
theorem iterateIn_waits [JsonReader] {perform : Nat → PipelineContext → Nest AttemptEnd}
    {p : PipelineEngine} {tick : Tick} {walk : Walk} {handlerType : String} {policy : RetryPolicy}
    {timeout : Option PyFloat}
    (hguard : guardLoop p tick { walk with steps := walk.steps + 1 } = none)
    (hexit : walk.currentNode.isExitNode = false) (hresume : walk.resumeOutcome = none)
    (hskip : checkNodeSkip tick.ord walk.currentNode walk.engine.failedOutputs = none)
    (hget : p.handlerRegistry.get walk.currentNode = .ok handlerType)
    (hpolicy : RetryPolicy.fromNode walk.currentNode p.graph = .ok policy)
    (htimeout : nodeTimeout walk.currentNode = .ok timeout) (hexpired : tick.run.expired = false)
    (h : ∀ n c, perform n c = none) : iterateIn Logged.abandon p tick perform walk = none := by
  obtain ⟨left, hleft⟩ : ∃ left, policy.maxAttempts = left + 1 :=
    ⟨policy.maxAttempts - 1, by have hone := one_le_maxAttempts hpolicy; omega⟩
  have hladder : ∀ c, (executeWithRetry perform walk.currentNode c p.logsRoot policy
      tick.run.ladderWall tick.run.disk : Nest LadderRun) = none := by
    intro c
    unfold executeWithRetry
    rw [hleft]
    show Logged.andThen (perform 1 c) _ = none
    rw [h]
    rfl
  unfold iterateIn
  dsimp only
  rw [hguard]
  unfold visitIn executeNodeIn awaitNodeIn
  simp only [hexit, hresume, hskip, hget, hpolicy, htimeout, hexpired, hladder]
  rfl

/-! ## Walks and runs -/

section Walks

variable [JsonReader]

theorem subgraphStep_settles {node : Node}
    (hhandler : node.isSubgraphTerminal = false → node.isStartNode = false →
      ∀ handlerType place context, p.handlerRegistry.get node = .ok handlerType →
        Settles fun d => executeHandler w (runners w d) p place handlerType node context)
    (place : Place) (last : Option Outcome) (context : PipelineContext) :
    Settles fun d => subgraphStep w (runners w d) p place node last context := by
  unfold subgraphStep
  cases w.cut place with
  | true => exact settles_some _
  | false =>
    simp only [Bool.false_eq_true, if_false]
    cases w.cancelled place with
    | true => exact settles_pure _
    | false =>
      simp only [Bool.false_eq_true, if_false]
      cases hterminal : node.isSubgraphTerminal with
      | true => exact settles_pure _
      | false =>
        simp only [Bool.false_eq_true, if_false]
        cases hget : p.handlerRegistry.get node with
        | error e => exact settles_pure _
        | ok handlerType =>
          dsimp only
          cases hstart : node.isStartNode with
          | true => exact settles_pure _
          | false =>
            simp only [Bool.false_eq_true, if_false]
            obtain ⟨d, run, hrun⟩ := hhandler hterminal hstart handlerType place context hget
            refine ⟨d, (run.ended.map (afterSubgraphNode p.graph node),
              [.executed node.id run.nested]), fun d' hd => ?_⟩
            have hresult : executeHandler w (runners w d') p place handlerType node context =
                some run := hrun d' hd
            dsimp only
            rw [hresult]
            rfl

theorem subgraphSteps_settles {root : String} {first : Node}
    (hfirst : p.graph.node? root = some first)
    (hhandler : ∀ n, (Call.walk p root).Visits n → ∀ handlerType place context,
      p.handlerRegistry.get n = .ok handlerType →
        Settles fun d => executeHandler w (runners w d) p place handlerType n context)
    (place : Place) (left : Nat) {node : Node} (hreach : Relation.ReflTransGen (Goes p) first node)
    (last : Option Outcome) (context : PipelineContext) :
    Settles fun d => subgraphSteps w (runners w d) p place left node last context := by
  induction left generalizing node last context with
  | zero => exact settles_pure _
  | succ left ih =>
    have hstep := subgraphStep_settles (fun hterminal hstart handlerType place context hget =>
      hhandler node ⟨hterminal, hstart, first, hfirst, hreach⟩ handlerType place context hget)
      (left :: place) last context
    refine hstep.bind fun d s hs => ?_
    cases s with
    | ended e => exact settles_pure _
    | goto next context' o =>
      obtain ⟨l, hl⟩ := hs
      obtain ⟨hterminal, ho, c, e, he, hn⟩ := subgraphStep_goto hl
      have hgoes : Goes p node next := ⟨hterminal, o, c, e, ho, he, hn⟩
      exact (settles_some _).bind fun _ _ _ => ih (hreach.tail hgoes) _ _

theorem nestedIterate_settles {walk : Walk}
    (hhandler : walk.currentNode.isExitNode = false → ∀ handlerType place context,
      p.handlerRegistry.get walk.currentNode = .ok handlerType →
        Settles fun d => executeHandler w (runners w d) p place handlerType walk.currentNode context)
    (place : Place) : Settles fun d => nestedIterate w (runners w d) p place walk := by
  refine iterateIn_settles (fun hexit n c => ?_) p (w.tick place)
  unfold attemptAt
  dsimp only
  cases w.cut (n :: place) with
  | true => exact settles_some _
  | false =>
    simp only [Bool.false_eq_true, if_false]
    cases hget : p.handlerRegistry.get walk.currentNode with
    | error e => exact settles_pure _
    | ok handlerType =>
      obtain ⟨d, run, hrun⟩ := hhandler hexit handlerType (n :: place) c hget
      refine ⟨d, (run.ended.map fun ended =>
        (⟨ended.1, ended.2, (w.attempt (n :: place)).1, (w.attempt (n :: place)).2⟩ : AttemptEnd),
        [.executed walk.currentNode.id run.nested]), fun d' hd => ?_⟩
      have hresult : executeHandler w (runners w d') p (n :: place) handlerType walk.currentNode c =
          some run := hrun d' hd
      dsimp only
      rw [hresult]
      rfl

/-- The step bound ends the loop before its iterations are used up. -/
theorem runLoop_settles {goal : Option String} {context : PipelineContext} {first : Walk}
    (hfirst : start p.graph goal context = .ok first)
    (hhandler : ∀ n, (Call.run p).Visits n → ∀ handlerType place context,
      p.handlerRegistry.get n = .ok handlerType →
        Settles fun d => executeHandler w (runners w d) p place handlerType n context)
    (place : Place) (left : Nat) {walk : Walk}
    (hreach : Relation.ReflTransGen (LoopGoes p) first.currentNode walk.currentNode)
    (hsteps : walk.steps ≤ maxSteps p.graph) (hleft : maxSteps p.graph < walk.steps + left) :
    Settles fun d => runLoop w (runners w d) p place left walk := by
  induction left generalizing walk with
  | zero => omega
  | succ left ih =>
    have hit := nestedIterate_settles (fun hexit handlerType place context hget =>
      hhandler walk.currentNode ⟨hexit, goal, _, first, hfirst, hreach⟩ handlerType place context
        hget) (left :: place)
    refine hit.bind fun d it hreturns => ?_
    obtain ⟨tick, htick⟩ := nestedIterate_returns hreturns
    cases hnext : it.next with
    | goto m next =>
      have hgoto : (iterate p tick walk).next = .goto m next := by rw [htick, hnext]
      obtain ⟨hone, hmax⟩ := (iterate_case p tick walk).steps hgoto
      have hgoes : LoopGoes p walk.currentNode next.currentNode :=
        ⟨tick, walk, m, next, hgoto, rfl, rfl⟩
      refine (settles_some _).bind fun _ _ _ => ih (hreach.tail hgoes) ?_ ?_
      · omega
      · push_cast at hleft
        omega
    | halt h s =>
      cases h with
      | returned o => exact settles_pure _
      | raised e => exact settles_pure _

end Walks

/-- Nested execution terminates.  A call returns when no endless descent begins
at it and no parallel node in its nest waits for ever. -/
theorem nested_execution_terminates [JsonReader] {w : World} {c : Call} (hnest : Acc (Opens w) c)
    (hfree : Unblocked w c) : c.Terminates w := by
  induction hnest with
  | intro c _ ih =>
    have hhandler : ∀ n, c.Visits n → ∀ handlerType place context,
        c.engine.handlerRegistry.get n = .ok handlerType →
          Settles fun d => executeHandler w (runners w d) c.engine place handlerType n context := by
      intro n hn handlerType place context hget
      refine executeHandler_settles (fun c' hstarts => ?_) hget (hfree c .refl n hn) place context
      have hopens : Opens w c' c := ⟨n, hn, hstarts⟩
      exact ih c' hopens fun c'' hreach => hfree c'' (.head hopens hreach)
    cases c with
    | walk p root =>
      intro place context
      refine Settles.shift (f := fun d => runSubgraph w (runners w d) p place root context) ?_
        fun _ => rfl
      unfold runSubgraph
      cases hfirst : p.graph.node? root with
      | none => exact settles_pure _
      | some first => exact subgraphSteps_settles hfirst hhandler place _ .refl none context
    | run p =>
      intro place goal context
      refine Settles.shift (f := fun d => runEngine w (runners w d) p place goal context) ?_
        fun _ => rfl
      unfold runEngine
      cases hfirst : start p.graph goal context with
      | error e => exact settles_pure _
      | ok first =>
        have hzero : first.steps = 0 := by
          obtain ⟨n, -, rfl⟩ := start_ok hfirst
          rfl
        have hnonneg : 0 ≤ maxSteps p.graph :=
          Int.mul_nonneg (Int.natCast_nonneg _) (by decide)
        refine runLoop_settles hfirst hhandler place _ .refl ?_ ?_
        · rw [hzero]
          exact hnonneg
        · rw [hzero]
          omega

end Termination

section Demo

open Py.Ascii

theorem Goes.enters {p : PipelineEngine} {n m : Node} (h : Goes p n m) : Enters p n m := by
  obtain ⟨hn, o, c, e, ho, he, hm⟩ := h
  exact .edge hn ho he hm

/-- A walk visits nodes of the closed set it starts in. -/
theorem visits_closed {p : PipelineEngine} {root : String} {n : Node}
    (h : (Call.walk p root).Visits n) (ids : List String) (hc : p.graph.closed ids = true)
    (hroot : root ∈ ids) :
    n.id ∈ ids ∧ p.graph.node? n.id = some n ∧ n.isSubgraphTerminal = false := by
  obtain ⟨hterminal, -, first, hfirst, hreach⟩ := h
  have henters := Relation.ReflTransGen.mono (fun _ _ => Goes.enters) _ _ hreach
  refine ⟨mem_of_reach hc henters (node?_id hfirst) ?_, stored_of_reach henters (node?_id hfirst),
    hterminal⟩
  rw [p.graph.id_of_node? hfirst]
  exact hroot

/-- Of the nodes behind the parallel one only that one starts walks. -/
theorem fork_node {n : Node} (hmem : n.id ∈ ["fork", "gate", "other", "join"])
    (hstored : forkPipeline.graph.node? n.id = some n) (hterminal : n.isSubgraphTerminal = false) :
    n = { id := "fork", shape := "component" } ∨
      (n.id ∈ ["gate", "other"] ∧ forkPipeline.handlerRegistry.get n = .ok "codergen") := by
  simp only [List.mem_cons, List.not_mem_nil, or_false] at hmem
  rcases hmem with hid | hid | hid | hid
  · rw [hid] at hstored
    cases hstored
    exact .inl rfl
  · rw [hid] at hstored
    cases hstored
    exact .inr ⟨by decide, rfl⟩
  · rw [hid] at hstored
    cases hstored
    exact .inr ⟨by decide, rfl⟩
  · rw [hid] at hstored
    cases hstored
    cases hterminal

theorem fork_opens {root : String} (hroot : root ∈ ["fork", "gate", "other", "join"]) {c : Call}
    (h : Opens succeedsEverywhere c (.walk forkPipeline root)) :
    root = "fork" ∧ ∃ branch ∈ ["gate", "other"], c = .walk forkPipeline branch := by
  obtain ⟨n, hvisits, hstarts⟩ := h
  obtain ⟨hmem, hstored, hterminal⟩ := visits_closed hvisits _ (by decide) hroot
  rcases fork_node hmem hstored hterminal with rfl | ⟨-, hget⟩
  · refine ⟨?_, ?_⟩
    · by_contra hne
      have hbranch : root ∈ ["gate", "other", "join"] := (List.mem_cons.mp hroot).resolve_left hne
      obtain ⟨hno, -, -⟩ := visits_closed hvisits _ (by decide) hbranch
      exact absurd hno (by decide)
    · cases hstarts with
      | branch ht he =>
        rcases List.mem_pair.mp he with rfl | rfl
        · exact ⟨"gate", by decide, rfl⟩
        · exact ⟨"other", by decide, rfl⟩
      | child ht hd he => exact absurd (Except.ok.inj ht) (by decide)
      | childGraph ht hd hg => cases hg
      | folder ht hd hg => cases hg
  · cases hstarts with
    | branch ht he => exact absurd (Except.ok.inj (ht.symm.trans hget)) (by decide)
    | child ht hd he => exact absurd (Except.ok.inj (ht.symm.trans hget)) (by decide)
    | childGraph ht hd hg => exact absurd (Except.ok.inj (ht.symm.trans hget)) (by decide)
    | folder ht hd hg => exact absurd (Except.ok.inj (ht.symm.trans hget)) (by decide)

/-- The branches start no walks, so the nest is two calls deep. -/
theorem nested_execution_terminates_fork :
    (Call.walk forkPipeline "fork").Terminates succeedsEverywhere := by
  have hbranch : ∀ root ∈ ["gate", "other"], root ∈ ["fork", "gate", "other", "join"] ∧
      ∀ c, ¬Opens succeedsEverywhere c (.walk forkPipeline root) := by
    intro root hroot
    have hmem : root ∈ ["fork", "gate", "other", "join"] :=
      List.mem_cons_of_mem _ (List.mem_append_left ["join"] hroot)
    refine ⟨hmem, fun c hc => ?_⟩
    obtain ⟨rfl, -⟩ := fork_opens hmem hc
    exact absurd hroot (by decide)
  have hfree : ∀ root ∈ ["fork", "gate", "other", "join"], ∀ n,
      (Call.walk forkPipeline root).Visits n → ¬Blocks forkPipeline n := by
    intro root hroot n hn hblocks
    obtain ⟨hmem, hstored, hterminal⟩ := visits_closed hn _ (by decide) hroot
    rcases fork_node hmem hstored hterminal with rfl | ⟨-, hget⟩
    · exact absurd (Except.ok.inj hblocks.2.2) (by decide)
    · exact absurd (Except.ok.inj (hblocks.1.symm.trans hget)) (by decide)
  refine nested_execution_terminates (.intro _ fun c hc => ?_) fun c hreach n hn => ?_
  · obtain ⟨-, branch, hmem, rfl⟩ := fork_opens (by decide) hc
    exact .intro _ fun c hc => absurd hc ((hbranch branch hmem).2 c)
  · rcases hreach.cases_head with rfl | ⟨c', hfirst, hrest⟩
    · exact hfree "fork" (by decide) n hn
    · obtain ⟨-, branch, hmem, rfl⟩ := fork_opens (by decide) hfirst
      rcases hrest.cases_head with rfl | ⟨c'', hsecond, -⟩
      · exact hfree branch (hbranch branch hmem).1 n hn
      · exact absurd hsecond ((hbranch branch hmem).2 c'')

def ringFork : Node := { id := "fork", shape := "component" }

/-- A parallel node on its own branch. -/
def ringPipeline : PipelineEngine where
  graph := Graph.ofNodes
    [{ id := "begin", shape := "Mdiamond" }, { id := "fork", shape := "component" },
      { id := "work" }, { id := "done", shape := "Msquare" }]
    [{ fromNode := "begin", toNode := "fork" }, { fromNode := "fork", toNode := "work" },
      { fromNode := "work", toNode := "fork" }]
  logsRoot := "/logs"
  handlerRegistry := ⟨standardHandlers⟩

def ringStart : Walk where
  engine := { context := initializeContext ringPipeline.graph none 0 {} }
  currentNode := { id := "begin", shape := "Mdiamond" }

section Ring

variable {r : Runners} (h : ∀ place context, r.subgraph ringPipeline place "work" context = none)

include h

/-- The parallel node waits for a branch that comes back to it. -/
theorem ring_fork_waits (place : Place) (context : PipelineContext) :
    executeParallel succeedsEverywhere r ringPipeline place ringFork context = none := by
  have hbranch : runBranch r ringPipeline place context 0 "work" = none := by
    unfold runBranch
    rw [h]
    rfl
  have hbranches : runBranches r ringPipeline place context [{ fromNode := "fork", toNode := "work" }]
      [[0]] = none := by
    unfold runBranches
    simp only [List.mapM_cons, List.mapM_nil, List.getElem?_cons_zero, Option.bind_some, hbranch]
    rfl
  show Option.map _ (runBranches r ringPipeline place context
    [{ fromNode := "fork", toNode := "work" }] [[0]]) = none
  rw [hbranches]
  rfl

theorem ring_walk_waits (place : Place) (context : PipelineContext) :
    runSubgraph succeedsEverywhere r ringPipeline place "work" context = none := by
  have hwork : subgraphStep succeedsEverywhere r ringPipeline (199 :: place) { id := "work" } none
      context = some (.done (.goto ringFork (applyOutcome context { status := .success })
        { status := .success }), [.executed "work" []]) := rfl
  have hfork : ∀ last c, subgraphStep succeedsEverywhere r ringPipeline (198 :: place) ringFork last c =
      none := by
    intro last c
    have hget : ringPipeline.handlerRegistry.get ringFork = .ok "parallel" := rfl
    exact subgraphStep_waits rfl rfl rfl hget rfl (ring_fork_waits h _ c)
  have hnode : ringPipeline.graph.node? "work" = some { id := "work" } := rfl
  have hsteps : (maxSteps ringPipeline.graph).toNat = 199 + 1 := by decide
  unfold runSubgraph
  rw [hnode]
  dsimp only
  rw [hsteps]
  rw [subgraphSteps_goto hwork, subgraphSteps_none (hfork _ _)]
  rfl

end Ring

theorem ring_branch_waits (d : Nat) (place : Place) (context : PipelineContext) :
    (runners succeedsEverywhere d).subgraph ringPipeline place "work" context = none := by
  induction d generalizing place context with
  | zero => rfl
  | succ d ih => exact ring_walk_waits ih place context

theorem ring_run_waits (d : Nat) : (runners succeedsEverywhere d).run ringPipeline [] none {} =
    none := by
  cases d with
  | zero => rfl
  | succ d =>
    have hwaits : ∀ walk place, walk.currentNode = ringFork → walk.resumeOutcome = none →
        walk.steps = 1 → walk.engine.failedOutputs = Dict.empty →
        nestedIterate succeedsEverywhere (runners succeedsEverywhere d) ringPipeline place walk =
          none := by
      intro walk place hnode hresume hsteps hfailed
      obtain ⟨policy, hpolicy⟩ : ∃ policy,
        RetryPolicy.fromNode ringFork ringPipeline.graph = .ok policy := ⟨_, rfl⟩
      have hget : ringPipeline.handlerRegistry.get ringFork = .ok "parallel" := rfl
      have htimeout : nodeTimeout ringFork = .ok none := rfl
      rw [← hnode] at hpolicy hget htimeout
      refine iterateIn_waits ?_ ?_ hresume ?_ hget hpolicy htimeout rfl fun n c => ?_
      · rw [hsteps]
        rfl
      · rw [hnode]
        rfl
      · rw [hnode, hfailed]
        rfl
      · rw [hnode] at hget ⊢
        exact attemptAt_waits rfl hget (ring_fork_waits (ring_branch_waits d) _ c)
    show runLoop succeedsEverywhere (runners succeedsEverywhere d) ringPipeline [] 201 ringStart = none
    obtain ⟨it, l, m, next, hfirst, hnext, hnode, hresume, hsteps, hfailed⟩ : ∃ it l m next,
        nestedIterate succeedsEverywhere (runners succeedsEverywhere d) ringPipeline [200] ringStart =
          some (.done it, l) ∧ it.next = .goto m next ∧ next.currentNode = ringFork ∧
          next.resumeOutcome = none ∧ next.steps = 1 ∧ next.engine.failedOutputs = Dict.empty :=
      ⟨_, _, _, _, rfl, rfl, rfl, rfl, rfl, rfl⟩
    rw [runLoop_goto hfirst hnext, runLoop_none (hwaits next [199] hnode hresume hsteps hfailed)]
    rfl

/-- The run of a parallel node that is on its own branch does not return, however
deep calls may nest. -/
theorem ring_never_returns :
    (∀ d, (runners succeedsEverywhere d).run ringPipeline [] none {} = none) ∧
      ¬(Call.run ringPipeline).Terminates succeedsEverywhere := by
  refine ⟨ring_run_waits, fun h => ?_⟩
  obtain ⟨d, a, hd⟩ := h [] none {}
  have hsome : (runners succeedsEverywhere d).run ringPipeline [] none {} = some a :=
    hd d (Nat.le_refl d)
  rw [ring_run_waits d] at hsome
  cases hsome

end Demo

end DotRunner
