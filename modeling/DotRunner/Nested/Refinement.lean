import DotRunner.Engine.Steps
import DotRunner.Nested.Subgraph
import DotRunner.Py.Ascii

/-!
# Nested runs are runs

An iteration whose handlers start walks of their own is an iteration whose
attempts end as those handlers do, so every run of the nested engine is a run of
the engine.  What an iteration logs was executed at its node.
-/

namespace DotRunner

open Py Approx

section Refinement

variable [Runtime] [JsonReader]

/-! ## Attempts by how they end -/

def Tick.performing (tick : Tick) (perform : Nat → PipelineContext → AttemptEnd) : Tick :=
  { tick with run := { tick.run with perform := perform } }

section Values

variable {perform : Nat → PipelineContext → Nest AttemptEnd}
  {perform' : Nat → PipelineContext → AttemptEnd}
  (hp : ∀ n c a, (perform n c).Returns a → perform' n c = a)

include hp

theorem runAttempts_returns {node : Node} {logsRoot : String} {nodeStartWall : Int}
    {maxAttempts left attempt : Nat} {last : Option Outcome} {context : PipelineContext}
    {disk : Disk} {r : LadderRun}
    (h : (runAttempts perform node logsRoot nodeStartWall maxAttempts left attempt last context
      disk).Returns r) :
    Id.run (runAttempts perform' node logsRoot nodeStartWall maxAttempts left attempt last context
      disk) = r := by
  induction left generalizing attempt last context disk with
  | zero => exact (Logged.returns_pure h).symm
  | succ left ih =>
    obtain ⟨a, ha, hrest⟩ := Logged.returns_bind h
    have hsame : Id.run (perform' attempt context) = a := hp attempt context a ha
    unfold runAttempts
    rw [Id.run_bind, hsame]
    split at hrest
    · exact (Logged.returns_pure hrest).symm
    · exact ih hrest

theorem awaitNodeIn_returns {p : PipelineEngine} {node : Node} {policy : RetryPolicy}
    {timeout : Option PyFloat} {run : NodeRun} {context : PipelineContext}
    {r : NodeEnd × PipelineContext}
    (h : (awaitNodeIn Logged.abandon p node policy timeout run perform context).Returns r) :
    Id.run (awaitNodeIn forget p node policy timeout { run with perform := perform' } perform'
      context) = r := by
  have hfinished : ∀ r, (do
        let l ← executeWithRetry perform node context p.logsRoot policy run.ladderWall run.disk
        pure (l.result.nodeEnd, l.context) : Nest (NodeEnd × PipelineContext)).Returns r →
      Id.run (do
        let l ← executeWithRetry perform' node context p.logsRoot policy run.ladderWall run.disk
        pure (l.result.nodeEnd, l.context)) = r := by
    intro r hr
    obtain ⟨l, hl, hpure⟩ := Logged.returns_bind hr
    rw [Id.run_bind]
    unfold executeWithRetry at hl ⊢
    rw [runAttempts_returns hp hl]
    exact (Logged.returns_pure hpure).symm
  unfold awaitNodeIn at h ⊢
  dsimp only at h ⊢
  split at h
  · rename_i hexpired
    rw [if_pos hexpired]
    cases hbound : waitBound p.graph run.startMs timeout with
    | unbounded =>
      rw [hbound] at h
      exact hfinished r h
    | fuse =>
      rw [hbound] at h
      obtain ⟨_, -, hpure⟩ := Logged.returns_bind h
      exact (Logged.returns_pure hpure).symm
    | nodeTimeout t =>
      rw [hbound] at h
      obtain ⟨_, -, hpure⟩ := Logged.returns_bind h
      exact (Logged.returns_pure hpure).symm
  · rename_i hexpired
    rw [if_neg hexpired]
    exact hfinished r h

theorem executeNodeIn_returns {p : PipelineEngine} {tick : Tick} {w : Walk} {it : IterEnd}
    (h : (executeNodeIn Logged.abandon p tick perform w).Returns it) :
    executeNode p (tick.performing perform') w = it := by
  unfold executeNode executeNodeIn
  unfold executeNodeIn at h
  cases hget : p.handlerRegistry.get w.currentNode with
  | error e =>
    rw [hget] at h
    exact (Logged.returns_pure h).symm
  | ok handlerType =>
    rw [hget] at h
    dsimp only at h ⊢
    cases hpolicy : RetryPolicy.fromNode w.currentNode p.graph with
    | error e =>
      rw [hpolicy] at h
      exact (Logged.returns_pure h).symm
    | ok policy =>
      cases htimeout : nodeTimeout w.currentNode with
      | error e =>
        rw [hpolicy, htimeout] at h
        exact (Logged.returns_pure h).symm
      | ok timeout =>
        rw [hpolicy, htimeout] at h
        obtain ⟨ended, hended, hpure⟩ := Logged.returns_bind h
        rw [Id.run_bind]
        have hsame := awaitNodeIn_returns hp hended
        show Id.run (pure (finishNode p (tick.performing perform') _ (Id.run (awaitNodeIn forget p
          w.currentNode policy timeout { tick.run with perform := perform' } perform' _)))) = it
        rw [hsame]
        exact (Logged.returns_pure hpure).symm

/-- An iteration in any world is one whose attempts end as they do there. -/
theorem iterateIn_returns {p : PipelineEngine} {tick : Tick} {w : Walk} {it : IterEnd}
    (h : (iterateIn Logged.abandon p tick perform w).Returns it) :
    iterate p (tick.performing perform') w = it := by
  rw [iterate_eq, visit_eq]
  unfold iterateIn at h
  dsimp only at h
  cases hguard : guardLoop p tick { w with steps := w.steps + 1 } with
  | some o =>
    have hguard' : guardLoop p (tick.performing perform') { w with steps := w.steps + 1 } = some o :=
      hguard
    rw [hguard']
    rw [hguard] at h
    exact (Logged.returns_pure h).symm
  | none =>
    have hguard' : guardLoop p (tick.performing perform') { w with steps := w.steps + 1 } = none :=
      hguard
    rw [hguard']
    rw [hguard] at h
    unfold visitIn at h
    dsimp only at h ⊢
    split at h
    · rename_i hexit
      rw [if_pos hexit]
      exact (Logged.returns_pure h).symm
    · rename_i hexit
      rw [if_neg hexit]
      split at h
      · exact (Logged.returns_pure h).symm
      · split at h
        · rename_i keys hskip
          have hskip' : checkNodeSkip (tick.performing perform').ord w.currentNode
              w.engine.failedOutputs = some keys := hskip
          rw [hskip']
          exact (Logged.returns_pure h).symm
        · rename_i hskip
          have hskip' : checkNodeSkip (tick.performing perform').ord w.currentNode
              w.engine.failedOutputs = none := hskip
          rw [hskip']
          exact executeNodeIn_returns hp h

end Values

/-! ## What is executed -/

omit [JsonReader] in
/-- The execution is one of the node, by the handler of its type. -/
def ExecutedAt (w : World) (r : Runners) (p : PipelineEngine) (node : Node) (x : Mark) : Prop :=
  ∃ place handlerType context run, p.handlerRegistry.get node = .ok handlerType ∧
    executeHandler w r p place handlerType node context = some run ∧
      x = .executed node.id run.nested

omit [JsonReader] in
theorem attemptAt_logs {w : World} {r : Runners} {p : PipelineEngine} {place : Place} {node : Node}
    (attempt : Nat) (context : PipelineContext) :
    (attemptAt w r p place node attempt context).Logs (ExecutedAt w r p node) := by
  intro e l h x hx
  unfold attemptAt at h
  dsimp only at h
  split at h
  · cases h
    exact absurd hx List.not_mem_nil
  · split at h
    · cases h
      exact absurd hx List.not_mem_nil
    · rename_i handlerType hget
      split at h
      · cases h
      · rename_i run hrun
        cases h
        obtain rfl := List.mem_singleton.mp hx
        exact ⟨_, handlerType, context, run, hget, hrun, rfl⟩

section Logs

variable {P : Mark → Prop} {perform : Nat → PipelineContext → Nest AttemptEnd}
  (hp : ∀ n c, (perform n c).Logs P)

include hp

theorem runAttempts_logs {node : Node} {logsRoot : String} {nodeStartWall : Int}
    {maxAttempts left attempt : Nat} {last : Option Outcome} {context : PipelineContext}
    {disk : Disk} :
    (runAttempts perform node logsRoot nodeStartWall maxAttempts left attempt last context
      disk).Logs P := by
  induction left generalizing attempt last context disk with
  | zero => exact Logged.logs_pure P _
  | succ left ih =>
    refine Logged.logs_bind (hp attempt context) fun a => ?_
    split
    · exact Logged.logs_pure P _
    · exact ih

theorem awaitNodeIn_logs {p : PipelineEngine} {node : Node} {policy : RetryPolicy}
    {timeout : Option PyFloat} {run : NodeRun} {context : PipelineContext} :
    (awaitNodeIn Logged.abandon p node policy timeout run perform context).Logs P := by
  have hladder : (executeWithRetry perform node context p.logsRoot policy run.ladderWall
      run.disk).Logs P := runAttempts_logs hp
  unfold awaitNodeIn
  dsimp only
  split
  · split
    · exact Logged.logs_bind hladder fun _ => Logged.logs_pure P _
    · exact Logged.logs_bind (Logged.logs_abandon hladder) fun _ => Logged.logs_pure P _
    · exact Logged.logs_bind (Logged.logs_abandon hladder) fun _ => Logged.logs_pure P _
  · exact Logged.logs_bind hladder fun _ => Logged.logs_pure P _

end Logs

/-- An iteration that executes something has come to the execution of its node. -/
theorem iterateIn_executes {p : PipelineEngine} {tick : Tick} {w : Walk}
    {perform : Nat → PipelineContext → Nest AttemptEnd} {r : Finish IterEnd} {l : List Mark}
    (h : iterateIn Logged.abandon p tick perform w = some (r, l)) (hl : l ≠ []) :
    w.currentNode.isExitNode = false ∧
      executeNodeIn Logged.abandon p tick perform { w with steps := w.steps + 1 } = some (r, l) := by
  have hpure : ∀ it : IterEnd, (pure it : Nest IterEnd) ≠ some (r, l) := by
    intro it heq
    cases heq
    exact hl rfl
  unfold iterateIn visitIn at h
  dsimp only at h
  split at h
  · exact absurd h (hpure _)
  · split at h
    · exact absurd h (hpure _)
    · rename_i hexit
      split at h
      · exact absurd h (hpure _)
      · split at h
        · exact absurd h (hpure _)
        · exact ⟨eq_false_of_ne_true hexit, h⟩

/-- What an iteration logs was executed at its node. -/
theorem nestedIterate_logs {w : World} {r : Runners} {p : PipelineEngine} {place : Place}
    {walk : Walk} : (nestedIterate w r p place walk).Logs (ExecutedAt w r p walk.currentNode) := by
  intro e l h x hx
  obtain ⟨-, hexec⟩ := iterateIn_executes h (List.ne_nil_of_mem hx)
  unfold executeNodeIn at hexec
  split at hexec
  · cases hexec
    exact absurd hx List.not_mem_nil
  · dsimp only at hexec
    split at hexec
    · cases hexec
      exact absurd hx List.not_mem_nil
    · cases hexec
      exact absurd hx List.not_mem_nil
    · exact Logged.logs_bind (awaitNodeIn_logs attemptAt_logs) (fun _ => Logged.logs_pure _ _) e l
        hexec x hx

omit [JsonReader] in
theorem finishNode_goto {p : PipelineEngine} {tick : Tick} {w w' : Walk}
    {ended : NodeEnd × PipelineContext} {m : Move}
    (h : (finishNode p tick w ended).next = .goto m w') :
    ∃ (w₁ : Walk) (o : Outcome), w₁.currentNode = w.currentNode ∧ w₁.route p.graph tick.ord o = .goto m w' := by
  unfold finishNode at h
  dsimp only at h
  split at h
  · cases h
  · cases h
  · cases h
  · split at h
    · cases h
    · split at h
      · cases h
      · split at h
        · cases h
        · refine ⟨_, _, ?_, h⟩
          rfl

/-- A walk that goes on from a node it executed is routed from it. -/
theorem nestedIterate_routes {w : World} {r : Runners} {p : PipelineEngine} {place : Place}
    {walk walk' : Walk} {it : IterEnd} {l : List Mark} {m : Move}
    (h : nestedIterate w r p place walk = some (.done it, l)) (hl : l ≠ [])
    (hnext : it.next = .goto m walk') :
    walk.currentNode.isExitNode = false ∧ ∃ (w₁ : Walk) (o : Outcome), w₁.currentNode = walk.currentNode ∧
      w₁.route p.graph (w.tick place).ord o = .goto m walk' := by
  obtain ⟨hexit, hexec⟩ := iterateIn_executes h hl
  refine ⟨hexit, ?_⟩
  unfold executeNodeIn at hexec
  split at hexec
  · cases hexec
    exact absurd rfl hl
  · dsimp only at hexec
    split at hexec
    · cases hexec
      exact absurd rfl hl
    · cases hexec
      exact absurd rfl hl
    · obtain ⟨ended, -, hpure⟩ := Logged.returns_bind ⟨l, hexec⟩
      rw [Logged.returns_pure hpure] at hnext
      obtain ⟨w₁, o, hnode, hroute⟩ := finishNode_goto hnext
      exact ⟨w₁, o, hnode, hroute⟩

/-! ## Runs -/

def Halt.ended : Halt → Except PyExc Outcome
  | .returned o => .ok o
  | .raised e => .error e

/-- What an attempt came to, if it returned. -/
def attemptOr (fallback : AttemptEnd) : Nest AttemptEnd → AttemptEnd
  | some (.done a, _) => a
  | _ => fallback

theorem nestedIterate_returns {w : World} {r : Runners} {p : PipelineEngine} {place : Place}
    {walk : Walk} {it : IterEnd} (h : (nestedIterate w r p place walk).Returns it) :
    ∃ tick, iterate p tick walk = it := by
  have hvalue : ∀ n c a, (attemptAt w r p place walk.currentNode n c).Returns a →
      attemptOr ⟨.childDot "", c, 0, ⟨"/", fun _ => .absent⟩⟩
        (attemptAt w r p place walk.currentNode n c) = a := by
    rintro n c a ⟨l, hl⟩
    rw [hl]
    rfl
  exact ⟨_, iterateIn_returns hvalue h⟩

theorem runLoop_runs {w : World} {r : Runners} {p : PipelineEngine} {place : Place} {left : Nat}
    {walk : Walk} {h : List Event} {docs : List Value} {e : RunEnd}
    (run : Runs p h docs (some walk)) (hr : (runLoop w r p place left walk).Returns e) :
    ∃ h' docs' walk' tick halt, Runs p h' docs' (some walk') ∧
      (iterate p tick walk').next = .halt halt e.engine ∧ e.ended = halt.ended := by
  induction left generalizing walk h docs with
  | zero =>
    obtain ⟨l, hl⟩ := hr
    cases hl
  | succ left ih =>
    obtain ⟨it, hit, hrest⟩ := Logged.returns_bind hr
    obtain ⟨tick, htick⟩ := nestedIterate_returns hit
    split at hrest
    · rename_i m next hnext
      have hstep : (engineSystem p).step walk (.iterated walk tick)
          ((iterate p tick walk).saved.map Written.doc) (some next) :=
        ⟨tick, rfl, rfl, by rw [htick, hnext]; rfl⟩
      obtain ⟨-, -, hrest⟩ := Logged.returns_bind hrest
      exact ih (Recovery.Run.step run hstep) hrest
    · rename_i o s hnext
      rw [Logged.returns_pure hrest]
      exact ⟨h, docs, walk, tick, .returned o, run, by rw [htick, hnext], rfl⟩
    · rename_i x s hnext
      rw [Logged.returns_pure hrest]
      exact ⟨h, docs, walk, tick, .raised x, run, by rw [htick, hnext], rfl⟩

/-- However its handlers nest, an engine that begins to walk ends as a run of the
engine ends. -/
theorem runEngine_runs {w : World} {r : Runners} {p : PipelineEngine} {place : Place}
    {goal : Option String} {context : PipelineContext} {walk : Walk} {e : RunEnd}
    (hs : start p.graph goal context = .ok walk)
    (hr : (runEngine w r p place goal context).Returns e) :
    ∃ h docs walk' tick halt, Runs p h docs (some walk') ∧
      (iterate p tick walk').next = .halt halt e.engine ∧ e.ended = halt.ended := by
  unfold runEngine at hr
  rw [hs] at hr
  exact runLoop_runs (Recovery.Run.fresh ⟨goal, context, hs⟩) hr

end Refinement

section Demo

open Py.Ascii

/-- A parallel node with a goal gate on one of its branches. -/
def forkPipeline : PipelineEngine where
  graph := Graph.ofNodes
    [{ id := "begin", shape := "Mdiamond" }, { id := "fork", shape := "component" },
      { id := "gate", goalGate := .bool true }, { id := "other" },
      { id := "join", shape := "tripleoctagon" }, { id := "done", shape := "Msquare" }]
    [{ fromNode := "begin", toNode := "fork" }, { fromNode := "fork", toNode := "gate" },
      { fromNode := "fork", toNode := "other" }, { fromNode := "gate", toNode := "join" },
      { fromNode := "other", toNode := "join" }, { fromNode := "join", toNode := "done" }]
  logsRoot := "/logs"
  handlerRegistry := ⟨standardHandlers⟩

def forkStart : Walk where
  engine := { context := initializeContext forkPipeline.graph none 0 {} }
  currentNode := { id := "begin", shape := "Mdiamond" }

theorem forkStart_runs : Runs forkPipeline [] [] (some forkStart) :=
  Recovery.Run.fresh ⟨none, {}, rfl⟩

def succeedsEverywhere : World := World.calm fun _ => .returned { status := .success }

/-- What a run that returned logs. -/
def logOf (x : Option (Finish RunEnd × List Mark)) : Option (List Mark) :=
  match x with
  | some (.done _, l) => some l
  | _ => none

/-- What a run of it logs, every handler succeeding. -/
def forkLog : List Mark :=
  [.executed "begin" [], .went "fork", .executed "fork" [["gate"], ["other"]], .went "join",
    .executed "join" [], .went "done"]

example : logOf (runEngine succeedsEverywhere (runners succeedsEverywhere 1) forkPipeline [] none
    {}) = some forkLog := by decide +kernel

end Demo

end DotRunner
