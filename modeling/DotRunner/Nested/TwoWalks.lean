import DotRunner.Engine.Steps
import DotRunner.Nested.Subgraph
import DotRunner.Py.Ascii

/-!
# Two walkers of one graph

`run_subgraph` and `_run_loop`, from the same node, with the same context and with
handlers that end alike.  The steps at which the two do the same are described
once; walks made of such steps agree to their end.
-/

namespace DotRunner

open Py Approx

section Walkers

variable [Runtime]

/-! ## The subgraph walk -/

/-- How the first attempt at a node ends, and the context it leaves. -/
def Tick.handled (tick : Tick) (context : PipelineContext) : HandlerEnd × PipelineContext :=
  ((tick.run.perform 1 context).handler, (tick.run.perform 1 context).context)

/-- A step of a subgraph walk whose handler ends as the tick says. -/
def subgraphVisit (p : PipelineEngine) (tick : Tick) (node : Node) (last : Option Outcome)
    (context : PipelineContext) : SubgraphStep :=
  if node.isSubgraphTerminal then .ended ⟨.ok (last.getD reachedTerminal), context, some node.id⟩
  else match p.handlerRegistry.get node with
    | .error e => .ended ⟨.error e, context, none⟩
    | .ok _ =>
      if node.isStartNode then
        afterSubgraphNode p.graph node (.returned { status := .success }, context)
      else afterSubgraphNode p.graph node (tick.handled context)

/-- The step of the nested walk, by how its handler ended. -/
theorem subgraphStep_eq_visit {w : World} {r : Runners} {p : PipelineEngine} {place : Place}
    {tick : Tick} {node : Node} {last : Option Outcome} {context : PipelineContext}
    (hcut : w.cut place = false) (hcancelled : w.cancelled place = false)
    (hhandler : ∀ handlerType, p.handlerRegistry.get node = .ok handlerType →
      ∃ nested, executeHandler w r p place handlerType node context =
        some ⟨.done (tick.handled context), nested⟩) :
    ∃ l, subgraphStep w r p place node last context =
      some (.done (subgraphVisit p tick node last context), l) := by
  unfold subgraphStep subgraphVisit
  rw [hcut, hcancelled]
  simp only [Bool.false_eq_true, if_false]
  split
  · exact ⟨_, rfl⟩
  · cases hget : p.handlerRegistry.get node with
    | error e => exact ⟨_, rfl⟩
    | ok handlerType =>
      dsimp only
      split
      · exact ⟨_, rfl⟩
      · obtain ⟨nested, hexecuted⟩ := hhandler handlerType hget
        rw [hexecuted]
        exact ⟨_, rfl⟩

/-- The nodes a step of the subgraph walk goes through; a start node counts, though
its handler is not called. -/
def subgraphExecuted (p : PipelineEngine) (node : Node) : List Node :=
  if !node.isSubgraphTerminal && (p.handlerRegistry.get node).isOk then [node] else []

/-- At most so many steps, each with the tick of the steps that are left. -/
def subgraphWalk (p : PipelineEngine) (ticks : Nat → Tick) :
    Nat → Node → Option Outcome → PipelineContext → List Node × SubgraphEnd
  | 0, _, _, context => ([], cutShort (subgraphExceeded p.graph) context)
  | left + 1, node, last, context =>
    match subgraphVisit p (ticks (left + 1)) node last context with
    | .ended e => (subgraphExecuted p node, e)
    | .goto next context' o =>
      let rest := subgraphWalk p ticks left next (some o) context'
      (subgraphExecuted p node ++ rest.1, rest.2)

/-- The nested walk, its handlers ending as the ticks say. -/
theorem subgraphSteps_eq_walk {w : World} {r : Runners} {p : PipelineEngine} {place : Place}
    {ticks : Nat → Tick}
    (hworld : ∀ left, w.cut (left :: place) = false ∧ w.cancelled (left :: place) = false)
    (hhandler : ∀ left node context handlerType, p.handlerRegistry.get node = .ok handlerType →
      ∃ nested, executeHandler w r p (left :: place) handlerType node context =
        some ⟨.done ((ticks (left + 1)).handled context), nested⟩)
    (left : Nat) (node : Node) (last : Option Outcome) (context : PipelineContext) :
    ∃ l, subgraphSteps w r p place left node last context =
      some (.done (subgraphWalk p ticks left node last context).2, l) := by
  induction left generalizing node last context with
  | zero => exact ⟨_, rfl⟩
  | succ left ih =>
    obtain ⟨l, hstep⟩ := @subgraphStep_eq_visit _ w r p (left :: place) (ticks (left + 1)) node last
      context (hworld left).1 (hworld left).2 (hhandler left node context)
    unfold subgraphWalk
    cases hvisit : subgraphVisit p (ticks (left + 1)) node last context with
    | ended e =>
      rw [hvisit] at hstep
      exact ⟨_, subgraphSteps_ended hstep⟩
    | goto next context' o =>
      rw [hvisit] at hstep
      obtain ⟨l', hrest⟩ := ih next (some o) context'
      refine ⟨l ++ ([.went next.id] ++ l'), ?_⟩
      rw [subgraphSteps_goto hstep, hrest]
      rfl

end Walkers

section Agreement

variable [Runtime] [JsonReader]

/-! ## The main walk -/

/-- The nodes an iteration of the main loop goes through. -/
def mainExecuted (p : PipelineEngine) (tick : Tick) (w : Walk) : List Node :=
  if (guardLoop p tick w.counted).isNone && !w.currentNode.isExitNode && w.resumeOutcome.isNone &&
      (checkNodeSkip tick.ord w.currentNode w.engine.failedOutputs).isNone &&
      (p.handlerRegistry.get w.currentNode).isOk then [w.currentNode]
  else []

/-- Past the guards of the loop, at a node where a subgraph walk would end though
it is no exit. -/
def atFanIn (p : PipelineEngine) (tick : Tick) (w : Walk) : Bool :=
  (guardLoop p tick w.counted).isNone && !w.currentNode.isExitNode &&
    w.currentNode.shape == "tripleoctagon"

/-- The main walk to its end or to the first fan-in node. -/
def mainWalk (p : PipelineEngine) (ticks : Nat → Tick) : Nat → Walk → Option (List Node × RunEnd)
  | 0, _ => none
  | left + 1, w =>
    if atFanIn p (ticks left) w then
      some ([], ⟨.ok (w.engine.lastOutcome.getD reachedTerminal), w.engine⟩)
    else match (iterate p (ticks left) w).next with
      | .goto _ next => (mainWalk p ticks left next).map fun rest =>
        (mainExecuted p (ticks left) w ++ rest.1, rest.2)
      | .halt (.returned o) s => some (mainExecuted p (ticks left) w, ⟨.ok o, s⟩)
      | .halt (.raised e) s => some (mainExecuted p (ticks left) w, ⟨.error e, s⟩)

/-- Both walks went through the same nodes, left the same context and came to the
same verdict. -/
structure SameWalk (a : List Node × SubgraphEnd) (b : List Node × RunEnd) : Prop where
  executed : a.1 = b.1
  context : a.2.context = b.2.engine.context
  verdict : a.2.ended.map Outcome.isSuccess = b.2.ended.map Outcome.isSuccess

/-- The main walk that begins at the node, with nothing recorded. -/
def entryWalk (node : Node) (context : PipelineContext) : Walk where
  engine := { context := context }
  currentNode := node

/-- From the node and with the context, the two walks agree. -/
def WalksAgree (p : PipelineEngine) (ticks : Nat → Tick) (entry : Node)
    (context : PipelineContext) : Prop :=
  ∃ run, mainWalk p ticks ((maxSteps p.graph).toNat + 1) (entryWalk entry context) = some run ∧
    SameWalk (subgraphWalk p ticks (maxSteps p.graph).toNat entry none context) run

/-! ## Steps both walkers take alike -/

/-- The node asks for none of what the main loop alone provides. -/
structure Node.Plain (n : Node) : Prop where
  maxRetries : n.attr "max_retries" = .none
  timeout : n.timeout = .none
  retryTarget : n.attr "retry_target" = .none
  fallbackRetryTarget : n.attr "fallback_retry_target" = .none

/-- No node of the graph declares retries, a timeout or a retry target, and the
graph declares no retries for them. -/
structure Graph.Plain (g : Graph) : Prop where
  node : ∀ id n, g.node? id = some n → n.Plain
  defaultMaxRetry : g.defaultMaxRetry = .none ∨ g.defaultMaxRetry = .int 0

/-- The handler returned an outcome that the main loop keeps as it is, and that both
walkers route alike. -/
structure KeepsOutcome (p : PipelineEngine) (tick : Tick) (w : Walk) (o : Outcome)
    (context : PipelineContext) : Prop where
  /-- the handler of a start node only passes -/
  start : w.currentNode.isStartNode = true →
    o = { status := .success } ∧ context = w.engine.context
  awaited : tick.run.expired = false
  uncancelled : tick.run.cancelledAfter = false
  override : readStatusOverride w.currentNode p.logsRoot
    (tick.run.perform 1 w.engine.context).startWall o
    (tick.run.perform 1 w.engine.context).disk = .ok none
  final : o.status ≠ .retry
  unpromoted : (resolveBoolAttr w.currentNode.autoStatus && o.status == .skipped) = false
  written : checkMustWrite w.currentNode o tick.run.ladderWall context
    (tick.run.perform 1 w.engine.context).disk = .ok none
  delivered : checkMustWrite w.currentNode o tick.run.startWall context tick.run.diskAfter = .ok none
  writable : o.statusWritable = true
  uncapped : context.pop resumeFidelityCapKey = context
  unbranched : Walk.branchRoots p.graph w.currentNode = none
  /-- no edge out of the node resets the run, and a node without edges out of it failed -/
  onward : match selectEdge w.currentNode.id o (applyOutcome context o) p.graph with
    | some e => e.restarts = false
    | none => p.graph.outgoingEdges w.currentNode.id = [] → o.isSuccess = false

/-- What the two walkers do at a node agrees. -/
inductive NodeAlike (p : PipelineEngine) (tick : Tick) (w : Walk) : Prop
  | unregistered {e : PyExc} (h : p.handlerRegistry.get w.currentNode = .error e)
  | childDot {text : String} {context : PipelineContext}
      (hstart : w.currentNode.isStartNode = false) (hawaited : tick.run.expired = false)
      (h : tick.handled w.engine.context = (.childDot text, context))
  | returned {o : Outcome} {context : PipelineContext}
      (h : tick.handled w.engine.context = (.returned o, context))
      (keeps : KeepsOutcome p tick w o context)

/-- The goal gates let the verdict of the last node stand, and send the walk
nowhere. -/
structure ExitAlike (g : Graph) (s : EngineState) : Prop where
  verdict : unsatisfiedGates g s.nodeOutcomes = [] ∨
    (s.lastOutcome.getD reachedTerminal).isSuccess = false
  stays : (checkGoalGates g s).status = .fail →
    ((checkGoalGates g s).suggestions.head?.bind coerceSuggestedId).bind g.node? = none

structure StepAlike (p : PipelineEngine) (tick : Tick) (w : Walk) : Prop where
  inTime : overDuration p.graph tick.elapsedMs = false
  uncancelled : tick.cancelled = false
  exit : w.currentNode.isExitNode = true → ExitAlike p.graph w.engine
  unskipped : w.currentNode.isSubgraphTerminal = false →
    checkNodeSkip tick.ord w.currentNode w.engine.failedOutputs = none
  node : w.currentNode.isSubgraphTerminal = false → NodeAlike p tick w

/-- Every step of the main walk, up to the first exit or fan-in node, is one both
walkers take alike. -/
def StepsAlike (p : PipelineEngine) (ticks : Nat → Tick) : Nat → Walk → Prop
  | 0, _ => True
  | left + 1, w => StepAlike p (ticks (left + 1)) w ∧
    (w.currentNode.isSubgraphTerminal = false →
      ∀ m next, (iterate p (ticks (left + 1)) w).next = .goto m next →
        StepsAlike p ticks left next)

/-! ## One step -/

omit [JsonReader] in
theorem retryPolicy_of_plain {g : Graph} {n : Node} (hg : g.Plain) (hn : n.Plain) :
    RetryPolicy.fromNode n g = .ok ⟨1⟩ := by
  unfold RetryPolicy.fromNode
  rw [hn.maxRetries]
  rcases hg.defaultMaxRetry with hd | hd <;> rw [hd] <;> rfl

omit [Runtime] [JsonReader] in
theorem resolveFailureRetryTarget_of_plain {g : Graph} {n : Node} (hn : n.Plain) :
    resolveFailureRetryTarget g n = none := by
  unfold resolveFailureRetryTarget
  rw [hn.retryTarget, hn.fallbackRetryTarget]
  rfl

/-- The main walk `w` is where the subgraph walk is. -/
structure Paired (node : Node) (last : Option Outcome) (context : PipelineContext) (w : Walk) :
    Prop where
  node : w.currentNode = node
  context : w.engine.context = context
  unarmed : w.engine.resumeFidelityArmed = false
  underway : w.resumeOutcome = none
  last : (w.engine.lastOutcome.getD reachedTerminal).isSuccess =
    (last.getD reachedTerminal).isSuccess

/-- The ladder of a plain node is its first attempt. -/
theorem awaitNode_returned {p : PipelineEngine} {tick : Tick} {w : Walk} {o : Outcome}
    {context : PipelineContext} (h : tick.handled w.engine.context = (.returned o, context))
    (keeps : KeepsOutcome p tick w o context) :
    awaitNode p w.currentNode ⟨1⟩ none tick.run w.engine.context =
      (.outcome (withAttempt o 1), context) := by
  obtain ⟨hended, hcontext⟩ := Prod.mk.inj h
  have hafter : afterAttempt w.currentNode p.logsRoot tick.run.ladderWall 1 1 none
      (tick.run.perform 1 w.engine.context) = .done (.outcome (withAttempt o 1))
        (if o.status = .fail then some (stageFailed w.currentNode 1 (withAttempt o 1)) else none) := by
    unfold afterAttempt
    rw [hended]
    dsimp only
    rw [keeps.override]
    dsimp only [Option.getD_none]
    unfold afterOutcome
    have hwritten := keeps.written
    rw [← hcontext] at hwritten
    have hfinal := keeps.final
    cases hstatus : o.status with
    | success | partialSuccess =>
      dsimp only
      rw [hwritten]
      rfl
    | fail | skipped => rfl
    | retry => exact absurd hstatus hfinal
  unfold awaitNode awaitNodeIn
  rw [keeps.awaited, executeWithRetry_done (Nat.le_refl 1) hafter, ← hcontext]
  rfl

/-- The walk after a plain node completed with the outcome, its checkpoint written. -/
def completedWalk (p : PipelineEngine) (tick : Tick) (w : Walk) (o : Outcome)
    (context : PipelineContext) : Walk :=
  let w' := w.executed p.graph context w.engine.resumeFidelityArmed (withAttempt o 1)
  w'.withCheckpoint (checkpointOf p.graph w' w.currentNode.id tick.timestamp)

theorem finishNode_returned {p : PipelineEngine} {tick : Tick} {w : Walk} {o : Outcome}
    {context : PipelineContext} (keeps : KeepsOutcome p tick w o context) :
    (finishNode p tick { w.counted with engine := countExecution w.currentNode w.engine }
      (.outcome (withAttempt o 1), context)).next =
        (completedWalk p tick w o context).selectAndGo p.graph (withAttempt o 1) := by
  have hkept : autoStatus w.currentNode (withAttempt o 1) = withAttempt o 1 :=
    if_neg (by rw [show (withAttempt o 1).status = o.status from rfl, keeps.unpromoted]; decide)
  have hdelivered : checkMustWrite w.currentNode (withAttempt o 1) tick.run.startWall context
      tick.run.diskAfter = .ok none := keeps.delivered
  have hwritable : (withAttempt o 1).statusWritable = true := keeps.writable
  unfold finishNode
  dsimp only [Walk.counted]
  rw [keeps.uncancelled, keeps.uncapped, hkept, hdelivered]
  simp only [Bool.false_eq_true, if_false, Option.getD_none, hwritable, Bool.not_true]
  show ((completedWalk p tick w o context).route p.graph tick.ord (withAttempt o 1)) = _
  unfold Walk.route
  rw [show (completedWalk p tick w o context).currentNode = w.currentNode from rfl,
    keeps.unbranched]

theorem executeNode_plain {p : PipelineEngine} {tick : Tick} {w : Walk} {handlerType : String}
    (hp : p.graph.Plain) (hn : w.currentNode.Plain)
    (hunarmed : w.engine.resumeFidelityArmed = false)
    (hget : p.handlerRegistry.get w.currentNode = .ok handlerType) :
    executeNode p tick w.counted =
      finishNode p tick { w.counted with engine := countExecution w.currentNode w.engine }
        (awaitNode p w.currentNode ⟨1⟩ none tick.run w.engine.context) := by
  have hengine : applyResumeFidelityDegrade p.graph w.currentNode
      (countExecution w.currentNode w.engine) = countExecution w.currentNode w.engine :=
    if_neg (by rw [show (countExecution w.currentNode w.engine).resumeFidelityArmed =
      w.engine.resumeFidelityArmed from rfl, hunarmed]; decide)
  have htimeout : nodeTimeout w.currentNode = .ok none := by
    unfold nodeTimeout
    rw [hn.timeout]
    rfl
  unfold executeNode executeNodeIn
  dsimp only [Walk.counted]
  rw [hget]
  dsimp only
  rw [hengine, retryPolicy_of_plain hp hn, htimeout]
  rfl

theorem iterate_plain {p : PipelineEngine} {tick : Tick} {w : Walk}
    (hguard : guardLoop p tick w.counted = none) (hexit : w.currentNode.isExitNode = false)
    (hunderway : w.resumeOutcome = none)
    (hskip : checkNodeSkip tick.ord w.currentNode w.engine.failedOutputs = none) :
    iterate p tick w = executeNode p tick w.counted := by
  rw [iterate_unguarded hguard, visit_eq, if_neg (show ¬w.counted.currentNode.isExitNode = true from ne_true_of_eq_false hexit)]
  dsimp only [Walk.counted]
  rw [hunderway, hskip]

omit [JsonReader] in
theorem selectEdge_withAttempt (nodeId : String) (o : Outcome) (n : Nat)
    (context : PipelineContext) (g : Graph) :
    selectEdge nodeId (withAttempt o n) context g = selectEdge nodeId o context g :=
  selectEdge_congr g ⟨rfl, rfl, rfl⟩ fun _ _ => rfl

omit [JsonReader] in
/-- A completed node is the last of the walk. -/
theorem lastOutcome_completedWalk (p : PipelineEngine) (tick : Tick) (w : Walk) (o : Outcome)
    (context : PipelineContext) :
    (completedWalk p tick w o context).engine.lastOutcome = some (withAttempt o 1) := by
  have hrecorded : ∀ s : EngineState,
      (s.recordCompletion w.currentNode.id (withAttempt o 1)).lastOutcome =
        some (withAttempt o 1) := by
    intro s
    simp [EngineState.lastOutcome]
  show (completeNode p.graph _ w.currentNode (withAttempt o 1)).lastOutcome = _
  unfold completeNode
  dsimp only
  split <;> exact hrecorded _

omit [JsonReader] in
theorem context_completedWalk (p : PipelineEngine) (tick : Tick) (w : Walk) (o : Outcome)
    (context : PipelineContext) :
    (completedWalk p tick w o context).engine.context = applyOutcome context o := by
  show (completeNode p.graph _ w.currentNode (withAttempt o 1)).context = _
  unfold completeNode
  dsimp only
  split <;> rfl

omit [JsonReader] in
theorem paired_completedWalk {p : PipelineEngine} {tick : Tick} {w : Walk} {o : Outcome}
    {context : PipelineContext} (hunarmed : w.engine.resumeFidelityArmed = false)
    (hunderway : w.resumeOutcome = none) (next : Node) :
    Paired next (some o) (applyOutcome context o)
      { completedWalk p tick w o context with currentNode := next } where
  node := rfl
  context := context_completedWalk p tick w o context
  unarmed := by
    show (completeNode p.graph _ w.currentNode (withAttempt o 1)).resumeFidelityArmed = false
    unfold completeNode
    dsimp only
    split <;> exact hunarmed
  underway := hunderway
  last := by
    show (((completedWalk p tick w o context).engine.lastOutcome).getD _).isSuccess = _
    rw [lastOutcome_completedWalk]
    rfl

/-- The step of a subgraph walk and the iteration of the main walk lead to paired
places, or end both. -/
inductive SameStep (w : Walk) : SubgraphStep → Next → Prop
  | goto {next : Node} {context : PipelineContext} {o : Outcome} {m : Move} {w' : Walk}
      (paired : Paired next (some o) context w') (steps : w'.steps = w.steps + 1) :
      SameStep w (.goto next context o) (.goto m w')
  | raised {e : PyExc} {context : PipelineContext} {stop : Option String} {s : EngineState}
      (hcontext : s.context = context) :
      SameStep w (.ended ⟨.error e, context, stop⟩) (.halt (.raised e) s)
  | returned {o o' : Outcome} {context : PipelineContext} {stop : Option String}
      {s : EngineState} (hcontext : s.context = context) (hverdict : o.isSuccess = o'.isSuccess) :
      SameStep w (.ended ⟨.ok o, context, stop⟩) (.halt (.returned o') s)

/-- Both walkers leave a completed node for the same place. -/
theorem sameStep_leave {p : PipelineEngine} {tick : Tick} {w : Walk} {o : Outcome}
    {context : PipelineContext} (hn : w.currentNode.Plain)
    (hunarmed : w.engine.resumeFidelityArmed = false) (hunderway : w.resumeOutcome = none)
    (keeps : KeepsOutcome p tick w o context) :
    SameStep w (leaveSubgraphNode p.graph w.currentNode o (applyOutcome context o))
      ((completedWalk p tick w o context).selectAndGo p.graph (withAttempt o 1)) := by
  have hselected : selectEdge (completedWalk p tick w o context).currentNode.id (withAttempt o 1)
      (completedWalk p tick w o context).engine.context p.graph =
        selectEdge w.currentNode.id o (applyOutcome context o) p.graph := by
    rw [context_completedWalk, selectEdge_withAttempt]
    rfl
  have honward := keeps.onward
  unfold leaveSubgraphNode Walk.selectAndGo
  rw [hselected]
  cases hedge : selectEdge w.currentNode.id o (applyOutcome context o) p.graph with
  | some e =>
    rw [hedge] at honward
    dsimp only
    unfold Walk.follow
    rw [honward, if_neg (by decide)]
    unfold Walk.jump
    cases hnext : p.graph.node? e.toNode with
    | some next => exact .goto (paired_completedWalk hunarmed hunderway next) rfl
    | none => exact .raised (context_completedWalk p tick w o context)
  | none =>
    rw [hedge] at honward
    dsimp only
    unfold Walk.failureRoute
    rw [resolveFailureRetryTarget_of_plain (show (completedWalk p tick w o context).currentNode.Plain
      from hn)]
    dsimp only
    split
    · rename_i hempty
      exact .returned (context_completedWalk p tick w o context)
        (honward (List.isEmpty_iff.mp hempty))
    · exact .returned (context_completedWalk p tick w o context) rfl

theorem awaitNode_childDot {p : PipelineEngine} {tick : Tick} {w : Walk} {text : String}
    {context : PipelineContext} (h : tick.handled w.engine.context = (.childDot text, context))
    (hawaited : tick.run.expired = false) :
    awaitNode p w.currentNode ⟨1⟩ none tick.run w.engine.context = (.childDot text, context) := by
  obtain ⟨hended, hcontext⟩ := Prod.mk.inj h
  have hafter : afterAttempt w.currentNode p.logsRoot tick.run.ladderWall 1 1 none
      (tick.run.perform 1 w.engine.context) = .done (.childDot text) none := by
    unfold afterAttempt
    rw [hended]
  unfold awaitNode awaitNodeIn
  rw [hawaited, executeWithRetry_done (Nat.le_refl 1) hafter, ← hcontext]
  rfl

/-- The two walkers take a step at a node of the graph alike. -/
theorem sameStep_node {p : PipelineEngine} {tick : Tick} {w : Walk} {last : Option Outcome}
    (hp : p.graph.Plain) (hn : w.currentNode.Plain)
    (hpaired : Paired w.currentNode last w.engine.context w)
    (hguard : guardLoop p tick w.counted = none)
    (hterminal : w.currentNode.isSubgraphTerminal = false) (hexit : w.currentNode.isExitNode = false)
    (hskip : checkNodeSkip tick.ord w.currentNode w.engine.failedOutputs = none)
    (alike : NodeAlike p tick w) :
    SameStep w (subgraphVisit p tick w.currentNode last w.engine.context)
      (iterate p tick w).next := by
  rw [iterate_plain hguard hexit hpaired.underway hskip]
  unfold subgraphVisit
  rw [hterminal, if_neg Bool.false_ne_true]
  cases hget : p.handlerRegistry.get w.currentNode with
  | error e =>
    unfold executeNode executeNodeIn
    dsimp only [Walk.counted]
    rw [hget]
    exact .raised rfl
  | ok handlerType =>
    rw [executeNode_plain hp hn hpaired.unarmed hget]
    dsimp only
    cases alike with
    | unregistered h =>
      rw [h] at hget
      cases hget
    | @childDot text context hstart hawaited h =>
      rw [hstart, if_neg Bool.false_ne_true, h, awaitNode_childDot h hawaited]
      exact .returned rfl rfl
    | @returned o context h keeps =>
      rw [awaitNode_returned h keeps, finishNode_returned keeps]
      split
      · rename_i hstart
        obtain ⟨rfl, rfl⟩ := keeps.start hstart
        exact sameStep_leave hn hpaired.unarmed hpaired.underway keeps
      · rw [h]
        exact sameStep_leave hn hpaired.unarmed hpaired.underway keeps

omit [JsonReader] in
/-- At an exit the main walk ends with the verdict of its last node. -/
theorem leaveExit_alike {g : Graph} {w : Walk} (h : ExitAlike g w.engine) :
    ∃ o, w.leaveExit g = .halt (.returned o) w.engine ∧
      o.isSuccess = (w.engine.lastOutcome.getD reachedTerminal).isSuccess := by
  refine ⟨checkGoalGates g w.engine, ?_, ?_⟩
  · have hstays := h.stays
    unfold Walk.leaveExit
    dsimp only
    split
    · rename_i hfail
      have hnone := hstays hfail.1
      split
      · rfl
      · rename_i raw rest hsuggestions
        rw [hsuggestions] at hnone
        have htarget : (coerceSuggestedId raw).bind g.node? = none := hnone
        rw [htarget]
    · rfl
  · unfold checkGoalGates
    cases hgates : unsatisfiedGates g w.engine.nodeOutcomes with
    | nil => cases w.engine.lastOutcome <;> rfl
    | cons gate rest =>
      have hfailed := h.verdict.resolve_left (by rw [hgates]; exact List.cons_ne_nil _ _)
      rw [hfailed]
      rfl

/-! ## Whole walks -/

theorem mainWalk_next {p : PipelineEngine} {ticks : Nat → Tick} {left : Nat} {w : Walk}
    (h : atFanIn p (ticks left) w = false) : mainWalk p ticks (left + 1) w =
      match (iterate p (ticks left) w).next with
      | .goto _ next => (mainWalk p ticks left next).map fun rest =>
        (mainExecuted p (ticks left) w ++ rest.1, rest.2)
      | .halt (.returned o) s => some (mainExecuted p (ticks left) w, ⟨.ok o, s⟩)
      | .halt (.raised e) s => some (mainExecuted p (ticks left) w, ⟨.error e, s⟩) := by
  rw [mainWalk, h]
  rfl

omit [JsonReader] in
theorem atFanIn_of_exit {p : PipelineEngine} {tick : Tick} {w : Walk}
    (h : w.currentNode.isExitNode = true) : atFanIn p tick w = false := by
  unfold atFanIn
  rw [h]
  simp

omit [JsonReader] in
theorem mainExecuted_of_exit {p : PipelineEngine} {tick : Tick} {w : Walk}
    (h : w.currentNode.isExitNode = true) : mainExecuted p tick w = [] := by
  unfold mainExecuted
  rw [h]
  simp

omit [JsonReader] in
theorem subgraphWalk_terminal {p : PipelineEngine} {ticks : Nat → Tick} {left : Nat} {node : Node}
    {last : Option Outcome} {context : PipelineContext} (h : node.isSubgraphTerminal = true) :
    subgraphWalk p ticks (left + 1) node last context =
      ([], ⟨.ok (last.getD reachedTerminal), context, some node.id⟩) := by
  have hexecuted : subgraphExecuted p node = [] := by
    unfold subgraphExecuted
    rw [h]
    rfl
  unfold subgraphWalk subgraphVisit
  rw [h, if_pos rfl, hexecuted]

theorem mainWalk_exhausted {p : PipelineEngine} {ticks : Nat → Tick} {w : Walk}
    (hsteps : w.steps = maxSteps p.graph) :
    mainWalk p ticks 1 w = some ([], ⟨.ok (stepsExceeded p.graph), w.engine⟩) := by
  have hguard : guardLoop p (ticks 0) w.counted = some (stepsExceeded p.graph) :=
    if_pos (by show maxSteps p.graph < w.steps + 1; omega)
  have hnot : atFanIn p (ticks 0) w = false := by
    unfold atFanIn
    rw [hguard]
    rfl
  have hnext : (iterate p (ticks 0) w).next = .halt (.returned (stepsExceeded p.graph)) w.engine := by
    rw [iterate_guarded hguard]
  have hexecuted : mainExecuted p (ticks 0) w = [] := by
    unfold mainExecuted
    rw [hguard]
    rfl
  rw [mainWalk_next hnot, hnext, hexecuted]

/-- Paired walks whose steps are alike agree to their end. -/
theorem sameWalk_of_paired {p : PipelineEngine} {ticks : Nat → Tick} (hp : p.graph.Plain)
    (left : Nat) {node : Node} {last : Option Outcome} {context : PipelineContext} {w : Walk}
    (hpaired : Paired node last context w) (hsteps : w.steps + left = maxSteps p.graph)
    (hn : w.currentNode.Plain) (halike : StepsAlike p ticks left w) :
    ∃ run, mainWalk p ticks (left + 1) w = some run ∧
      SameWalk (subgraphWalk p ticks left node last context) run := by
  induction left generalizing node last context w with
  | zero =>
    refine ⟨_, mainWalk_exhausted (by simpa using hsteps), rfl, hpaired.context.symm, rfl⟩
  | succ left ih =>
    obtain ⟨hstep, hrest⟩ := halike
    obtain rfl := hpaired.node
    obtain rfl := hpaired.context
    have hguard : guardLoop p (ticks (left + 1)) w.counted = none := by
      have hbound : ¬maxSteps p.graph < w.counted.steps := by
        show ¬maxSteps p.graph < w.steps + 1
        omega
      unfold guardLoop
      rw [if_neg hbound, hstep.inTime, hstep.uncancelled]
      rfl
    by_cases hexit : w.currentNode.isExitNode = true
    · -- an exit, where the goal gates are asked
      have hterminal : w.currentNode.isSubgraphTerminal = true := by
        unfold Node.isSubgraphTerminal
        rw [hexit]
        rfl
      have hgates := hstep.exit hexit
      obtain ⟨o, hleave, hverdict⟩ := leaveExit_alike (w := w.counted.withCheckpoint
        (checkpointOf p.graph w.counted w.currentNode.id (ticks (left + 1)).timestamp))
        ⟨hgates.verdict, hgates.stays⟩
      have hnext : (iterate p (ticks (left + 1)) w).next = .halt (.returned o)
          (w.counted.withCheckpoint (checkpointOf p.graph w.counted w.currentNode.id
            (ticks (left + 1)).timestamp)).engine := by
        rw [iterate_exit hguard hexit, hleave]
      rw [mainWalk_next (atFanIn_of_exit hexit), hnext, mainExecuted_of_exit hexit]
      refine ⟨_, rfl, ?_⟩
      rw [subgraphWalk_terminal hterminal]
      refine ⟨rfl, rfl, ?_⟩
      show Except.ok _ = Except.ok _
      rw [hverdict]
      exact congrArg Except.ok hpaired.last.symm
    · have hexit := eq_false_of_ne_true hexit
      by_cases hfan : w.currentNode.shape == "tripleoctagon"
      · have hterminal : w.currentNode.isSubgraphTerminal = true := by
          unfold Node.isSubgraphTerminal
          rw [hfan, Bool.or_true]
        have hat : atFanIn p (ticks (left + 1)) w = true := by
          unfold atFanIn
          rw [hguard, hexit, hfan]
          rfl
        rw [mainWalk, hat, subgraphWalk_terminal hterminal]
        exact ⟨_, rfl, rfl, rfl, congrArg Except.ok hpaired.last.symm⟩
      · have hfan := eq_false_of_ne_true hfan
        have hterminal : w.currentNode.isSubgraphTerminal = false := by
          unfold Node.isSubgraphTerminal
          rw [hexit, hfan]
          rfl
        have hat : atFanIn p (ticks (left + 1)) w = false := by
          unfold atFanIn
          rw [hfan, Bool.and_false]
        have hskip := hstep.unskipped hterminal
        have hexecuted : mainExecuted p (ticks (left + 1)) w = subgraphExecuted p w.currentNode := by
          unfold mainExecuted subgraphExecuted
          rw [hguard, hexit, hpaired.underway, hskip, hterminal]
          rfl
        have hsame := sameStep_node hp hn hpaired hguard hterminal hexit hskip (hstep.node hterminal)
        rw [mainWalk_next hat, subgraphWalk, hexecuted]
        have hnexts := hrest hterminal
        have hmoved : ∀ m next, (iterate p (ticks (left + 1)) w).next = .goto m next →
            next.currentNode.Plain := by
          intro m next hgo
          obtain ⟨_, hmove⟩ := (iterate_case p (ticks (left + 1)) w).moved hgo
          exact hp.node _ _ hmove.node?
        generalize subgraphVisit p (ticks (left + 1)) w.currentNode last w.engine.context = visited
          at hsame ⊢
        generalize (iterate p (ticks (left + 1)) w).next = reached at hsame hnexts hmoved ⊢
        cases hsame with
        | @goto next context o m w' paired steps =>
          have hleft : w'.steps + (left : Int) = maxSteps p.graph := by
            rw [steps, ← hsteps]
            push_cast
            omega
          obtain ⟨run, hrun, hagree⟩ := ih paired hleft (hmoved m w' rfl) (hnexts m w' rfl)
          refine ⟨(subgraphExecuted p w.currentNode ++ run.1, run.2), ?_, ?_, hagree.context,
            hagree.verdict⟩
          · show (mainWalk p ticks (left + 1) w').map _ = _
            rw [hrun]
            rfl
          · exact congrArg (subgraphExecuted p w.currentNode ++ ·) hagree.executed
        | raised hcontext => exact ⟨_, rfl, rfl, hcontext.symm, rfl⟩
        | returned hcontext hverdict =>
          exact ⟨_, rfl, rfl, hcontext.symm, congrArg Except.ok hverdict⟩

/-- Where every step is alike, the whole walks agree. -/
theorem walks_agree {p : PipelineEngine} (hp : p.graph.Plain) (ticks : Nat → Tick) {id : String}
    {entry : Node} (hentry : p.graph.node? id = some entry) (context : PipelineContext)
    (halike : StepsAlike p ticks (maxSteps p.graph).toNat (entryWalk entry context)) :
    WalksAgree p ticks entry context := by
  have hbound : (0 : Int) + ((maxSteps p.graph).toNat : Int) = maxSteps p.graph := by
    unfold maxSteps maxGoalGateRetries
    omega
  exact sameWalk_of_paired hp _ ⟨rfl, rfl, rfl, rfl, rfl⟩ hbound (hp.node _ _ hentry) halike

end Agreement

section Demo

open Py.Ascii

/-- A node and the exit after it. -/
def onwardGraph (work : Node) : Graph :=
  Graph.ofNodes [work, { id := "done", shape := "Msquare" }] [{ fromNode := work.id, toNode := "done" }]

def onwardPipeline (work : Node) : PipelineEngine := ⟨onwardGraph work, "/logs", ⟨standardHandlers⟩⟩

def plainNode : Node := { id := "work" }

def promotedNode : Node := { id := "work", autoStatus := .str "true" }

theorem onwardGraph_plain {work : Node} (h : work.Plain) : (onwardGraph work).Plain where
  node := by
    intro id n hn
    have hmem : (id, n) ∈ (onwardGraph work).nodes.entries :=
      (Dict.get?_eq_some_iff _).mp hn
    rcases List.mem_cons.mp (Dict.mem_of_mem_ofList hmem) with heq | hmem
    · cases heq
      exact h
    · cases List.mem_singleton.mp hmem
      exact ⟨rfl, rfl, rfl, rfl⟩
  defaultMaxRetry := .inr rfl

/-- A tick at which the handler ends with the status. -/
def returning (status : StageStatus) : Tick := Tick.ending (.returned { status := status })

/-- What the witness reads of the walk an iteration goes on to. -/
def reachedAt (g : Graph) : Next → Option (Bool × Bool × StageStatus)
  | .goto _ w => some (w.currentNode.isExitNode, (unsatisfiedGates g w.engine.nodeOutcomes).isEmpty,
    (checkGoalGates g w.engine).status)
  | .halt _ _ => none

theorem keepsOutcome_work : KeepsOutcome (onwardPipeline plainNode) (returning .success)
    (entryWalk plainNode {}) { status := .success } {} where
  start h := absurd h (by decide +kernel)
  awaited := rfl
  uncancelled := rfl
  override := rfl
  final := nofun
  unpromoted := rfl
  written := rfl
  delivered := rfl
  writable := rfl
  uncapped := rfl
  unbranched := by decide +kernel
  onward := by
    have hselected : selectEdge plainNode.id { status := .success }
        (applyOutcome {} { status := .success }) (onwardGraph plainNode) =
          some { fromNode := "work", toNode := "done" } := by rfl
    split
    · rename_i e he
      obtain rfl := Option.some.inj (hselected.symm.trans he)
      rfl
    · rename_i hnone
      cases hselected.symm.trans hnone

/-- A node that succeeds, and the exit. -/
theorem walks_agree_work :
    WalksAgree (onwardPipeline plainNode) (fun _ => returning .success) plainNode {} := by
  have hplain : (onwardPipeline plainNode).graph.Plain := onwardGraph_plain ⟨rfl, rfl, rfl, rfl⟩
  have hfirst : reachedAt (onwardGraph plainNode) (iterate (onwardPipeline plainNode)
      (returning .success) (entryWalk plainNode {})).next = some (true, true, .success) := by
    decide +kernel
  refine walks_agree hplain _ (show (onwardGraph plainNode).node? "work" = some plainNode from rfl) {}
    ⟨⟨rfl, rfl, fun h => absurd h (by decide +kernel), fun _ => rfl,
      fun _ => .returned rfl keepsOutcome_work⟩, fun _ m next hnext => ?_⟩
  rw [hnext] at hfirst
  obtain ⟨hexit, hgates, hstatus⟩ :
      next.currentNode.isExitNode = true ∧
        (unsatisfiedGates (onwardGraph plainNode) next.engine.nodeOutcomes).isEmpty = true ∧
        (checkGoalGates (onwardGraph plainNode) next.engine).status = .success := by
    simpa [reachedAt] using hfirst
  have hterminal : next.currentNode.isSubgraphTerminal = true := by
    unfold Node.isSubgraphTerminal
    rw [hexit]
    rfl
  refine ⟨⟨rfl, rfl, fun _ => ⟨.inl (List.isEmpty_iff.mp hgates), fun hfail => ?_⟩,
    fun h => absurd hterminal (by rw [h]; decide), fun h => absurd hterminal (by rw [h]; decide)⟩,
    fun h => absurd hterminal (by rw [h]; decide)⟩
  have hsame : (checkGoalGates (onwardGraph plainNode) next.engine).status = .fail := hfail
  rw [hstatus] at hsame
  cases hsame

def verdictOf (ended : Except PyExc Outcome) : Option Bool :=
  match ended with
  | .ok o => some o.isSuccess
  | .error _ => none

/-- The main walk promotes the skip of an `auto_status` node to a success, the walk of
a branch does not. -/
theorem auto_status_only_in_main_walk : ∃ (p : PipelineEngine) (ticks : Nat → Tick) (id : String)
    (entry : Node) (context : PipelineContext), p.graph.Plain ∧
      p.graph.node? id = some entry ∧ ¬WalksAgree p ticks entry context := by
  refine ⟨onwardPipeline promotedNode, fun _ => returning .skipped, "work", promotedNode, {},
    onwardGraph_plain ⟨rfl, rfl, rfl, rfl⟩, rfl, ?_⟩
  rintro ⟨run, hrun, hsame⟩
  have hmain : (mainWalk (onwardPipeline promotedNode) (fun _ => returning .skipped)
      ((maxSteps (onwardGraph promotedNode)).toNat + 1) (entryWalk promotedNode {})).map
        (fun run => verdictOf run.2.ended) = some (some true) := by decide +kernel
  have hbranch : verdictOf (subgraphWalk (onwardPipeline promotedNode)
      (fun _ => returning .skipped) (maxSteps (onwardGraph promotedNode)).toNat promotedNode none
        {}).2.ended = some false := by decide +kernel
  have hmapped : ∀ e : Except PyExc Outcome,
      verdictOf e = match e.map Outcome.isSuccess with
        | .ok b => some b
        | .error _ => none := by
    intro e
    cases e <;> rfl
  have hmain : verdictOf run.2.ended = some true := by
    have hsome : some (verdictOf run.2.ended) = some (some true) := by
      rw [← hmain]
      show _ = Option.map _ (mainWalk (onwardPipeline promotedNode) _ _ _)
      rw [show mainWalk (onwardPipeline promotedNode) (fun _ => returning .skipped)
        ((maxSteps (onwardGraph promotedNode)).toNat + 1) (entryWalk promotedNode {}) = some run
        from hrun]
      rfl
    exact Option.some.inj hsome
  rw [hmapped, ← hsame.verdict, ← hmapped] at hmain
  exact absurd (hbranch.symm.trans hmain) (by decide)

end Demo

end DotRunner
