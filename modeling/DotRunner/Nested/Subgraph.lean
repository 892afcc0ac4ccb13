import DotRunner.Nested.Children
import DotRunner.Nested.Parallel

/-!
# Walks inside walks

`run_subgraph`, the main loop with its nested handlers, and the tower of both.
-/

namespace DotRunner

open Py Approx

variable [Runtime]

/-- The handler of the node, by its type. -/
def executeHandler (w : World) (r : Runners) (p : PipelineEngine) (place : Place)
    (handlerType : String) (node : Node) (context : PipelineContext) : Option HandlerRun :=
  if handlerType = "parallel" then executeParallel w r p place node context
  else if handlerType = "stack.manager_loop" then executeManager w r p place node context
  else if handlerType = "pipeline" then executePipeline w r p place node context
  else some ⟨w.leaf place node context, []⟩

/-- A handler that returned, in the log of the walk that executed it. -/
def HandlerRun.logged {α : Type} (run : HandlerRun) (nodeId : String)
    (f : HandlerEnd × PipelineContext → α) : Nest α :=
  some (run.ended.map f, [.executed nodeId run.nested])

/-! ## The subgraph runner -/

/-- A step of a subgraph walk: the next node, with the context and the outcome it
is reached with, or the end. -/
inductive SubgraphStep where
  | goto (node : Node) (context : PipelineContext) (last : Outcome)
  | ended (e : SubgraphEnd)

def cutShort (o : Outcome) (context : PipelineContext) : SubgraphEnd := ⟨.ok o, context, none⟩

def cancelledSubgraph : Outcome where
  status := .fail
  notes := some "Pipeline cancelled during subgraph execution"
  failureReason := some "cancelled"

def reachedTerminal : Outcome where
  status := .success
  notes := some "Subgraph reached terminal node"

def subgraphDeadEnd (nodeId : String) (edges : Nat) (o : Outcome) : Outcome :=
  failedWith ("Subgraph dead end at node '" ++ nodeId ++ "': " ++ toString edges ++
    " outgoing edge(s) exist but none match the current outcome (status=" ++ o.status.value ++
    "). This is a conditional-mismatch dead end — add a matching edge or a fallback route.")

/-- From a node that ended with `o` to the next. -/
def leaveSubgraphNode (g : Graph) (node : Node) (o : Outcome) (context : PipelineContext) :
    SubgraphStep :=
  match selectEdge node.id o context g with
  | none =>
    if (g.outgoingEdges node.id).isEmpty then .ended ⟨.ok o, context, some node.id⟩
    else .ended (cutShort (subgraphDeadEnd node.id (g.outgoingEdges node.id).length o) context)
  | some e => match g.node? e.toNode with
    | some n => .goto n context o
    | none => .ended ⟨.error (.keyError e.toNode), context, none⟩

/-- What follows the handler of a subgraph node: no retry, no record. -/
def afterSubgraphNode (g : Graph) (node : Node) (ended : HandlerEnd × PipelineContext) :
    SubgraphStep :=
  match ended.1 with
  | .childDot text => .ended (cutShort (childDotOutcome text) ended.2)
  | .raised e => .ended (cutShort (failedWith ("Subgraph node '" ++ node.id ++ "' raised: " ++
      e.text)) ended.2)
  | .returned o => leaveSubgraphNode g node o (applyOutcome ended.2 o)

def subgraphStep (w : World) (r : Runners) (p : PipelineEngine) (place : Place) (node : Node)
    (last : Option Outcome) (context : PipelineContext) : Nest SubgraphStep :=
  if w.cut place then Logged.cut
  else if w.cancelled place then pure (.ended (cutShort cancelledSubgraph context))
  else if node.isSubgraphTerminal then
    pure (.ended ⟨.ok (last.getD reachedTerminal), context, some node.id⟩)
  else match p.handlerRegistry.get node with
    | .error e => pure (.ended ⟨.error e, context, none⟩)
    | .ok handlerType =>
      if node.isStartNode then
        pure (afterSubgraphNode p.graph node (.returned { status := .success }, context))
      else match executeHandler w r p place handlerType node context with
        | none => none
        | some run => run.logged node.id (afterSubgraphNode p.graph node)

def subgraphExceeded (g : Graph) : Outcome :=
  failedWith ("Subgraph exceeded " ++ toString (maxSteps g) ++ " steps (safety bound)")

def subgraphSteps (w : World) (r : Runners) (p : PipelineEngine) (place : Place) :
    Nat → Node → Option Outcome → PipelineContext → Nest SubgraphEnd
  | 0, _, _, context => pure (cutShort (subgraphExceeded p.graph) context)
  | left + 1, node, last, context => do
    match ← subgraphStep w r p (left :: place) node last context with
    | .ended e => pure e
    | .goto next context' o =>
      Logged.tell (.went next.id)
      subgraphSteps w r p place left next (some o) context'

def runSubgraph (w : World) (r : Runners) (p : PipelineEngine) (place : Place)
    (startNodeId : String) (context : PipelineContext) : Nest SubgraphEnd :=
  match p.graph.node? startNodeId with
  | none => pure (cutShort (failedWith ("Subgraph start node '" ++ startNodeId ++
      "' not found in graph")) context)
  | some node => subgraphSteps w r p place (maxSteps p.graph).toNat node none context

section Steps

variable {w : World} {r : Runners} {p : PipelineEngine} {place : Place} {left : Nat} {node : Node}
  {last : Option Outcome} {context : PipelineContext} {l : List Mark}

/-- While the handler does not return, neither does the step. -/
theorem subgraphStep_waits {place : Place} {handlerType : String} (hcut : w.cut place = false)
    (hcancel : w.cancelled place = false) (hterminal : node.isSubgraphTerminal = false)
    (hget : p.handlerRegistry.get node = .ok handlerType) (hstart : node.isStartNode = false)
    (h : executeHandler w r p place handlerType node context = none) :
    subgraphStep w r p place node last context = none := by
  unfold subgraphStep
  rw [hcut, hcancel, hterminal, hget, hstart]
  dsimp only
  rw [h]
  rfl

theorem subgraphSteps_ended {e : SubgraphEnd}
    (h : subgraphStep w r p (left :: place) node last context = some (.done (.ended e), l)) :
    subgraphSteps w r p place (left + 1) node last context = some (.done e, l ++ []) := by
  show Logged.andThen (subgraphStep w r p (left :: place) node last context) _ = _
  rw [h]
  rfl

theorem subgraphSteps_goto {next : Node} {context' : PipelineContext} {o : Outcome}
    (h : subgraphStep w r p (left :: place) node last context =
      some (.done (.goto next context' o), l)) :
    subgraphSteps w r p place (left + 1) node last context =
      Option.map (fun e => (e.1, l ++ ([.went next.id] ++ e.2)))
        (subgraphSteps w r p place left next (some o) context') := by
  have htell : (do
      Logged.tell (Mark.went next.id)
      subgraphSteps w r p place left next (some o) context' : Nest SubgraphEnd) =
        Option.map (fun e => (e.1, [.went next.id] ++ e.2))
          (subgraphSteps w r p place left next (some o) context') := by
    show Logged.andThen _ _ = _
    simp only [Logged.andThen, Logged.tell]
    cases subgraphSteps w r p place left next (some o) context' <;> rfl
  show Logged.andThen (subgraphStep w r p (left :: place) node last context) _ = _
  rw [h]
  simp only [Logged.andThen]
  rw [htell]
  cases subgraphSteps w r p place left next (some o) context' <;> rfl

theorem subgraphSteps_none
    (h : subgraphStep w r p (left :: place) node last context = none) :
    subgraphSteps w r p place (left + 1) node last context = none := by
  show Logged.andThen (subgraphStep w r p (left :: place) node last context) _ = none
  rw [h]
  rfl

end Steps

/-! ## The main loop -/

variable [JsonReader]

omit [JsonReader] in
/-- One attempt at a node of the main loop. -/
def attemptAt (w : World) (r : Runners) (p : PipelineEngine) (place : Place) (node : Node)
    (attempt : Nat) (context : PipelineContext) : Nest AttemptEnd :=
  let place := attempt :: place
  let attempted := fun (ended : HandlerEnd × PipelineContext) =>
    (⟨ended.1, ended.2, (w.attempt place).1, (w.attempt place).2⟩ : AttemptEnd)
  if w.cut place then Logged.cut
  else match p.handlerRegistry.get node with
    | .error e => pure (attempted (raisedBy e, context))
    | .ok handlerType => match executeHandler w r p place handlerType node context with
      | none => none
      | some run => run.logged node.id attempted

omit [JsonReader] in
theorem attemptAt_waits {w : World} {r : Runners} {p : PipelineEngine} {place : Place} {node : Node}
    {attempt : Nat} {context : PipelineContext} {handlerType : String}
    (hcut : w.cut (attempt :: place) = false) (hget : p.handlerRegistry.get node = .ok handlerType)
    (h : executeHandler w r p (attempt :: place) handlerType node context = none) :
    attemptAt w r p place node attempt context = none := by
  unfold attemptAt
  dsimp only
  rw [hcut, hget]
  dsimp only
  rw [h]
  rfl

/-- One iteration of the main loop, its handlers with the walks they start. -/
def nestedIterate (w : World) (r : Runners) (p : PipelineEngine) (place : Place) (walk : Walk) :
    Nest IterEnd :=
  iterateIn Logged.abandon p (w.tick place) (attemptAt w r p place walk.currentNode) walk

def runLoop (w : World) (r : Runners) (p : PipelineEngine) (place : Place) :
    Nat → Walk → Nest RunEnd
  | 0, _ => none
  | left + 1, walk => do
    match (← nestedIterate w r p (left :: place) walk).next with
    | .goto _ next =>
      Logged.tell (.went next.currentNode.id)
      runLoop w r p place left next
    | .halt (.returned o) s => pure ⟨.ok o, s⟩
    | .halt (.raised e) s => pure ⟨.error e, s⟩

section Loop

variable {w : World} {r : Runners} {p : PipelineEngine} {place : Place} {left : Nat} {walk : Walk}

theorem runLoop_goto {it : IterEnd} {l : List Mark} {m : Move} {next : Walk}
    (h : nestedIterate w r p (left :: place) walk = some (.done it, l))
    (hnext : it.next = .goto m next) :
    runLoop w r p place (left + 1) walk =
      Option.map (fun e => (e.1, l ++ ([.went next.currentNode.id] ++ e.2)))
        (runLoop w r p place left next) := by
  have htell : (do
      Logged.tell (Mark.went next.currentNode.id)
      runLoop w r p place left next : Nest RunEnd) =
        Option.map (fun e => (e.1, [.went next.currentNode.id] ++ e.2))
          (runLoop w r p place left next) := by
    show Logged.andThen _ _ = _
    simp only [Logged.andThen, Logged.tell]
    cases runLoop w r p place left next <;> rfl
  show Logged.andThen (nestedIterate w r p (left :: place) walk) _ = _
  rw [h]
  simp only [Logged.andThen, hnext]
  rw [htell]
  cases runLoop w r p place left next <;> rfl

theorem runLoop_none (h : nestedIterate w r p (left :: place) walk = none) :
    runLoop w r p place (left + 1) walk = none := by
  show Logged.andThen (nestedIterate w r p (left :: place) walk) _ = none
  rw [h]
  rfl

end Loop

/-- A fresh run; the step bound ends it within as many iterations. -/
def runEngine (w : World) (r : Runners) (p : PipelineEngine) (place : Place) (goal : Option String)
    (context : PipelineContext) : Nest RunEnd :=
  match start p.graph goal context with
  | .error e => pure ⟨.error e, { context := initializeContext p.graph goal 0 context }⟩
  | .ok walk => runLoop w r p place ((maxSteps p.graph).toNat + 1) walk

/-- The calls that nest less than `d` deep. -/
def runners (w : World) : Nat → Runners
  | 0 => ⟨fun _ _ _ _ => none, fun _ _ _ _ => none⟩
  | d + 1 => ⟨runSubgraph w (runners w d), runEngine w (runners w d)⟩

end DotRunner
