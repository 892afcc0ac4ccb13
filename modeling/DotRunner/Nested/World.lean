import DotRunner.Approx
import DotRunner.Engine.Run

/-!
# Nested calls

A handler may start walks of its own: the branches of a parallel node, the child
of a manager, the child graph of a folder.  A call is described by its result
when calls nest at most so deep; what handlers do outside the engine is given by
a world.
-/

namespace DotRunner

open Py Approx

/-- Where in the nest of calls something happens: the indices of iterations,
attempts, cycles and branches, the innermost first. -/
abbrev Place := List Nat

/-- The order in which the branches of a parallel node are seen to complete, in
groups seen together.  Some are not begun because another failed before. -/
structure Schedule (n : Nat) where
  groups : List (List Nat)
  bailed : List Nat := []
  perm : groups.flatten.Perm (List.range n)

def Schedule.inOrder (n : Nat) : Schedule n where
  groups := [List.range n]
  perm := by simp

/-- What resolving, reading and parsing the file of a child graph gives. -/
inductive ChildDot where
  | missing (resolvedPath diagnostic : String)
  | unparsed (error : String)
  | raised (e : PyExc)
  | graph (g : Graph) (logsRoot : String)

structure World where
  /-- a handler that starts no walk, and the context it leaves -/
  leaf : Place → Node → PipelineContext → Finish (HandlerEnd × PipelineContext)
  childDot : Place → Graph → Node → PipelineContext → ChildDot
  schedule : Place → (n : Nat) → Schedule n
  /-- the task of the walk is cancelled before its next step -/
  cut : Place → Bool
  /-- the cancel event is set -/
  cancelled : Place → Bool
  tick : Place → Tick
  /-- when an attempt begins, and the disk it leaves -/
  attempt : Place → Int × Disk

/-- A world nothing interferes with, its handlers ending by their node. -/
def World.calm (ends : Node → HandlerEnd) : World where
  leaf _ node context := .done (ends node, context)
  childDot _ _ _ _ := .missing "child.dot" "child.dot: not found"
  schedule _ n := .inOrder n
  cut _ := false
  cancelled _ := false
  tick _ := Tick.ending (.returned { status := .success })
  attempt _ := (0, ⟨"/", fun _ => .absent⟩)

/-- What a walk logs: a node whose handler was executed, with the nodes of the
same graph each walk it started executed, and a node the walk went on to. -/
inductive Mark where
  | executed (nodeId : String) (nested : List (List String))
  | went (nodeId : String)
  deriving DecidableEq

def Mark.executedIds : Mark → List String
  | .executed nodeId nested => nodeId :: nested.flatten
  | .went _ => []

def executedIds (l : List Mark) : List String := l.flatMap Mark.executedIds

abbrev Nest := Logged Mark

/-- How `run_subgraph` ends: with an outcome or an exception, and the node it
stopped at unless it was cut short. -/
structure SubgraphEnd where
  ended : Except PyExc Outcome
  context : PipelineContext
  stop : Option String

structure RunEnd where
  ended : Except PyExc Outcome
  engine : EngineState

/-- How a handler ends, with what each walk it started executed. -/
structure HandlerRun where
  ended : Finish (HandlerEnd × PipelineContext)
  nested : List (List String)

def HandlerRun.of (h : HandlerEnd) (context : PipelineContext) : HandlerRun :=
  ⟨.done (h, context), []⟩

/-- The calls a handler can make, one level down. -/
structure Runners where
  subgraph : PipelineEngine → Place → String → PipelineContext → Nest SubgraphEnd
  run : PipelineEngine → Place → Option String → PipelineContext → Nest RunEnd

def failedWith (reason : String) : Outcome := { status := .fail, failureReason := some reason }

variable [Runtime]

def raisedBy (e : PyExc) : HandlerEnd :=
  .raised { retryableType := false, typeName := excTypeName e, text := excText e }

/-- The context of a walk the handler of `context` starts, without the routing
signal of its own walk. -/
def nestedContext (context : PipelineContext) : PipelineContext :=
  context.clone.set "preferred_label" .none

/-- The `context.*` attributes of the node, put into the context of its child. -/
def injectContext (node : Node) (context : PipelineContext) : PipelineContext :=
  node.attrs.entries.foldl (fun c p => match Text.dropPrefix? "context.".toList p.1.toList with
    | some key => c.set (String.ofList key) (.str p.2.toStr)
    | none => c) context

end DotRunner
