import DotRunner.Nested.World
import DotRunner.Conditions

/-!
# Managers and folders

`ManagerLoopHandler` supervises a child, in its own graph or in one of its own,
and `PipelineHandler` runs a child graph once.
-/

namespace DotRunner

open Py Approx

/-- The engine a manager or a folder runs its child graph with. -/
def childEngine (g : Graph) (logsRoot : String) : PipelineEngine := ⟨g, logsRoot, ⟨standardHandlers⟩⟩

variable [Runtime]

def splitCommas (s : String) : List String :=
  (Text.split [','] s.toList).map fun piece => String.ofList (Text.strip piece)

/-! ## Managers -/

def steeringMessage (prevCycle : Nat) (maxCycles : Int) (o : Outcome) : String :=
  Text.join "\n" ([("[Manager Steering — Cycle " ++ toString prevCycle ++ " of " ++
      toString maxCycles ++ "]"), ("Status: " ++ o.status.value)] ++
    (if truthyStr o.failureReason then ["Failure reason: " ++ o.failureReason.getD ""] else []) ++
    (if truthyStr o.notes then ["Notes: " ++ o.notes.getD ""] else []) ++
    [("Cycles remaining: " ++ toString (maxCycles - prevCycle)),
      "Adjust your approach based on the failure details above."])

/-- What a manager reads from its node before the first cycle. -/
structure ManagerConfig where
  maxCycles : Int
  stopCondition : String
  actions : List String
  childDotfile : Value
  childStart : String

def managerConfig (g : Graph) (node : Node) (maxCycles : Int) : ManagerConfig where
  maxCycles := maxCycles
  stopCondition := (node.attrD "manager.stop_condition" (.str "")).toStr
  actions := splitCommas (node.attrD "manager.actions" (.str "observe,wait")).toStr
  childDotfile := ((node.attr "stack.child_dotfile").orElse (g.attr "stack.child_dotfile")).orElse
    (.str "")
  childStart := match g.outgoingEdges node.id with
    | e :: _ => e.toNode
    | [] => ""

/-- The context of one cycle's child. -/
def cycleContext (cfg : ManagerConfig) (node : Node) (cycle : Nat) (last : Option Outcome)
    (context : PipelineContext) : PipelineContext :=
  let c := injectContext node (nestedContext context)
  match last with
  | some o =>
    if cfg.actions.contains "steer" then
      c.set "manager.steering" (.str (steeringMessage (cycle - 1) cfg.maxCycles o))
    else c
  | none => c

/-- How a cycle's child ended, and what it executed of this graph. -/
structure ChildRun where
  ended : Finish Outcome
  executed : List String

def superviseChild (w : World) (r : Runners) (p : PipelineEngine) (place : Place) (node : Node)
    (cfg : ManagerConfig) (context : PipelineContext) : Option ChildRun :=
  if cfg.childDotfile.truthy then
    match w.childDot place p.graph node context with
    | .missing resolvedPath _ =>
      some ⟨.done (failedWith ("Child DOT file not found: " ++ resolvedPath)), []⟩
    | .unparsed error => some ⟨.done (failedWith ("Failed to parse child DOT: " ++ error)), []⟩
    | .raised e => some ⟨.done (failedWith (excText e)), []⟩
    | .graph g logsRoot =>
      (r.run (childEngine g logsRoot) place none context).map fun e =>
        ⟨e.1.map fun run => match run.ended with
          | .ok o => o
          | .error x => failedWith ("Child pipeline exception: " ++ excText x), []⟩
  else
    (r.subgraph p place cfg.childStart context).map fun e =>
      ⟨e.1.map fun walk => match walk.ended with
        | .ok o => o
        | .error x => failedWith (excText x), executedIds e.2⟩

def recordCycle (cycle : Nat) (o : Outcome) (context : PipelineContext) : PipelineContext :=
  ((context.set ("manager.cycle_" ++ toString cycle ++ ".status") (.str o.status.value)).set
    "manager.last_child_status" (.str o.status.value)).set "manager.cycles_completed" (.int cycle)

def cycleDone (cfg : ManagerConfig) (o : Outcome) (context : PipelineContext) : Bool :=
  if cfg.stopCondition = "" then o.isSuccess
  else evaluateCondition cfg.stopCondition o context

def managerUpdates (node : Node) (cycles : Int) : Record :=
  Dict.ofList [("last_stage", .str node.id), ("manager.cycles", .int cycles)]

def managerCompleted (cfg : ManagerConfig) (node : Node) (cycle : Nat) (o : Outcome) : Outcome where
  status := o.status
  isExplicit := o.isExplicit
  failureReason := o.failureReason
  notes := some ("Manager completed in " ++ toString cycle ++ " cycle(s)" ++
    if cfg.stopCondition = "" then "" else " — stop condition satisfied")
  contextUpdates := some (managerUpdates node cycle)

def managerExhausted (cfg : ManagerConfig) (node : Node) (last : Option Outcome) : Outcome where
  status := .fail
  failureReason :=
    let exhausted := "Manager exhausted " ++ toString cfg.maxCycles ++ " cycle(s)"
    let reason := last.bind Outcome.failureReason
    some (if truthyStr reason then exhausted ++ ": " ++ reason.getD "" else exhausted)
  notes := some ("Last child status: " ++ match last with
    | some o => o.status.value
    | none => "none")
  contextUpdates := some (managerUpdates node cfg.maxCycles)

/-- The cycles from `cycle` on, at most `left` of them. -/
def superviseCycles (w : World) (r : Runners) (p : PipelineEngine) (place : Place) (node : Node)
    (cfg : ManagerConfig) : Nat → Nat → Option Outcome → PipelineContext → Option HandlerRun
  | 0, _, last, context => some (.of (.returned (managerExhausted cfg node last)) context)
  | left + 1, cycle, last, context =>
    (superviseChild w r p (cycle :: place) node cfg (cycleContext cfg node cycle last context)).bind
      fun child => match child.ended with
        | .cut => some ⟨.cut, [child.executed]⟩
        | .done o =>
          let context := recordCycle cycle o context
          if cycleDone cfg o context then
            some ⟨.done (.returned (managerCompleted cfg node cycle o), context), [child.executed]⟩
          else (superviseCycles w r p place node cfg left (cycle + 1) (some o) context).map
            fun run => { run with nested := child.executed :: run.nested }

/-- `ManagerLoopHandler.execute` -/
def executeManager (w : World) (r : Runners) (p : PipelineEngine) (place : Place) (node : Node)
    (context : PipelineContext) : Option HandlerRun :=
  match (node.attrD "manager.max_cycles" (.int 1000)).toInt with
  | .error e => some (.of (raisedBy e) context)
  | .ok maxCycles =>
    let cfg := managerConfig p.graph node maxCycles
    if !cfg.childDotfile.truthy && (p.graph.outgoingEdges node.id).isEmpty then
      some (.of (.returned (failedWith "Manager loop has no child to supervise")) context)
    else superviseCycles w r p place node cfg maxCycles.toNat 1 none context

/-! ## Folders -/

/-- The goal a child graph is run with: its own, or the one of its parent. -/
def childGoal (child : Graph) (context : PipelineContext) : Option String :=
  if child.goal ≠ "" then some child.goal
  else match context.get "graph.goal" with
    | .str s => some s
    | _ => none

/-- The declared outputs of a successful child, as texts. -/
def mergeOutputs (keys : List String) (child context : PipelineContext) : PipelineContext :=
  keys.foldl (fun c key => match child.snapshot.getD key .none with
    | .none => c
    | v => c.set key (.str v.toStr)) context

/-- What a child graph that ended comes to for its folder node. -/
def leaveChild (node : Node) (context : PipelineContext) (run : RunEnd) :
    HandlerEnd × PipelineContext :=
  match run.ended with
  | .error x => (.returned (failedWith ("Child pipeline exception: " ++ excText x)), context)
  | .ok o =>
    if o.isSuccess then
      match node.attrD "outputs" (.str "") with
      | .str outputs =>
        let keys := (splitCommas outputs).filter fun key => key != ""
        (.returned o, mergeOutputs keys run.engine.context context)
      | v => (raisedBy (.attributeError ("'" ++ v.typeName ++
          "' object has no attribute 'split'")), context)
    else (.returned o, context)

/-- `PipelineHandler.execute` -/
def executePipeline (w : World) (r : Runners) (p : PipelineEngine) (place : Place) (node : Node)
    (context : PipelineContext) : Option HandlerRun :=
  if !(node.attr "dot_file").truthy then
    some (.of (.returned (failedWith "Missing dot_file attribute on pipeline node")) context)
  else match w.childDot place p.graph node context with
    | .missing _ diagnostic => some (.of (.childDot diagnostic) context)
    | .unparsed error =>
      some (.of (.returned (failedWith ("Failed to parse child DOT: " ++ error))) context)
    | .raised e => some (.of (raisedBy e) context)
    | .graph g logsRoot =>
      (r.run (childEngine g logsRoot) place (childGoal g context)
        (injectContext node (nestedContext context))).map fun e =>
          ⟨e.1.map (leaveChild node context), []⟩

end DotRunner
