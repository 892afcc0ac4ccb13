import DotRunner.EdgeSelection
import DotRunner.Engine.Persist
import DotRunner.Retry

/-!
# The walk

One iteration of `_run_loop`.  `iterate` is what the loop body does between two
tests of its head: it ends with the walk one node further or with the outcome of
the run, and it may have written one checkpoint on the way.
-/

namespace DotRunner

open Py

def maxGoalGateRetries : Int := 50

/-- What one node execution meets outside the engine. -/
structure NodeRun where
  /-- attempt `n`, from the context the attempt before it left -/
  perform : Nat → PipelineContext → AttemptEnd
  /-- time since the start of the run, when the node starts -/
  startMs : ℚ
  /-- the clock before the ladder and inside it -/
  startWall : Int
  ladderWall : Int
  disk : Disk
  /-- the bound on the wait expired first -/
  expired : Bool
  /-- what a handler cut off by the bound leaves of the context -/
  abandoned : PipelineContext → PipelineContext
  cancelledAfter : Bool
  diskAfter : Disk

/-- A node whose handler ends at once, each time in the same way. -/
def NodeRun.ending (h : HandlerEnd) : NodeRun where
  perform _ c := ⟨h, c, 0, ⟨"/", fun _ => .absent⟩⟩
  startMs := 0
  startWall := 0
  ladderWall := 0
  disk := ⟨"/", fun _ => .absent⟩
  expired := false
  abandoned c := c
  cancelledAfter := false
  diskAfter := ⟨"/", fun _ => .absent⟩

/-- What one iteration meets outside the engine. -/
structure Tick where
  ord : SetOrder
  elapsedMs : ℚ
  cancelled : Bool
  timestamp : String
  run : NodeRun

/-- An iteration nothing interferes with. -/
def Tick.ending (h : HandlerEnd) : Tick where
  ord := .insertion
  elapsedMs := 0
  cancelled := false
  timestamp := "1970-01-01T00:00:00+00:00"
  run := NodeRun.ending h

/-- Why the walk goes where it goes. -/
inductive Move where
  | edge (e : Edge)
  | fanIn (target : Node)
  | failureRetry (target : Node)
  | skipEdge (e : Edge)
  | skipRetry (target : Node)
  | gateRetry (target : Node)

inductive Halt where
  | returned (o : Outcome)
  | raised (e : PyExc)

inductive Next where
  | goto (m : Move) (w : Walk)
  | halt (h : Halt) (s : EngineState)

/-- The state the iteration leaves behind. -/
def Next.engine : Next → EngineState
  | .goto _ w => w.engine
  | .halt _ s => s

/-- A completion the loop records: a node that was executed, or one skipped for
the keys it misses. -/
structure Completion where
  nodeId : String
  outcome : Outcome
  missingKeys : Option (List String)

/-- A checkpoint, with the walk as it stands while it is written. -/
structure Written where
  walk : Walk
  checkpoint : Checkpoint

structure IterEnd where
  completion : Option Completion
  saved : Option Written
  next : Next

variable [Runtime]

def maxSteps (g : Graph) : Int := (g.nodes.size : Int) * maxGoalGateRetries

/-! ## Ways to end -/

def stepsExceeded (g : Graph) : Outcome where
  status := .fail
  failureReason := some ("Pipeline exceeded " ++ toString (maxSteps g) ++
    " steps (safety bound): " ++ toString g.nodes.size ++ " nodes × " ++
    toString maxGoalGateRetries)

def maxDurationText (g : Graph) : String := toString (g.maxPipelineDuration.getD 0) ++ "ms"

def durationExceeded (g : Graph) : Outcome where
  status := .fail
  notes := some ("Pipeline exceeded max duration of " ++ maxDurationText g)
  failureReason := some "max_pipeline_duration_exceeded"

def cancelledOutcome (notes : String) : Outcome where
  status := .fail
  notes := some notes
  failureReason := some "cancelled"

def noConvergence (nodeId : String) : Outcome where
  status := .fail
  failureReason := some ("Parallel fan-out from component node '" ++ nodeId ++
    "' has no convergence (fan-in) node — add a shape=tripleoctagon node that all branches " ++
    "lead to")

def childDotOutcome (text : String) : Outcome where
  status := .fail
  notes := some text
  failureReason := some text

/-! ## Routing -/

namespace Walk

/-- `graph.nodes[id]`, then go there. -/
def jump (w : Walk) (g : Graph) (nodeId : String) (m : Move) : Next :=
  match g.node? nodeId with
  | some n => .goto m { w with currentNode := n }
  | none => .halt (.raised (.keyError nodeId)) w.engine

/-- A reset, then go to a retry target. -/
def clearAndGo (w : Walk) (target : Node) (m : Move) : Next :=
  .goto m { w with engine := w.engine.clearRun, currentNode := target }

/-- The reset of a `loop_restart` edge: a new iteration with fresh budgets and
without the last routing signal. -/
def restartLoop (w : Walk) : Walk :=
  let n := w.engine.iterationCount + 1
  let context := ((w.engine.context.set "preferred_label" .none).set "iteration"
    (.str (toString n))).set "loop_count" (.str (toString n))
  { w with
    engine := { w.engine.clearRun with iterationCount := n, context := context }
    goalGateRetries := 0
    failureRoutingRetries := 0 }

/-- Step 6 and 7: follow a selected edge. -/
def follow (w : Walk) (g : Graph) (e : Edge) : Next :=
  (if e.restarts then w.restartLoop else w).jump g e.toNode (.edge e)

/-- No edge matches: retry from the node's own target, or end the run. -/
def failureRoute (w : Walk) (g : Graph) (o : Outcome) : Next :=
  let ended : Next := .halt (.returned (terminatePipeline (some o)
    (noMatchingEdgeReason g w.currentNode.id o))) w.engine
  match resolveFailureRetryTarget g w.currentNode with
  | some target =>
    if w.failureRoutingRetries < maxGoalGateRetries then
      { w with failureRoutingRetries := w.failureRoutingRetries + 1 }.clearAndGo target
        (.failureRetry target)
    else ended
  | none => ended

def selectAndGo (w : Walk) (g : Graph) (o : Outcome) : Next :=
  match selectEdge w.currentNode.id o w.engine.context g with
  | some e => w.follow g e
  | none => w.failureRoute g o

/-- The targets of the branches, where the node is a parallel one that the walk
leaves for the fan-in. -/
def branchRoots (g : Graph) (node : Node) : Option (List String) :=
  if node.shape = "component" ∧ 1 < (g.outgoingEdges node.id).length then
    some (g.successors node.id)
  else none

/-- Step 5: where the walk goes after a node that ended with `o`. -/
def route (w : Walk) (g : Graph) (ord : SetOrder) (o : Outcome) : Next :=
  match branchRoots g w.currentNode with
  | some roots => match g.findFanInNode ord roots with
    | none => .halt (.returned (noConvergence w.currentNode.id)) w.engine
    | some fanIn => match g.node? fanIn with
      | some n => w.jump g fanIn (.fanIn n)
      | none => .halt (.raised (.keyError fanIn)) w.engine
  | none => w.selectAndGo g o

/-- What a skipped node is routed by. -/
def skipRouting (skipped : Outcome) : Outcome where
  status := .fail
  failureReason := skipped.failureReason
  notes := skipped.notes

def skipEdge (w : Walk) (g : Graph) (routing : Outcome) : Option Edge :=
  (selectEdge w.currentNode.id routing w.engine.context g).or
    (bestUnconditional (g.outgoingEdges w.currentNode.id))

/-- A skipped node leaves by an edge without its `loop_restart`, or retries
without a reset. -/
def routeSkipped (w : Walk) (g : Graph) (skipped : Outcome) : Next :=
  let routing := skipRouting skipped
  match w.skipEdge g routing with
  | some e => w.jump g e.toNode (.skipEdge e)
  | none =>
    let ended : Next := .halt (.returned (terminatePipeline (some routing)
      ("No matching edge from skipped node '" ++ w.currentNode.id ++ "'"))) w.engine
    match resolveFailureRetryTarget g w.currentNode with
    | some target =>
      if w.failureRoutingRetries < maxGoalGateRetries then
        .goto (.skipRetry target)
          { w with failureRoutingRetries := w.failureRoutingRetries + 1, currentNode := target }
      else ended
    | none => ended

/-- Past the checkpoint of an exit node: return, or go back for a goal gate. -/
def leaveExit (w : Walk) (g : Graph) : Next :=
  let result := checkGoalGates g w.engine
  let ended : Next := .halt (.returned result) w.engine
  if result.status = .fail ∧ w.goalGateRetries < maxGoalGateRetries then
    match result.suggestions with
    | [] => ended
    | raw :: _ => match (coerceSuggestedId raw).bind g.node? with
      | some target =>
        { w with goalGateRetries := w.goalGateRetries + 1 }.clearAndGo target (.gateRetry target)
      | none => ended
  else ended

/-- Remember the checkpoint just written. -/
def withCheckpoint (w : Walk) (cp : Checkpoint) : Walk :=
  { w with engine := { w.engine with lastCheckpoint := some cp } }

end Walk

/-! ## Executing a node -/

/-- The one-hop fidelity cap: set for the first node after a resume when it
resolves to `full`. -/
def applyResumeFidelityDegrade (g : Graph) (node : Node) (s : EngineState) : EngineState :=
  if s.resumeFidelityArmed then
    let s := { s with resumeFidelityArmed := false }
    let line := "resume: fidelity degraded full->summary:high for node '" ++ node.id ++
      "' (spec §5.3 rule 6 — in-memory LLM sessions cannot be serialized)"
    let capped := s.context.set resumeFidelityCapKey (.str "summary:high")
    if resolveFidelity node g = "full" then { s with context := capped.appendLog line } else s
  else s

/-- One more visit of the node. -/
def countExecution (node : Node) (s : EngineState) : EngineState :=
  { s with nodeExecutionCounts :=
      s.nodeExecutionCounts.set node.id (s.nodeExecutionCounts.getD node.id 0 + 1) }

/-- An integer of this size or more rounds to no finite float. -/
def floatOverflow : Nat := 2 ^ 1024 - 2 ^ 970

/-- `float(v)`, where the value is one. -/
def floatOf : Value → Except PyExc PyFloat
  | .bool b => .ok (.finite (if b then 1 else 0))
  | .int i =>
    if i.natAbs < floatOverflow then .ok (.finite i)
    else .error (.overflowError "int too large to convert to float")
  | .float f => .ok f
  | .str s => match Runtime.floatOfStr s with
    | some f => .ok f
    | none => .error (.valueError ("could not convert string to float: " ++ Value.reprStr s))
  | v => .error (.typeError ("float() argument must be a string or a real number, not '" ++
      v.typeName ++ "'"))

/-- The node's own bound in milliseconds, where it has one. -/
def nodeTimeout (node : Node) : Except PyExc (Option PyFloat) :=
  if node.timeout.truthy then (floatOf node.timeout).map some else .ok none

/-- What bounds the wait for a node, and whether the graph-level fuse does. -/
inductive WaitBound where
  | unbounded
  | fuse
  | nodeTimeout (ms : PyFloat)

/-- The smaller bound governs; a tie favours the fuse. -/
def waitBound (g : Graph) (startMs : ℚ) (timeout : Option PyFloat) : WaitBound :=
  match g.maxPipelineDuration with
  | none => match timeout with
    | none => .unbounded
    | some t => .nodeTimeout t
  | some d =>
    if d = 0 then match timeout with
      | none => .unbounded
      | some t => .nodeTimeout t
    else
      let remaining := max 0 ((d : ℚ) - startMs)
      match timeout with
      | none => .fuse
      | some (.finite t) => if remaining ≤ t then .fuse else .nodeTimeout (.finite t)
      | some (.inf negative) => if negative then .nodeTimeout (.inf true) else .fuse
      | some (.nan shared) => .nodeTimeout (.nan shared)

/-- Milliseconds as the seconds a message names. -/
def timeoutSecondsText : PyFloat → String
  | .finite ms => Runtime.reprFloat (ms / 1000)
  | f => f.text

def timeoutOutcome (node : Node) (timeout : PyFloat) : Outcome where
  status := if resolveBoolAttr (node.attr "allow_partial") then .partialSuccess else .fail
  notes := some ("Node '" ++ node.id ++ "' timed out after " ++ timeoutSecondsText timeout ++ "s")
  failureReason := some "timeout"

/-- How the wait for a node ends. -/
inductive NodeEnd where
  | outcome (o : Outcome)
  | childDot (text : String)
  | fuse
  | raised (e : PyExc)

def LadderEnd.nodeEnd : LadderEnd → NodeEnd
  | .outcome o => .outcome o
  | .childDot text => .childDot text
  | .raised e => .raised e

variable [JsonReader]

/-- Run the node's handler under its retry policy and its bound.  The attempts
are computations in `m`; `abandon` waits for a ladder that was cut off. -/
def awaitNodeIn {m : Type → Type} [Monad m] (abandon : m LadderRun → m Unit) (p : PipelineEngine)
    (node : Node) (policy : RetryPolicy) (timeout : Option PyFloat) (run : NodeRun)
    (perform : Nat → PipelineContext → m AttemptEnd) (context : PipelineContext) :
    m (NodeEnd × PipelineContext) :=
  let ladder := executeWithRetry perform node context p.logsRoot policy run.ladderWall run.disk
  let finished : m (NodeEnd × PipelineContext) := do
    let r ← ladder
    pure (r.result.nodeEnd, r.context)
  if run.expired then
    match waitBound p.graph run.startMs timeout with
    | .unbounded => finished
    | .fuse => do
      abandon ladder
      pure (.fuse, run.abandoned context)
    | .nodeTimeout t => do
      abandon ladder
      pure (.outcome (timeoutOutcome node t), run.abandoned context)
  else finished

omit [JsonReader] in
/-- A skip by the handler becomes a success that asserts nothing. -/
def autoStatus (node : Node) (o : Outcome) : Outcome :=
  if resolveBoolAttr node.autoStatus && o.status == .skipped then
    { o with
      status := .success
      notes := some "auto_status override (was skipped)"
      isExplicit := false }
  else o

omit [Runtime] [JsonReader] in
/-- Step 4: what the outcome changes in the context. -/
def applyOutcome (context : PipelineContext) (o : Outcome) : PipelineContext :=
  let c := match o.contextUpdates with
    | some updates => context.update updates
    | none => context
  let c := c.set "outcome" (.str o.status.value)
  if truthyStr o.preferredLabel then c.set "preferred_label" (optionText o.preferredLabel) else c

omit [Runtime] [JsonReader] in
/-- Can `status.json` be written?  Its writer, unlike the checkpoint's, has no
fallback for a value JSON has no form for. -/
def Outcome.statusWritable (o : Outcome) : Bool :=
  (optionIds o.suggestedNextIds).serializable && (optionRecord o.contextUpdates).serializable &&
    (optionRecord o.failedStep).serializable

omit [JsonReader] in
/-- The state after a node completed with `o`, its checkpoint not yet written. -/
def completeNode (g : Graph) (s : EngineState) (node : Node) (o : Outcome) : EngineState :=
  let s := s.recordCompletion node.id o
  let s := if o.status = .fail then s.markFailed g node.id else s
  { s with context := applyOutcome s.context o }

omit [JsonReader] in
/-- Everything from the return of the handler to Step 5. -/
def finishNode (p : PipelineEngine) (tick : Tick) (w : Walk) (ended : NodeEnd × PipelineContext) :
    IterEnd :=
  let node := w.currentNode
  let s := { w.engine with context := ended.2 }
  match ended.1 with
  | .raised e => ⟨none, none, .halt (.raised e) s⟩
  | .childDot text =>
    let o := childDotOutcome text
    ⟨none, none, .halt (.returned o) { s with nodeOutcomes := s.nodeOutcomes.set node.id o }⟩
  | .fuse => ⟨none, none, .halt (.returned (durationExceeded p.graph)) s⟩
  | .outcome handled =>
    let s := { s with context := s.context.pop resumeFidelityCapKey }
    if tick.run.cancelledAfter then
      ⟨none, none, .halt (.returned (cancelledOutcome
        ("Pipeline cancelled after node '" ++ node.id ++ "' completed"))) s⟩
    else
      let promoted := autoStatus node handled
      match checkMustWrite node promoted tick.run.startWall s.context tick.run.diskAfter with
      | .error e => ⟨none, none, .halt (.raised e) s⟩
      | .ok violation =>
        let o := violation.getD promoted
        if !o.statusWritable then
          ⟨none, none, .halt (.raised (.typeError "Object is not JSON serializable"))
            (s.recordCompletion node.id o)⟩
        else
          let w := { w with engine := completeNode p.graph s node o }
          let cp := checkpointOf p.graph w node.id tick.timestamp
          ⟨some ⟨node.id, o, none⟩, some ⟨w, cp⟩, (w.withCheckpoint cp).route p.graph tick.ord o⟩

/-- Step 2: find the handler, count the visit, run it. -/
def executeNodeIn {m : Type → Type} [Monad m] (abandon : m LadderRun → m Unit)
    (p : PipelineEngine) (tick : Tick) (perform : Nat → PipelineContext → m AttemptEnd)
    (w : Walk) : m IterEnd :=
  match p.handlerRegistry.get w.currentNode with
  | .error e => pure ⟨none, none, .halt (.raised e) w.engine⟩
  | .ok _ =>
    let s := applyResumeFidelityDegrade p.graph w.currentNode (countExecution w.currentNode w.engine)
    match RetryPolicy.fromNode w.currentNode p.graph, nodeTimeout w.currentNode with
    | .error e, _ => pure ⟨none, none, .halt (.raised e) s⟩
    | _, .error e => pure ⟨none, none, .halt (.raised e) s⟩
    | .ok policy, .ok timeout => do
      let ended ← awaitNodeIn abandon p w.currentNode policy timeout tick.run perform s.context
      pure (finishNode p tick { w with engine := s } ended)

omit [JsonReader] in
/-- A node that reads a failed key: recorded, never executed. -/
def skipNode (p : PipelineEngine) (tick : Tick) (w : Walk) (keys : List String) : IterEnd :=
  let node := w.currentNode
  let o := skipOutcome node keys
  let w := { w with engine := (w.engine.recordCompletion node.id o).markFailed p.graph node.id }
  let cp := checkpointOf p.graph w node.id tick.timestamp
  ⟨some ⟨node.id, o, some keys⟩, some ⟨w, cp⟩, (w.withCheckpoint cp).routeSkipped p.graph o⟩

omit [JsonReader] in
/-- An exit node: a checkpoint, then the goal gates. -/
def visitExit (p : PipelineEngine) (tick : Tick) (w : Walk) : IterEnd :=
  let cp := checkpointOf p.graph w w.currentNode.id tick.timestamp
  ⟨none, some ⟨w, cp⟩, (w.withCheckpoint cp).leaveExit p.graph⟩

/-- Steps 1 to 5 of the body, past the guards. -/
def visitIn {m : Type → Type} [Monad m] (abandon : m LadderRun → m Unit) (p : PipelineEngine)
    (tick : Tick) (perform : Nat → PipelineContext → m AttemptEnd) (w : Walk) : m IterEnd :=
  if w.currentNode.isExitNode then pure (visitExit p tick w)
  else match w.resumeOutcome with
    | some o => pure ⟨none, none, { w with resumeOutcome := none }.route p.graph tick.ord o⟩
    | none => match checkNodeSkip tick.ord w.currentNode w.engine.failedOutputs with
      | some keys => pure (skipNode p tick w keys)
      | none => executeNodeIn abandon p tick perform w

omit [Runtime] [JsonReader] in
def overDuration (g : Graph) (elapsedMs : ℚ) : Bool :=
  match g.maxPipelineDuration with
  | none => false
  | some d => d != 0 && decide ((d : ℚ) < elapsedMs)

omit [Runtime] [JsonReader] in
/-- The guards at the head of the loop: the step bound, the duration, a
cancellation. -/
def guardLoop (p : PipelineEngine) (tick : Tick) (w : Walk) : Option Outcome :=
  if maxSteps p.graph < w.steps then some (stepsExceeded p.graph)
  else if overDuration p.graph tick.elapsedMs then some (durationExceeded p.graph)
  else if tick.cancelled then some (cancelledOutcome "Pipeline cancelled by user request")
  else none

/-- One iteration whose attempts are computations in `m`. -/
def iterateIn {m : Type → Type} [Monad m] (abandon : m LadderRun → m Unit) (p : PipelineEngine)
    (tick : Tick) (perform : Nat → PipelineContext → m AttemptEnd) (w : Walk) : m IterEnd :=
  let w := { w with steps := w.steps + 1 }
  match guardLoop p tick w with
  | some o => pure ⟨none, none, .halt (.returned o) w.engine⟩
  | none => visitIn abandon p tick perform w

omit [Runtime] [JsonReader] in
/-- Where attempts are known by how they end, a ladder cut off leaves nothing. -/
def forget (_ : Id LadderRun) : Id Unit := ()

/-- One iteration whose attempts end as the tick says. -/
def iterate (p : PipelineEngine) (tick : Tick) (w : Walk) : IterEnd :=
  Id.run (iterateIn forget p tick tick.run.perform w)

def visit (p : PipelineEngine) (tick : Tick) (w : Walk) : IterEnd :=
  Id.run (visitIn forget p tick tick.run.perform w)

def executeNode (p : PipelineEngine) (tick : Tick) (w : Walk) : IterEnd :=
  Id.run (executeNodeIn forget p tick tick.run.perform w)

def awaitNode (p : PipelineEngine) (node : Node) (policy : RetryPolicy) (timeout : Option PyFloat)
    (run : NodeRun) (context : PipelineContext) : NodeEnd × PipelineContext :=
  Id.run (awaitNodeIn forget p node policy timeout run run.perform context)

theorem iterate_eq (p : PipelineEngine) (tick : Tick) (w : Walk) :
    iterate p tick w = match guardLoop p tick { w with steps := w.steps + 1 } with
      | some o => ⟨none, none, .halt (.returned o) w.engine⟩
      | none => visit p tick { w with steps := w.steps + 1 } := by
  simp only [iterate, iterateIn, visit]
  split <;> rfl

theorem visit_eq (p : PipelineEngine) (tick : Tick) (w : Walk) :
    visit p tick w =
      if w.currentNode.isExitNode then visitExit p tick w
      else match w.resumeOutcome with
        | some o => ⟨none, none, { w with resumeOutcome := none }.route p.graph tick.ord o⟩
        | none => match checkNodeSkip tick.ord w.currentNode w.engine.failedOutputs with
          | some keys => skipNode p tick w keys
          | none => executeNode p tick w := by
  simp only [visit, visitIn, executeNode]
  split
  · rfl
  · split
    · rfl
    · split <;> rfl

end DotRunner
