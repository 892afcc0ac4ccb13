import DotRunner.Nested.World

/-!
# Parallel nodes

`ParallelHandler`: a walk for every outgoing edge, the policies that decide which
of them count, and the outcome they are joined to.  The walks have nothing in
common, so they are run one after the other; what was seen of them and when is
the schedule's.
-/

namespace DotRunner

open Py Approx

structure BranchResult where
  nodeId : String
  status : StageStatus
  notes : Option String
  failureReason : Option String
  contextUpdates : Option Record

/-- One entry of `parallel.results`. -/
def BranchResult.record (r : BranchResult) : Value :=
  .dict [("node_id", .str r.nodeId), ("status", .str r.status.value), ("notes", optionText r.notes),
    ("failure_reason", optionText r.failureReason),
    ("context_updates", optionRecord r.contextUpdates)]

def BranchResult.succeeded (r : BranchResult) : Bool :=
  r.status == .success || r.status == .partialSuccess

def BranchResult.failed (r : BranchResult) : Bool := r.status == .fail

/-- How the task of a branch ended, and what it executed. -/
structure BranchRun where
  ended : Finish BranchResult
  executed : List String

section Join

def explicitly (status : StageStatus) (notes failureReason : Option String) : Outcome :=
  { status := status, notes := notes, failureReason := failureReason, isExplicit := true }

def allSucceeded (total : Nat) : Outcome :=
  explicitly .success (some ("All " ++ toString total ++ " branches succeeded")) none

/-- The verdict over the results that were kept; an unknown policy waits for
all. -/
def applyJoinPolicy (results : List BranchResult) (policy : String) : Outcome :=
  let successCount := results.countP BranchResult.succeeded
  let failCount := results.countP BranchResult.failed
  let total := results.length
  let some_ := toString successCount ++ "/" ++ toString total ++ " branches succeeded"
  if results.isEmpty then explicitly .success (some "No branches") none
  else if policy = "wait_all" then
    if failCount = 0 then allSucceeded total
    else explicitly .partialSuccess (some (some_ ++ ", " ++ toString failCount ++ " failed")) none
  else if policy = "first_success" then
    if 0 < successCount then
      explicitly .success (some ("At least one branch succeeded (" ++ toString successCount ++ "/" ++
        toString total ++ ")")) none
    else explicitly .fail none (some ("No branches succeeded out of " ++ toString total))
  else if failCount = 0 then allSucceeded total
  else explicitly .partialSuccess (some some_) none

end Join

section Waiting

/-- The results of the tasks of one group, up to the first that ends the wait.
The result of a task that was cancelled is its cancellation. -/
def waitGroup (ends : BranchResult → Bool) : List BranchRun → Finish (List BranchResult × Bool)
  | [] => .done ([], false)
  | run :: rest => match run.ended with
    | .cut => .cut
    | .done r =>
      if ends r then .done ([r], true)
      else (waitGroup ends rest).map fun p => (r :: p.1, p.2)

/-- Wait group by group until a task ends the wait; then the rest is cancelled,
and those of it that complete all the same still count. -/
def waitUntil (ends : BranchResult → Bool) : List (List BranchRun) → Finish (List BranchResult)
  | [] => .done []
  | group :: rest => match waitGroup ends group with
    | .cut => .cut
    | .done (rs, true) => .done (rs ++ rest.flatten.filterMap fun run => run.ended.done?)
    | .done (rs, false) => (waitUntil ends rest).map fun rs' => rs ++ rs'

/-- When the wait for the branches is over before all of them are. -/
def endsWait (errorPolicy joinPolicy : String) : BranchResult → Bool :=
  if errorPolicy = "fail_fast" then BranchResult.failed
  else if joinPolicy = "first_success" then BranchResult.succeeded
  else fun _ => false

/-- The branches that are begun, as they are waited for; `asyncio.gather` waits
for all of them, in the order of the edges. -/
def Schedule.begun {n : Nat} (s : Schedule n) (errorPolicy joinPolicy : String) :
    List (List Nat) :=
  if errorPolicy = "fail_fast" then
    s.groups.map fun group => group.filter fun i => !s.bailed.contains i
  else if joinPolicy = "first_success" then s.groups
  else [List.range n]

end Waiting

variable [Runtime]

/-- One branch: an engine of its own, a context of its own. -/
def runBranch (r : Runners) (p : PipelineEngine) (place : Place) (context : PipelineContext)
    (i : Nat) (target : String) : Option BranchRun :=
  (r.subgraph p (i :: place) target (nestedContext context)).map fun e =>
    ⟨e.1.map fun walk =>
      let o := match walk.ended with
        | .ok o => o
        | .error x => failedWith (excText x)
      ⟨target, o.status, o.notes, o.failureReason, o.contextUpdates⟩, executedIds e.2⟩

def runBranches (r : Runners) (p : PipelineEngine) (place : Place) (context : PipelineContext)
    (branches : List Edge) (begun : List (List Nat)) : Option (List (List BranchRun)) :=
  begun.mapM fun group => group.mapM fun i =>
    (branches[i]?).bind fun e => runBranch r p place context i e.toNode

def ignoring (errorPolicy : String) (results : List BranchResult) : List BranchResult :=
  if errorPolicy = "ignore" then results.filter BranchResult.succeeded else results

def joinPolicy (node : Node) : String := (node.attrD "join_policy" (.str "wait_all")).toStr

def errorPolicy (node : Node) : String := (node.attrD "error_policy" (.str "continue")).toStr

def recordResults (results : List BranchResult) (context : PipelineContext) : PipelineContext :=
  (context.set "parallel.results" (.list (results.map BranchResult.record))).set
    "parallel.count" (.int results.length)

/-- `ParallelHandler.execute`.  With `max_parallel=0` no branch ever gets past
the semaphore. -/
def executeParallel (w : World) (r : Runners) (p : PipelineEngine) (place : Place) (node : Node)
    (context : PipelineContext) : Option HandlerRun :=
  let branches := p.graph.outgoingEdges node.id
  if branches.isEmpty then
    some (.of (.returned (explicitly .success (some "Parallel node with no branches") none))
      context)
  else match (node.attrD "max_parallel" (.int 4)).toInt with
    | .error e => some (.of (raisedBy e) context)
    | .ok maxParallel =>
      if maxParallel < 0 then
        some (.of (raisedBy (.valueError "Semaphore initial value must be >= 0")) context)
      else if maxParallel = 0 then if w.cut place then some ⟨.cut, []⟩ else none
      else
        let begun := (w.schedule place branches.length).begun (errorPolicy node) (joinPolicy node)
        (runBranches r p place context branches begun).map fun runs =>
          ⟨(waitUntil (endsWait (errorPolicy node) (joinPolicy node)) runs).map fun kept =>
            let results := ignoring (errorPolicy node) kept
            (.returned (applyJoinPolicy results (joinPolicy node)), recordResults results context),
          runs.flatten.map BranchRun.executed⟩

/-- What a parallel node that returned waited for, kept and stored. -/
theorem executeParallel_joined {w : World} {r : Runners} {p : PipelineEngine} {place : Place}
    {node : Node} {context c : PipelineContext} {run : HandlerRun} {o : Outcome}
    (h : executeParallel w r p place node context = some run)
    (ho : run.ended = .done (.returned o, c)) (hout : p.graph.outgoingEdges node.id ≠ []) :
    ∃ runs kept, runBranches r p place context (p.graph.outgoingEdges node.id)
        ((w.schedule place (p.graph.outgoingEdges node.id).length).begun (errorPolicy node)
          (joinPolicy node)) = some runs ∧
      waitUntil (endsWait (errorPolicy node) (joinPolicy node)) runs = .done kept ∧
      o = applyJoinPolicy (ignoring (errorPolicy node) kept) (joinPolicy node) ∧
      c = recordResults (ignoring (errorPolicy node) kept) context := by
  unfold executeParallel at h
  dsimp only at h
  split at h
  · rename_i hempty
    exact absurd (List.isEmpty_iff.mp hempty) hout
  · split at h
    · cases h
      cases ho
    · split at h
      · cases h
        cases ho
      · split at h
        · split at h
          · cases h
            cases ho
          · cases h
        · obtain ⟨runs, hruns, rfl⟩ := Option.map_eq_some_iff.mp h
          obtain ⟨kept, hwait, hkept⟩ := Finish.map_eq_done ho
          cases hkept
          exact ⟨runs, kept, hruns, hwait, rfl, rfl⟩

end DotRunner
