import DotRunner.Engine.Persist

/-!
# The resume ladder

Rungs 1 to 5 need the file and the DOT source, rung 6 the graph.  A rung refuses
with an error of the resume family; whatever else is raised on it escapes.
-/

namespace DotRunner

open Py

inductive CheckpointResumeError where
  | missing (text : String)
  | corrupt (text : String)
  | schemaVersion (text : String)
  | alreadyCompleted (text : String)
  | graphMismatch (text : String)
  | invalidStructure (text : String)
deriving DecidableEq

inductive LadderExc where
  | refused (e : CheckpointResumeError)
  | escaped (e : PyExc)
deriving DecidableEq

/-- An exception raised outside the family. -/
def escaping {α : Type} : Except PyExc α → Except LadderExc α
  | .ok a => .ok a
  | .error e => .error (.escaped e)

variable [Runtime]

def missingCheckpoint (path : String) : LadderExc :=
  .refused (.missing ("nothing to resume: no checkpoint at " ++ path ++ ". A resumable run writes " ++
    "checkpoint.json into its logs_root after every node completion — pass the run directory of " ++
    "an interrupted run (the one printed as 'logs=' when it started)."))

def truncatedCheckpoint (path text : String) : LadderExc :=
  .refused (.corrupt ("corrupted checkpoint at " ++ path ++ ": not valid JSON (" ++ text ++
    "). The file was most likely truncated by the interruption. There is no partial-resume path " ++
    "— re-run the pipeline from the start."))

def malformedCheckpoint (path : String) (e : PyExc) : LadderExc :=
  .refused (.corrupt ("corrupted checkpoint at " ++ path ++ ": " ++ excTypeName e ++ ": " ++
    excText e ++ ". The file parsed as JSON but is not a checkpoint (a required field such as " ++
    "'current_node' is missing or malformed). Re-run the pipeline from the start."))

/-- The exceptions rung 2 catches; a format error is a `ValueError`. -/
def loadFailure (path : String) (e : PyExc) : LadderExc :=
  match e with
  | .checkpointFormatError _ | .keyError _ | .typeError _ | .valueError _ =>
    malformedCheckpoint path e
  | e => .escaped e

/-- Rungs 1 and 2: the file exists and holds a checkpoint. -/
def parseRung (path : String) : Option JsonRead → Except LadderExc Checkpoint
  | none => .error (missingCheckpoint path)
  | some (.decodeError text) => .error (truncatedCheckpoint path text)
  | some (.raised e) => .error (loadFailure path e)
  | some (.value doc) => match loadCheckpoint path doc with
    | .ok cp => .ok cp
    | .error e => .error (loadFailure path e)

/-- Rung 3. -/
def versionRung (path : String) (cp : Checkpoint) : Except LadderExc Unit :=
  if cp.schemaVersion ≠ schemaVersion then
    let detail := if cp.schemaVersion < schemaVersion then
      "v1 checkpoints are pre-resume observability records: they do not carry the node outcomes, " ++
        "engine counters, or graph identity a resume requires. Re-run the pipeline from the start."
      else "this checkpoint was written by a newer engine than the one resuming it; upgrade the " ++
        "engine or re-run from the start."
    .error (.refused (.schemaVersion ("checkpoint schema v" ++ toString cp.schemaVersion ++
      " is not resumable; v" ++ toString schemaVersion ++ " required (" ++ path ++ "). " ++ detail)))
  else .ok ()

def alreadyCompleted (path : String) (cp : Checkpoint) (finalStatus : Value) : LadderExc :=
  .refused (.alreadyCompleted ("run already completed (run_state=" ++ cp.runState.repr ++
    ", final outcome=" ++ finalStatus.repr ++ "); nothing to resume at " ++ path ++ ". Start a new " ++
    "run with 'attractor run' if you want to execute the graph again."))

/-- Rung 4; the message names the outcome the context holds. -/
def livenessRung (path : String) (cp : Checkpoint) : Except LadderExc Unit :=
  if cp.runState.pyEq (.str runStateInFlight) then .ok ()
  else do
    let context ← escaping (asDict cp.contextSnapshot)
    .error (alreadyCompleted path cp (context.getD "outcome" (.str "unknown")))

def Checkpoint.graphFingerprint (cp : Checkpoint) : String :=
  ((Dict.ofList cp.graph).getD "fingerprint" (.str "")).toStr

def Checkpoint.graphDotSource (cp : Checkpoint) : String :=
  ((Dict.ofList cp.graph).getD "dot_source" (.str "")).toStr

/-- The head of a fingerprint that a message shows. -/
def shortFingerprint (fp : String) : String := String.ofList (fp.toList.take 15) ++ "…"

def noGraphIdentity (path : String) : LadderExc :=
  .refused (.invalidStructure ("checkpoint at " ++ path ++ " declares schema v" ++
    toString schemaVersion ++ " but carries no graph identity (graph.fingerprint / " ++
    "graph.dot_source). It was not written by this engine's checkpoint writer; resume refused. " ++
    "Re-run the pipeline from the start."))

def graphMismatch (path recorded supplied : String) : LadderExc :=
  .refused (.graphMismatch ("checkpoint was written by a different graph: checkpoint " ++
    shortFingerprint recorded ++ " vs supplied " ++ shortFingerprint supplied ++ " (" ++ path ++
    "); resume refused (side-effecting nodes must not be re-applied to a graph they weren't run " ++
    "against). Drop --dot-file to resume against the graph embedded in the checkpoint, or start a " ++
    "new run against the changed graph."))

/-- Rung 5. -/
def identityRung (path : String) (cp : Checkpoint) (dotSource : Option String) :
    Except LadderExc Unit :=
  if cp.graphFingerprint = "" ∨ cp.graphDotSource = "" then .error (noGraphIdentity path)
  else match dotSource with
    | none => .ok ()
    | some source =>
      if fingerprintDotSource source ≠ cp.graphFingerprint then
        .error (graphMismatch path cp.graphFingerprint (fingerprintDotSource source))
      else .ok ()

/-- Rungs 1 to 5, for the file that `json.load` reads as `file`. -/
def loadCheckpointForResume (path : String) (file : Option JsonRead) (dotSource : Option String) :
    Except LadderExc Checkpoint := do
  let cp ← parseRung path file
  versionRung path cp
  livenessRung path cp
  identityRung path cp dotSource
  return cp

/-! ## Rung 6 -/

def validStatuses : List String := ["success", "partial_success", "retry", "fail", "skipped"]

/-- `sorted(graph.nodes)` -/
def sortedNodes (g : Graph) : String :=
  Value.reprStrs (g.nodes.keys.mergeSort fun a b => decide (a ≤ b))

def unhashable (v : Value) : LadderExc :=
  .escaped (.typeError ("unhashable type: '" ++ v.typeName ++ "'"))

/-- `v in graph.nodes` -/
def inNodes (g : Graph) (v : Value) : Except LadderExc Bool :=
  if v.hashable then .ok (g.nodeOfValue? v).isSome else .error (unhashable v)

def unknownCurrent (g : Graph) (v : Value) : LadderExc :=
  .refused (.invalidStructure ("checkpoint's current_node " ++ v.repr ++ " is not a node of the " ++
    "graph being resumed (nodes: " ++ sortedNodes g ++ "); resume refused. The checkpoint does " ++
    "not belong to this graph — resume the run directory that wrote it."))

def unknownCompleted (g : Graph) (unknown : List Value) : LadderExc :=
  .refused (.invalidStructure ("checkpoint's completed_nodes contain ids that are not nodes of " ++
    "the graph being resumed: " ++ (Value.list unknown).repr ++ " (nodes: " ++ sortedNodes g ++
    "); resume refused. The checkpoint does not belong to this graph — resume the run directory " ++
    "that wrote it."))

def unknownOutcome (g : Graph) (nodeId : String) : LadderExc :=
  .refused (.invalidStructure ("checkpoint's node_outcomes reference " ++ Value.reprStr nodeId ++
    ", which is not a node of the graph being resumed (nodes: " ++ sortedNodes g ++
    "); resume refused."))

def recordNotObject (nodeId : String) (record : Value) : LadderExc :=
  .refused (.invalidStructure ("checkpoint's node_outcomes[" ++ Value.reprStr nodeId ++
    "] is not an object (found " ++ record.typeName ++
    "); resume refused — the checkpoint is structurally invalid."))

def invalidStatus (nodeId : String) (status : Value) : LadderExc :=
  .refused (.invalidStructure ("checkpoint's node_outcomes[" ++ Value.reprStr nodeId ++
    "].status is " ++ status.repr ++ ", which is not a valid StageStatus (" ++
    Value.reprStrs (validStatuses.mergeSort fun a b => decide (a ≤ b)) ++
    "); resume refused — the checkpoint is structurally invalid."))

/-- The completed nodes the graph does not have. -/
def unknownNodes (g : Graph) : List Value → Except LadderExc (List Value)
  | [] => .ok []
  | v :: rest => do
    let known ← inNodes g v
    let unknown ← unknownNodes g rest
    return if known then unknown else v :: unknown

def isValidStatus : Value → Bool
  | .str s => validStatuses.contains s
  | _ => false

/-- One entry of `node_outcomes`. -/
def verifyRecord (g : Graph) (nodeId : String) (record : Value) : Except LadderExc Unit :=
  if (g.node? nodeId).isNone then .error (unknownOutcome g nodeId)
  else match record with
    | .dict kvs =>
      let status := (Dict.ofList kvs).getD "status" .none
      if !status.hashable then .error (unhashable status)
      else if isValidStatus status then .ok () else .error (invalidStatus nodeId status)
    | record => .error (recordNotObject nodeId record)

def verifyRecords (g : Graph) : List (String × Value) → Except LadderExc Unit
  | [] => .ok ()
  | (nodeId, record) :: rest => do
    verifyRecord g nodeId record
    verifyRecords g rest

/-- `v.items()` -/
def itemsOf : Value → Except PyExc (List (String × Value))
  | .dict kvs => .ok (Dict.ofList kvs).entries
  | v => .error (.attributeError ("'" ++ v.typeName ++ "' object has no attribute 'items'"))

def refuseWhen (b : Bool) (e : LadderExc) : Except LadderExc Unit := if b then .error e else .ok ()

def verifyCheckpointStructure (cp : Checkpoint) (g : Graph) : Except LadderExc Unit := do
  let known ← inNodes g cp.currentNode
  refuseWhen (!known) (unknownCurrent g cp.currentNode)
  let unknown ← unknownNodes g cp.completedNodes
  refuseWhen (!unknown.isEmpty) (unknownCompleted g unknown)
  let records ← escaping (itemsOf cp.nodeOutcomes)
  verifyRecords g records

end DotRunner
