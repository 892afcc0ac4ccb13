import DotRunner.Graph

/-!
# Checkpoints

The document an engine writes after every node, and the raw loader.  The fields
of a loaded checkpoint hold whatever JSON was stored there: the loader checks
almost none of them.
-/

namespace DotRunner

open Py

def schemaVersion : Int := 2

def runStateInFlight : String := "in_flight"

def runStateCompleted : String := "completed"

structure Checkpoint where
  currentNode : Value
  completedNodes : List Value
  contextSnapshot : Value
  timestamp : Value
  nodeRetries : Value := .dict []
  logs : Value := .list []
  schemaVersion : Int := DotRunner.schemaVersion
  runState : Value := .str runStateInFlight
  nodeOutcomes : Value := .dict []
  engineState : Value := .dict []
  graph : List (String × Value) := []

namespace Checkpoint

/-- The object `save_checkpoint` hands to `json.dump`. -/
def data (cp : Checkpoint) : Value :=
  .dict [("current_node", cp.currentNode), ("completed_nodes", .list cp.completedNodes),
    ("context", cp.contextSnapshot), ("timestamp", cp.timestamp),
    ("node_retries", cp.nodeRetries), ("logs", cp.logs),
    ("schema_version", .int cp.schemaVersion), ("run_state", cp.runState),
    ("node_outcomes", cp.nodeOutcomes), ("engine_state", cp.engineState),
    ("graph", .dict cp.graph)]

end Checkpoint

/-- What the file holds, as `json.load` reads it. -/
def saveCheckpoint (cp : Checkpoint) : Value := cp.data.viaJson

/-- `list(v)` -/
def pyList : Value → Except PyExc (List Value)
  | .list xs => .ok xs
  | .tuple xs => .ok xs
  | .str s => .ok (s.toList.map fun c => .str (String.ofList [c]))
  | .dict kvs => .ok (kvs.map fun p => .str p.1)
  | v => .error (.typeError ("'" ++ v.typeName ++ "' object is not iterable"))

variable [Runtime]

/-- The `graph` block; a `source_dir` that is present must be a text. -/
def validatedGraphBlock (block : Value) (path : String) :
    Except PyExc (List (String × Value)) :=
  match block with
  | .dict kvs => match (Dict.ofList kvs).get? "source_dir" with
    | none => .ok kvs
    | some (.str _) => .ok kvs
    | some origin => .error (.checkpointFormatError
        ("checkpoint at " ++ path ++ " has a malformed graph.source_dir: " ++ origin.repr ++
          " (expected a string path, found " ++ origin.typeName ++ "). graph.source_dir is the " ++
          "directory the recorded DOT source was read from; it anchors relative dot_file= " ++
          "children on resume. Refusing rather than resolving children against the wrong " ++
          "directory."))
  | _ => .ok []

def loadCheckpoint (path : String) (doc : Value) : Except PyExc Checkpoint :=
  match doc with
  | .dict kvs => do
    let data : Record := Dict.ofList kvs
    let completedNodes ← pyList (data.getD "completed_nodes" (.list []))
    let graphBlock ← validatedGraphBlock (data.getD "graph" (.dict [])) path
    let currentNode ← match data.get? "current_node" with
      | some v => .ok v
      | none => .error (.keyError "current_node")
    let version ← (data.getD "schema_version" (.int 1)).toInt
    return {
      currentNode := currentNode
      completedNodes := completedNodes
      contextSnapshot := data.getD "context" (.dict [])
      timestamp := data.getD "timestamp" (.str "")
      nodeRetries := data.getD "node_retries" (.dict [])
      logs := data.getD "logs" (.list [])
      schemaVersion := version
      runState := data.getD "run_state" (.str runStateInFlight)
      nodeOutcomes := (data.getD "node_outcomes" .none).orElse (.dict [])
      engineState := (data.getD "engine_state" .none).orElse (.dict [])
      graph := graphBlock }
  | v => .error (.checkpointFormatError
      ("checkpoint at " ++ path ++ " is not a JSON object (found " ++ v.typeName ++ ")"))

omit [Runtime] in
/-- Empty objects and missing ones are read alike. -/
theorem orElse_dict (kvs : List (String × Value)) :
    (Value.dict kvs).orElse (.dict []) = .dict kvs := by
  cases kvs with
  | nil => rfl
  | cons p rest => rfl

omit [Runtime] in
/-- The checkpoint as its file gives it back. -/
def Checkpoint.viaJson (cp : Checkpoint) : Checkpoint where
  currentNode := cp.currentNode.viaJson
  completedNodes := cp.completedNodes.map Value.viaJson
  contextSnapshot := cp.contextSnapshot.viaJson
  timestamp := cp.timestamp.viaJson
  nodeRetries := cp.nodeRetries.viaJson
  logs := cp.logs.viaJson
  schemaVersion := cp.schemaVersion
  runState := cp.runState.viaJson
  nodeOutcomes := cp.nodeOutcomes.viaJson.orElse (.dict [])
  engineState := cp.engineState.viaJson.orElse (.dict [])
  graph := cp.graph.map fun p => (p.1, p.2.viaJson)

/-- A graph block the writer produces: its `source_dir`, when present, is a
text. -/
def WellFormedGraphBlock (kvs : List (String × Value)) : Prop :=
  ∀ v, (Dict.ofList kvs).get? "source_dir" = some v → ∃ s, v = .str s

/-- Loading what was saved gives the JSON image of the checkpoint. -/
theorem loadCheckpoint_saveCheckpoint (path : String) (cp : Checkpoint)
    (hg : WellFormedGraphBlock (cp.graph.map fun p => (p.1, p.2.viaJson))) :
    loadCheckpoint path (saveCheckpoint cp) = .ok cp.viaJson := by
  have hblock : validatedGraphBlock (.dict (cp.graph.map fun p => (p.1, p.2.viaJson))) path =
      .ok (cp.graph.map fun p => (p.1, p.2.viaJson)) := by
    cases hs : (Dict.ofList (cp.graph.map fun p => (p.1, p.2.viaJson))).get? "source_dir" with
    | none => simp only [validatedGraphBlock, hs]
    | some v =>
      obtain ⟨s, rfl⟩ := hg v hs
      simp only [validatedGraphBlock, hs]
  have hdoc : saveCheckpoint cp = .dict
      [("current_node", cp.currentNode.viaJson),
       ("completed_nodes", .list (cp.completedNodes.map Value.viaJson)),
       ("context", cp.contextSnapshot.viaJson), ("timestamp", cp.timestamp.viaJson),
       ("node_retries", cp.nodeRetries.viaJson), ("logs", cp.logs.viaJson),
       ("schema_version", .int cp.schemaVersion), ("run_state", cp.runState.viaJson),
       ("node_outcomes", cp.nodeOutcomes.viaJson), ("engine_state", cp.engineState.viaJson),
       ("graph", .dict (cp.graph.map fun p => (p.1, p.2.viaJson)))] := by
    simp only [saveCheckpoint, Checkpoint.data, Value.viaJson, Value.viaJsonPairs,
      Value.viaJsonAll_eq_map, Value.viaJsonPairs_eq_map]
  rw [hdoc, loadCheckpoint]
  simp only [Dict.getD, Dict.ofList, Dict.setAll, List.foldl_cons, List.foldl_nil,
    Dict.get?_set, Dict.get?_empty, String.reduceEq, if_true, if_false, Option.getD_some]
  rw [hblock]
  rfl

end DotRunner
