import DotRunner.Graph
import DotRunner.Disk

/-!
# The status file

A node, or a tool it runs, may write `status.json` into its stage directory; a
fresh file that says something else than the handler did wins.
-/

namespace DotRunner

open Py

def statusPath (logsRoot nodeId : String) : String := pathJoin (pathJoin logsRoot nodeId) "status.json"

variable [Runtime]

def malformedStatus (node : Node) (reason : String) (sessionId : Option String) : Outcome where
  status := .fail
  failureReason := some ("Malformed status.json for node '" ++ node.id ++ "': " ++ reason)
  notes := some "status.json contract violation (Appendix C) -- fail-closed"
  isExplicit := true
  sessionId := sessionId

/-- Does the candidate carry nothing new? -/
def matchesOutcome (candidate existing : Outcome) : Bool :=
  candidate.status == existing.status &&
    candidate.preferredLabel == existing.preferredLabel &&
    (optionIds candidate.suggestedNextIds).pyEq (optionIds existing.suggestedNextIds) &&
    (optionRecord candidate.contextUpdates).pyEq (optionRecord existing.contextUpdates) &&
    candidate.notes == existing.notes

/-- `sorted(_ALLOWED_OUTCOME_VALUES)` -/
def allowedOutcomeValues : List String := ["fail", "partial_success", "retry", "skipped", "success"]

/-- A field of the object, `null` read like a missing one. -/
def fieldOf (data : Record) (key : String) : Value := data.getD key .none

def statusOf (v : Value) : Option StageStatus :=
  match v with
  | .str s => StageStatus.ofValue? s
  | _ => none

/-- A field that is a text or missing. -/
def textField (data : Record) (key : String) : Except String (Option String) :=
  match fieldOf data key with
  | .none => .ok none
  | .str s => .ok (some s)
  | _ => .error ("status.json '" ++ key ++ "' must be a string")

/-- The outcome a parsed file stands for, or what is wrong with it.  The session
and the response are the engine's own: the file never speaks about them. -/
def statusCandidate (data : Record) (handlerOutcome : Outcome) : Except String Outcome := do
  let outcomeValue ← match data.get? "outcome" with
    | some v => .ok v
    | none => .error "status.json missing required 'outcome' field"
  let status ← match statusOf outcomeValue with
    | some s => .ok s
    | none => .error ("status.json 'outcome' must be one of " ++
        Value.reprStrs allowedOutcomeValues ++ ", got " ++ outcomeValue.repr)
  let suggestedNextIds ← match fieldOf data "suggested_next_ids" with
    | .none => .ok none
    | .list l => .ok (some l)
    | _ => .error "status.json 'suggested_next_ids' must be a list"
  let contextUpdates ← match fieldOf data "context_updates" with
    | .none => .ok none
    | .dict kvs => .ok (some (Dict.ofList kvs))
    | _ => .error "status.json 'context_updates' must be an object"
  let preferredLabel ← textField data "preferred_label"
  let notes ← textField data "notes"
  return {
    status := status
    preferredLabel := preferredLabel
    suggestedNextIds := suggestedNextIds
    contextUpdates := contextUpdates
    notes := notes
    isExplicit := true
    sessionId := handlerOutcome.sessionId
    responseText := handlerOutcome.responseText }

variable [JsonReader]

/-- The outcome that replaces the handler's, where a fresh file gives one. -/
def readStatusOverride (node : Node) (logsRoot : String) (nodeStartWall : Int)
    (handlerOutcome : Outcome) (disk : Disk) : Except PyExc (Option Outcome) :=
  let bad (reason : String) : Outcome := malformedStatus node reason handlerOutcome.sessionId
  match disk.stat (statusPath logsRoot node.id) with
  | .absent => .ok none
  | .unstatable _ => .ok none
  | .present mtimeNs bytes =>
    if !wroteAfterNodeStart mtimeNs nodeStartWall then .ok none
    else match bytes with
      | .error text => .ok (some (bad ("could not read status.json: " ++ text)))
      | .ok raw => match JsonReader.loads raw with
        | .raised e => .error e
        | .decodeError text => .ok (some (bad ("invalid JSON in status.json: " ++ text)))
        | .value (.dict kvs) => match statusCandidate (Dict.ofList kvs) handlerOutcome with
          | .error reason => .ok (some (bad reason))
          | .ok candidate =>
            if matchesOutcome candidate handlerOutcome then .ok none else .ok (some candidate)
        | .value v => .ok (some (bad
            ("status.json must be a JSON object, got " ++ v.typeName)))

end DotRunner
