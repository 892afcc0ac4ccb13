import DotRunner.Py.Ascii
import DotRunner.Py.JsonRoundTrip
import DotRunner.Retry

/-!
# The engine's own status file

`CodergenHandler` writes the outcome it returns into the status file, which the
ladder then reads as if a node had written it.
-/

namespace DotRunner

open Py Json

/-! ## Writing -/

/-- The document of a stage outcome. -/
def statusData (o : Outcome) : List (String × Value) :=
  [("outcome", .str o.status.value), ("status", .str o.status.value),
    ("preferred_next_label", optionText o.preferredLabel),
    ("preferred_label", optionText o.preferredLabel),
    ("suggested_next_ids", optionIds o.suggestedNextIds),
    ("context_updates", optionRecord o.contextUpdates), ("notes", optionText o.notes),
    ("failure_reason", optionText o.failureReason), ("is_explicit", .bool o.isExplicit),
    ("session_id", optionText o.sessionId)]

section Handler

variable [Runtime]

/-- `_write_status`: the text of the file; an exception leaves the file alone. -/
def writeStatus (o : Outcome) : Except PyExc (List Char) := dumps (.dict (statusData o))

/-- The failure an exception on the way gives. -/
def codergenFailure (e : PyExc) (failedStep : Record) : Outcome where
  status := .fail
  failureReason := some (excText e)
  failedStep := some failedStep

/-- How the handler ends on the outcome it arrived at: the outcome is written and
returned, and a failure in its place where it cannot be written. -/
def codergenEnd (o : Outcome) (failedStep : Record) : Except PyExc (Outcome × List Char) :=
  match writeStatus o with
  | .ok t => .ok (o, t)
  | .error e => (writeStatus (codergenFailure e failedStep)).map fun t =>
      (codergenFailure e failedStep, t)

end Handler

/-! ## What JSON reproduces -/

mutual

/-- Does JSON give back a value that is equal?  Not a tuple, not a key that is no
text, and of the `NaN`s only its own. -/
def reproduced : Value → Bool
  | .float (.nan shared) => shared
  | .list xs => reproducedAll xs
  | .tuple _ => false
  | .dict kvs => reproducedPairs kvs
  | .keyed _ _ => false
  | .other _ _ => false
  | _ => true

def reproducedAll : List Value → Bool
  | [] => true
  | v :: vs => reproduced v && reproducedAll vs

def reproducedPairs : List (String × Value) → Bool
  | [] => true
  | (_, v) :: kvs => reproduced v && reproducedPairs kvs

end

/-- The parts of an outcome the status file speaks about come back equal. -/
def Outcome.Reproduced (o : Outcome) : Prop :=
  reproduced (optionIds o.suggestedNextIds) = true ∧
    reproduced (optionRecord o.contextUpdates) = true

section Compared

variable [Runtime]

/-- Inside a list or an object, the same object is equal. -/
def sameItem (v w : Value) : Bool := v.isSharedNan && w.isSharedNan || v.pyEq w

mutual

theorem sameItem_viaJson : ∀ v : Value, Exact v → sameItem v.viaJson v = reproduced v
  | .none, _ => rfl
  | .bool true, _ | .bool false, _ => rfl
  | .int i, _ => by simp [sameItem, Value.viaJson, Value.pyEq, Value.number, reproduced, Value.isSharedNan]
  | .float (.finite q), _ => by
    simp [sameItem, Value.viaJson, Value.pyEq, Value.number, reproduced, Value.isSharedNan]
  | .float (.inf negative), _ => by
    simp [sameItem, Value.viaJson, Value.pyEq, reproduced, Value.isSharedNan]
  | .float (.nan true), _ | .float (.nan false), _ => rfl
  | .str s, _ => by simp [sameItem, Value.viaJson, Value.pyEq, reproduced, Value.isSharedNan]
  | .list xs, h => pyEqAll_viaJson xs h
  | .tuple xs, _ => rfl
  | .dict kvs, h => by
    show ((Value.viaJsonPairs kvs).length == kvs.length &&
      Value.pyEqIn (Value.viaJsonPairs kvs) kvs) = reproducedPairs kvs
    rw [Value.viaJsonPairs_eq_map, List.length_map, beq_self_eq_true, Bool.true_and,
      ← Value.viaJsonPairs_eq_map]
    exact pyEqIn_viaJson kvs h.1 kvs (fun _ hp => hp) h.2
  | .keyed _ _, _ => rfl
  | .other _ _, _ => rfl

theorem pyEqAll_viaJson : ∀ vs : List Value, ExactAll vs →
    Value.pyEqAll (Value.viaJsonAll vs) vs = reproducedAll vs
  | [], _ => rfl
  | v :: vs, h => by
    show (sameItem v.viaJson v && Value.pyEqAll (Value.viaJsonAll vs) vs) = _
    rw [sameItem_viaJson v h.1, pyEqAll_viaJson vs h.2, reproducedAll]

/-- Every entry is found under its key. -/
theorem pyEqIn_viaJson (whole : List (String × Value)) (hkeys : (whole.map Prod.fst).Nodup) :
    ∀ kvs : List (String × Value), kvs ⊆ whole → ExactPairs kvs →
      Value.pyEqIn (Value.viaJsonPairs kvs) whole = reproducedPairs kvs
  | [], _, _ => rfl
  | (k, v) :: kvs, hsub, h => by
    have hfound : Dict.lookup k whole = some v :=
      (Dict.lookup_eq_some_iff hkeys).mpr (hsub List.mem_cons_self)
    rw [Value.viaJsonPairs, Value.pyEqIn, hfound]
    show (sameItem v.viaJson v && Value.pyEqIn (Value.viaJsonPairs kvs) whole) = _
    rw [sameItem_viaJson v h.1, pyEqIn_viaJson whole hkeys kvs
      (fun _ hp => hsub (List.mem_cons_of_mem _ hp)) h.2, reproducedPairs]

end

/-- What the handler's own file stands for. -/
def ownCandidate (o : Outcome) : Outcome where
  status := o.status
  preferredLabel := o.preferredLabel
  suggestedNextIds := o.suggestedNextIds.map Value.viaJsonAll
  contextUpdates := o.contextUpdates.map Record.viaJson
  notes := o.notes
  isExplicit := true
  sessionId := o.sessionId
  responseText := o.responseText

omit [Runtime] in
theorem optionText_viaJson (s : Option String) : (optionText s).viaJson = optionText s := by
  cases s <;> rfl

omit [Runtime] in
theorem statusData_keys (o : Outcome) : ((statusData o).map Prod.fst).Nodup := by
  rw [show (statusData o).map Prod.fst = ["outcome", "status", "preferred_next_label",
    "preferred_label", "suggested_next_ids", "context_updates", "notes", "failure_reason",
    "is_explicit", "session_id"] from rfl]
  decide

theorem exact_optionText (s : Option String) : Exact (optionText s) := by
  cases s <;> trivial

theorem statusData_exact {o : Outcome} (hids : Exact (optionIds o.suggestedNextIds))
    (hupdates : Exact (optionRecord o.contextUpdates)) : Exact (.dict (statusData o)) :=
  ⟨statusData_keys o, trivial, trivial, exact_optionText _, exact_optionText _, hids, hupdates,
    exact_optionText _, exact_optionText _, trivial, exact_optionText _, trivial⟩

theorem statusCandidate_own (o : Outcome) :
    statusCandidate (Dict.ofList (Value.viaJsonPairs (statusData o))) o = .ok (ownCandidate o) := by
  have hget (key : String) : (Dict.ofList (Value.viaJsonPairs (statusData o))).get? key =
      Dict.lookup key (Value.viaJsonPairs (statusData o)) := by
    rw [Dict.get?, entries_viaJsonPairs (statusData_keys o)]
  have houtcome : (Dict.ofList (Value.viaJsonPairs (statusData o))).get? "outcome" =
      some (.str o.status.value) := hget _
  have hlabel : fieldOf (Dict.ofList (Value.viaJsonPairs (statusData o))) "preferred_label" =
      optionText o.preferredLabel := by
    rw [fieldOf, Dict.getD, hget]
    exact optionText_viaJson _
  have hids : fieldOf (Dict.ofList (Value.viaJsonPairs (statusData o))) "suggested_next_ids" =
      (optionIds o.suggestedNextIds).viaJson := by
    rw [fieldOf, Dict.getD, hget]
    rfl
  have hupdates : fieldOf (Dict.ofList (Value.viaJsonPairs (statusData o))) "context_updates" =
      (optionRecord o.contextUpdates).viaJson := by
    rw [fieldOf, Dict.getD, hget]
    rfl
  have hnotes : fieldOf (Dict.ofList (Value.viaJsonPairs (statusData o))) "notes" =
      optionText o.notes := by
    rw [fieldOf, Dict.getD, hget]
    exact optionText_viaJson _
  have htext (t : Option String) (key : String) (h : fieldOf (Dict.ofList
      (Value.viaJsonPairs (statusData o))) key = optionText t) :
      textField (Dict.ofList (Value.viaJsonPairs (statusData o))) key = .ok t := by
    rw [textField, h]
    cases t <;> rfl
  have hstatus : statusOf (.str o.status.value) = some o.status := StageStatus.ofValue?_value _
  have hrecord (r : Record) : (Dict.ofList (Value.viaJsonPairs r.entries) : Record) = r.viaJson := by
    rw [Value.viaJsonPairs_eq_map]
    exact Dict.ofList_entries r.viaJson
  unfold statusCandidate
  rw [houtcome]
  simp only [bind, Except.bind, hids, hupdates, htext _ _ hlabel, htext _ _ hnotes, hstatus]
  cases hi : o.suggestedNextIds with
  | none =>
    cases hu : o.contextUpdates with
    | none => simp [optionIds, optionRecord, Value.viaJson, ownCandidate, hi, hu, pure, Except.pure]
    | some r => simp [optionIds, optionRecord, Value.viaJson, ownCandidate, hi, hu, hrecord, pure, Except.pure]
  | some ids =>
    cases hu : o.contextUpdates with
    | none => simp [optionIds, optionRecord, Value.viaJson, ownCandidate, hi, hu, pure, Except.pure]
    | some r => simp [optionIds, optionRecord, Value.viaJson, ownCandidate, hi, hu, hrecord, pure, Except.pure]

theorem matchesOutcome_own {o : Outcome} (hids : Exact (optionIds o.suggestedNextIds))
    (hupdates : Exact (optionRecord o.contextUpdates)) :
    matchesOutcome (ownCandidate o) o = true ↔ o.Reproduced := by
  have hidsEq : (optionIds (ownCandidate o).suggestedNextIds).pyEq (optionIds o.suggestedNextIds) =
      reproduced (optionIds o.suggestedNextIds) := by
    have hsame := sameItem_viaJson _ hids
    show (optionIds (o.suggestedNextIds.map Value.viaJsonAll)).pyEq _ = _
    cases hi : o.suggestedNextIds with
    | none => rfl
    | some ids =>
      rw [hi] at hsame
      exact hsame
  have hupdatesEq : (optionRecord (ownCandidate o).contextUpdates).pyEq
      (optionRecord o.contextUpdates) = reproduced (optionRecord o.contextUpdates) := by
    have hsame := sameItem_viaJson _ hupdates
    show (optionRecord (o.contextUpdates.map Record.viaJson)).pyEq _ = _
    cases hu : o.contextUpdates with
    | none => rfl
    | some r =>
      rw [hu] at hsame
      rw [← hsame, optionRecord, Record.viaJson_dict]
      rfl
  unfold matchesOutcome
  rw [hidsEq, hupdatesEq]
  simp [ownCandidate, Outcome.Reproduced]

end Compared

section Neutral

variable [Runtime] (message : List Char → String)

/-- The override the disk gives, its files read by the `json` module. -/
def statusOverride (node : Node) (logsRoot : String) (nodeStartWall : Int)
    (handlerOutcome : Outcome) (disk : Disk) : Except PyExc (Option Outcome) :=
  letI := fileReader message
  readStatusOverride node logsRoot nodeStartWall handlerOutcome disk

/-- The attempt ends with the outcome its handler returned. -/
def StatusNeutral (node : Node) (logsRoot : String) (a : AttemptEnd) (o : Outcome) : Prop :=
  letI := fileReader message
  statusOverride message node logsRoot a.startWall o a.disk = .ok none ∧
    ∀ nodeStartWall attempt maxAttempts last,
      afterAttempt node logsRoot nodeStartWall attempt maxAttempts last a =
        afterOutcome node nodeStartWall attempt maxAttempts a o

/-- What is read of the handler's own file. -/
theorem statusOverride_own {node : Node} {logsRoot : String} {mtimeNs : Int}
    (nodeStartWall : Int) {o : Outcome} {disk : Disk} (hids : Exact (optionIds o.suggestedNextIds))
    (hupdates : Exact (optionRecord o.contextUpdates))
    (hfile : disk.stat (statusPath logsRoot node.id) =
      .present mtimeNs (.ok (fileBytes (text 0 (.dict (statusData o)))))) :
    statusOverride message node logsRoot nodeStartWall o disk =
      .ok (if wroteAfterNodeStart mtimeNs nodeStartWall = false ∨ matchesOutcome (ownCandidate o) o = true
        then none else some (ownCandidate o)) := by
  have hread := fileReader_loads message (loads_text (statusData_exact hids hupdates))
  rw [Value.viaJson] at hread
  unfold statusOverride readStatusOverride
  dsimp only
  rw [hfile]
  dsimp only
  by_cases hfresh : wroteAfterNodeStart mtimeNs nodeStartWall = true
  · rw [if_neg (by simp [hfresh]), hread]
    dsimp only
    rw [statusCandidate_own]
    dsimp only
    by_cases hmatches : matchesOutcome (ownCandidate o) o = true
    · rw [if_pos hmatches, if_pos (.inr hmatches)]
    · rw [if_neg hmatches, if_neg (by simp [hfresh, hmatches])]
  · have hstale := Bool.eq_false_iff.mpr hfresh
    rw [if_pos (by simp [hstale]), if_pos (.inl hstale)]

theorem codergenEnd_ok {result o : Outcome} {failedStep : Record} {t : List Char}
    (h : codergenEnd result failedStep = .ok (o, t)) : t = text 0 (.dict (statusData o)) ∧
      (Faultless strictFault 0 (.dict (statusData result)) ∧ o = result ∨
        ¬Faultless strictFault 0 (.dict (statusData result)) ∧
          ∃ e, o = codergenFailure e failedStep) := by
  unfold codergenEnd at h
  by_cases hfine : Faultless strictFault 0 (.dict (statusData result))
  · rw [writeStatus, dumps_of_faultless hfine] at h
    cases h
    exact ⟨rfl, .inl ⟨hfine, rfl⟩⟩
  · obtain ⟨e, he⟩ := dumps_raises hfine
    rw [writeStatus, he] at h
    dsimp only at h
    have hfailure : Faultless strictFault 0 (.dict (statusData (codergenFailure e failedStep))) := by
      simp [Faultless, FaultlessPairs, statusData, codergenFailure, strictFault, refusal, optionText,
        optionIds, optionRecord]
    rw [writeStatus, dumps_of_faultless hfailure] at h
    cases h
    exact ⟨rfl, .inr ⟨hfine, e, rfl⟩⟩

end Neutral

section Demo

open Py.Ascii

def workNode : Node := { id := "work" }

/-- A disk on which the handler's own file is the only one. -/
def ownFile (t : List Char) : Disk where
  cwd := "/"
  stat path := if path = statusPath "/logs" "work" then .present 1 (.ok (fileBytes t)) else .absent

def ownMessage (_ : List Char) : String := "Expecting value: line 1 column 1 (char 0)"

/-- A success the backend did not assert. -/
def updating (updates : List (String × Value)) : Outcome where
  status := .success
  contextUpdates := some (.ofList updates)

def writtenEnd (o : Outcome) : AttemptEnd where
  handler := .returned o
  context := {}
  startWall := 0
  disk := ownFile (text 0 (.dict (statusData o)))

def listOutcome : Outcome := updating [("pair", .list [.int 1])]

def tupleOutcome : Outcome := updating [("pair", .tuple [.int 1])]

end Demo

end DotRunner
