import DotRunner.Engine.Restoring
import DotRunner.Py.Ascii

/-!
# What the ladder vouches for

The documents on which a resume is refused by the ladder or restored without an
exception, and on no other: field by field, each where the code comes to read
it.
-/

namespace DotRunner

open Py

/-! ## Exceptions that escape -/

def NoEscape {α : Type} (r : Except LadderExc α) : Prop := ∀ e, r ≠ .error (.escaped e)

section NoEscape

variable {α β : Type}

theorem noEscape_ok (a : α) : NoEscape (.ok a : Except LadderExc α) := fun _ h => by cases h

theorem noEscape_refused (r : CheckpointResumeError) :
    NoEscape (.error (.refused r) : Except LadderExc α) := fun _ h => by cases h

theorem noEscape_bind {r : Except LadderExc α} {f : α → Except LadderExc β} :
    NoEscape (r >>= f) ↔ NoEscape r ∧ ∀ a, r = .ok a → NoEscape (f a) := by
  cases r with
  | error e =>
    constructor
    · intro h
      refine ⟨fun e' he => h e' ?_, fun a ha => by cases ha⟩
      cases he
      rfl
    · intro h e' he
      apply h.1 e'
      cases he
      rfl
  | ok a =>
    constructor
    · intro h
      refine ⟨noEscape_ok a, fun a' ha => ?_⟩
      cases ha
      exact h
    · intro h
      exact h.2 a rfl

theorem noEscape_escaping {r : Except PyExc α} : NoEscape (escaping r) ↔ ∃ a, r = .ok a := by
  cases r with
  | error e => exact ⟨fun h => absurd rfl (h e), fun ⟨a, ha⟩ => nomatch ha⟩
  | ok a => exact ⟨fun _ => ⟨a, rfl⟩, fun _ => noEscape_ok a⟩

theorem escaping_eq_ok {r : Except PyExc α} {a : α} : escaping r = .ok a ↔ r = .ok a := by
  cases r with
  | error e => exact ⟨fun h => (nomatch h), fun h => nomatch h⟩
  | ok b => exact ⟨fun h => by cases h; rfl, fun h => by cases h; rfl⟩

end NoEscape

section Vouched

variable [Runtime]

/-! ## Rungs 1 to 5 -/

/-- An object rung 2 can make a checkpoint of, whatever its version. -/
structure WellShaped (d : Record) : Prop where
  completed : ∃ l, pyList (d.getD "completed_nodes" (.list [])) = .ok l
  graph : ∀ kvs, d.getD "graph" (.dict []) = .dict kvs → WellFormedGraphBlock kvs
  current : ∃ v, d.get? "current_node" = some v

/-- The fields of a document, with the defaults of the loader. -/
def fieldsOf (d : Record) : Checkpoint where
  currentNode := d.getD "current_node" .none
  completedNodes := (pyList (d.getD "completed_nodes" (.list []))).toOption.getD []
  contextSnapshot := d.getD "context" (.dict [])
  timestamp := d.getD "timestamp" (.str "")
  nodeRetries := d.getD "node_retries" (.dict [])
  logs := d.getD "logs" (.list [])
  schemaVersion := (d.getD "schema_version" (.int 1)).toInt.toOption.getD 1
  runState := d.getD "run_state" (.str runStateInFlight)
  nodeOutcomes := (d.getD "node_outcomes" .none).orElse (.dict [])
  engineState := (d.getD "engine_state" .none).orElse (.dict [])
  graph := match d.getD "graph" (.dict []) with
    | .dict kvs => kvs
    | _ => []

omit [Runtime] in
def IsObject (v : Value) : Prop := ∃ kvs, v = .dict kvs

omit [Runtime] in
def IsInfinite (v : Value) : Prop := ∃ negative, v = .float (.inf negative)

def Checkpoint.Identified (cp : Checkpoint) (source : Option String) : Prop :=
  cp.graphFingerprint ≠ "" ∧ cp.graphDotSource ≠ "" ∧
    ∀ s, source = some s → fingerprintDotSource s = cp.graphFingerprint

theorem validatedGraphBlock_ok_iff (path : String) {block : Value}
    {kvs : List (String × Value)} :
    validatedGraphBlock block path = .ok kvs ↔
      (∀ l, block = .dict l → WellFormedGraphBlock l) ∧ kvs = match block with
        | .dict l => l
        | _ => [] := by
  cases block with
  | dict l =>
    cases hs : (Dict.ofList l).get? "source_dir" with
    | none =>
      simp only [validatedGraphBlock, hs, Except.ok.injEq]
      refine ⟨fun h => ⟨fun l' hl => ?_, h.symm⟩, fun h => h.2.symm⟩
      cases hl
      intro v hv
      rw [hs] at hv
      cases hv
    | some v =>
      have hwell : WellFormedGraphBlock l ↔ ∃ s, v = .str s := by
        constructor
        · intro h
          exact h v hs
        · intro h v' hv'
          rw [hs] at hv'
          cases hv'
          exact h
      have hdict : (∀ l', Value.dict l = .dict l' → WellFormedGraphBlock l') ↔
          ∃ s, v = .str s := by
        rw [← hwell]
        exact ⟨fun h => h l rfl, fun h l' hl => by cases hl; exact h⟩
      rw [hdict]
      cases v with
      | str s =>
        simp only [validatedGraphBlock, hs, Except.ok.injEq]
        exact ⟨fun h => ⟨⟨s, rfl⟩, h.symm⟩, fun h => h.2.symm⟩
      | _ =>
        simp only [validatedGraphBlock, hs]
        refine ⟨fun h => (by cases h), ?_⟩
        rintro ⟨⟨s, hv⟩, -⟩
        cases hv
  | _ =>
    simp only [validatedGraphBlock, Except.ok.injEq]
    exact ⟨fun h => ⟨fun l hl => (by cases hl), h.symm⟩, fun h => h.2.symm⟩

/-- What rung 2 catches. -/
def Caught : PyExc → Prop
  | .checkpointFormatError _ | .keyError _ | .typeError _ | .valueError _ => True
  | _ => False

theorem noEscape_loadFailure {α : Type} {path : String} {e : PyExc} :
    NoEscape (.error (loadFailure path e) : Except LadderExc α) ↔ Caught e := by
  cases e with
  | checkpointFormatError _ | keyError _ | typeError _ | valueError _ =>
    exact ⟨fun _ => trivial, fun _ => noEscape_refused _⟩
  | _ => exact ⟨fun h => h _ rfl, fun h => h.elim⟩

omit [Runtime] in
theorem caught_of_pyList {v : Value} {e : PyExc} (h : pyList v = .error e) : Caught e := by
  cases v with
  | list _ | tuple _ | str _ | dict _ => cases h
  | _ =>
    cases h
    trivial

theorem caught_of_graphBlock {block : Value} {path : String} {e : PyExc}
    (h : validatedGraphBlock block path = .error e) : Caught e := by
  unfold validatedGraphBlock at h
  split at h
  · split at h
    · cases h
    · cases h
    · cases h
      trivial
  · cases h

/-- Of the ways `int(v)` can raise only one escapes. -/
theorem caught_iff_of_toInt {v : Value} {e : PyExc} (h : v.toInt = .error e) :
    Caught e ↔ ¬ IsInfinite v := by
  have hcaught : Caught e → ¬ IsInfinite v → (Caught e ↔ ¬ IsInfinite v) := fun hc hi =>
    ⟨fun _ => hi, fun _ => hc⟩
  cases v with
  | bool b | int i => cases h
  | float f =>
    cases f with
    | finite q => cases h
    | inf negative =>
      cases h
      exact ⟨fun hc => hc.elim, fun hi => absurd ⟨negative, rfl⟩ hi⟩
    | nan shared =>
      cases h
      exact hcaught (trivial) fun ⟨_, hi⟩ => by cases hi
  | str s =>
    cases hp : Text.parseInt s.toList with
    | some i =>
      simp only [Value.toInt, hp] at h
      cases h
    | none =>
      simp only [Value.toInt, hp] at h
      cases h
      exact hcaught (trivial) fun ⟨_, hi⟩ => by cases hi
  | none | list _ | tuple _ | dict _ | keyed _ _ | other _ _ =>
    cases h
    exact hcaught (trivial) fun ⟨_, hi⟩ => by cases hi

/-- The version field of a document. -/
def versionField (d : Record) : Value := d.getD "schema_version" (.int 1)

theorem loadCheckpoint_wellShaped (path : String) {kvs : List (String × Value)}
    (h : WellShaped (Dict.ofList kvs)) : loadCheckpoint path (.dict kvs) =
      (versionField (Dict.ofList kvs)).toInt.map fun _ => fieldsOf (Dict.ofList kvs) := by
  obtain ⟨completed, hcompleted⟩ := h.completed
  obtain ⟨current, hcurrent⟩ := h.current
  have hblock := (validatedGraphBlock_ok_iff path).mpr ⟨h.graph, rfl⟩
  have hnode : (Dict.ofList kvs : Record).getD "current_node" .none = current := by
    rw [Dict.getD, hcurrent, Option.getD_some]
  cases hv : (versionField (Dict.ofList kvs)).toInt with
  | error e =>
    have hversion : ((Dict.ofList kvs : Record).getD "schema_version" (.int 1)).toInt = .error e := hv
    simp only [loadCheckpoint, hcompleted, hblock, hcurrent, hversion, bind, Except.bind, Except.map]
  | ok n =>
    have hversion : ((Dict.ofList kvs : Record).getD "schema_version" (.int 1)).toInt = .ok n := hv
    simp only [loadCheckpoint, fieldsOf, hcompleted, hblock, hcurrent, hversion, hnode, bind,
      Except.bind, pure, Except.pure, Except.map, Except.toOption, Option.getD_some]

theorem loadCheckpoint_misshaped (path : String) {kvs : List (String × Value)}
    (h : ¬ WellShaped (Dict.ofList kvs)) :
    ∃ e, loadCheckpoint path (.dict kvs) = .error e ∧ Caught e := by
  cases hcompleted : pyList ((Dict.ofList kvs : Record).getD "completed_nodes" (.list [])) with
  | error e => exact ⟨e, by simp only [loadCheckpoint, hcompleted, bind, Except.bind],
      caught_of_pyList hcompleted⟩
  | ok completed =>
    cases hblock : validatedGraphBlock ((Dict.ofList kvs : Record).getD "graph" (.dict [])) path with
    | error e => exact ⟨e, by simp only [loadCheckpoint, hcompleted, hblock, bind, Except.bind],
        caught_of_graphBlock hblock⟩
    | ok block =>
      cases hcurrent : (Dict.ofList kvs : Record).get? "current_node" with
      | none => exact ⟨.keyError "current_node", by simp only [loadCheckpoint, hcompleted, hblock,
          hcurrent, bind, Except.bind], trivial⟩
      | some current => exact absurd ⟨⟨completed, hcompleted⟩,
          ((validatedGraphBlock_ok_iff path).mp hblock).1, ⟨current, hcurrent⟩⟩ h

/-- Rung 2 lets one exception through: an infinite version. -/
theorem parseRung_noEscape {path : String} {doc : Value} :
    NoEscape (parseRung path (some (.value doc))) ↔ ∀ kvs, doc = .dict kvs →
      WellShaped (Dict.ofList kvs) → ¬ IsInfinite (versionField (Dict.ofList kvs)) := by
  cases doc with
  | dict kvs =>
    have hone : (∀ kvs', Value.dict kvs = .dict kvs' → WellShaped (Dict.ofList kvs') →
        ¬ IsInfinite (versionField (Dict.ofList kvs'))) ↔
        (WellShaped (Dict.ofList kvs) → ¬ IsInfinite (versionField (Dict.ofList kvs))) :=
      ⟨fun h => h kvs rfl, fun h kvs' hk => by cases hk; exact h⟩
    rw [hone]
    by_cases hw : WellShaped (Dict.ofList kvs)
    · have hload := loadCheckpoint_wellShaped path hw
      cases hv : (versionField (Dict.ofList kvs)).toInt with
      | error e =>
        rw [hv] at hload
        rw [parseRung, hload]
        show NoEscape (.error (loadFailure path e)) ↔ _
        rw [noEscape_loadFailure, caught_iff_of_toInt hv]
        exact ⟨fun h _ => h, fun h => h hw⟩
      | ok n =>
        rw [hv] at hload
        rw [parseRung, hload]
        refine ⟨fun _ _ => ?_, fun _ => noEscape_ok _⟩
        rintro ⟨negative, hi⟩
        rw [hi] at hv
        cases hv
    · obtain ⟨e, hload, hc⟩ := loadCheckpoint_misshaped path hw
      rw [parseRung, hload]
      show NoEscape (.error (loadFailure path e)) ↔ _
      rw [noEscape_loadFailure]
      exact ⟨fun _ h => absurd h hw, fun _ => hc⟩
  | _ => exact ⟨fun _ kvs h => (nomatch h), fun _ => noEscape_refused _⟩

theorem parseRung_ok_iff {path : String} {doc : Value} {cp : Checkpoint} :
    parseRung path (some (.value doc)) = .ok cp ↔ ∃ kvs, doc = .dict kvs ∧
      WellShaped (Dict.ofList kvs) ∧ (∃ n, (versionField (Dict.ofList kvs)).toInt = .ok n) ∧
      cp = fieldsOf (Dict.ofList kvs) := by
  cases doc with
  | dict kvs =>
    by_cases hw : WellShaped (Dict.ofList kvs)
    · have hload := loadCheckpoint_wellShaped path hw
      cases hv : (versionField (Dict.ofList kvs)).toInt with
      | error e =>
        rw [hv] at hload
        rw [parseRung, hload]
        constructor
        · intro h
          cases h
        · rintro ⟨kvs', hk, -, ⟨n, hn⟩, -⟩
          cases hk
          rw [hv] at hn
          cases hn
      | ok n =>
        rw [hv] at hload
        rw [parseRung, hload]
        constructor
        · intro h
          cases h
          exact ⟨kvs, rfl, hw, ⟨n, hv⟩, rfl⟩
        · rintro ⟨kvs', hk, -, -, rfl⟩
          cases hk
          rfl
    · obtain ⟨e, hload, hc⟩ := loadCheckpoint_misshaped path hw
      rw [parseRung, hload]
      constructor
      · intro h
        cases h
      · rintro ⟨kvs', hk, hw', -⟩
        cases hk
        exact absurd hw' hw
  | _ => exact ⟨fun h => (nomatch h), fun ⟨_, h, _⟩ => (nomatch h)⟩

omit [Runtime] in
theorem versionRung_noEscape (path : String) (cp : Checkpoint) : NoEscape (versionRung path cp) := by
  unfold versionRung
  split
  · exact noEscape_refused _
  · exact noEscape_ok _

omit [Runtime] in
theorem versionRung_ok_iff {path : String} {cp : Checkpoint} :
    versionRung path cp = .ok () ↔ cp.schemaVersion = schemaVersion := by
  unfold versionRung
  split
  · rename_i h
    exact ⟨fun hc => (nomatch hc), fun hv => absurd hv h⟩
  · rename_i h
    exact ⟨fun _ => Classical.not_not.mp h, fun _ => rfl⟩

omit [Runtime] in
theorem asDict_ok_iff {v : Value} : (∃ r, asDict v = .ok r) ↔ IsObject v := by
  cases v with
  | dict kvs => exact ⟨fun _ => ⟨kvs, rfl⟩, fun _ => ⟨_, rfl⟩⟩
  | _ => exact ⟨fun ⟨_, h⟩ => (nomatch h), fun ⟨_, h⟩ => (nomatch h)⟩

/-- Rung 4 looks into the context of a run that is not in flight. -/
theorem livenessRung_noEscape {path : String} {cp : Checkpoint} :
    NoEscape (livenessRung path cp) ↔
      (cp.runState.pyEq (.str runStateInFlight) = false → IsObject cp.contextSnapshot) := by
  unfold livenessRung
  by_cases hr : cp.runState.pyEq (.str runStateInFlight) = true
  · rw [if_pos hr, hr]
    exact ⟨fun _ h => (nomatch h), fun _ => noEscape_ok _⟩
  · rw [if_neg hr, noEscape_bind, noEscape_escaping, asDict_ok_iff]
    exact ⟨fun h _ => h.1, fun h => ⟨h (eq_false_of_ne_true hr), fun _ _ => noEscape_refused _⟩⟩

theorem livenessRung_ok_iff {path : String} {cp : Checkpoint} :
    livenessRung path cp = .ok () ↔ cp.runState.pyEq (.str runStateInFlight) = true := by
  unfold livenessRung
  by_cases hr : cp.runState.pyEq (.str runStateInFlight) = true
  · rw [if_pos hr]
    exact ⟨fun _ => hr, fun _ => rfl⟩
  · rw [if_neg hr, bind_ok_iff]
    exact ⟨fun ⟨_, _, h⟩ => (nomatch h), fun h => absurd h hr⟩

theorem identityRung_noEscape (path : String) (cp : Checkpoint) (source : Option String) :
    NoEscape (identityRung path cp source) := by
  unfold identityRung
  split
  · exact noEscape_refused _
  · split
    · exact noEscape_ok _
    · split
      · exact noEscape_refused _
      · exact noEscape_ok _

theorem identityRung_ok_iff {path : String} {cp : Checkpoint} {source : Option String} :
    identityRung path cp source = .ok () ↔ cp.Identified source := by
  unfold identityRung Checkpoint.Identified
  by_cases hid : cp.graphFingerprint = "" ∨ cp.graphDotSource = ""
  · rw [if_pos hid]
    refine ⟨fun h => (nomatch h), fun h => ?_⟩
    rcases hid with hf | hd
    · exact absurd hf h.1
    · exact absurd hd h.2.1
  · rw [if_neg hid]
    rw [not_or] at hid
    cases source with
    | none => exact ⟨fun _ => ⟨hid.1, hid.2, fun s hs => (nomatch hs)⟩, fun _ => rfl⟩
    | some s =>
      by_cases hs : fingerprintDotSource s = cp.graphFingerprint
      · simp only [ne_eq, hs, not_true_eq_false, if_false, true_iff]
        refine ⟨hid.1, hid.2, fun s' hs' => ?_⟩
        cases hs'
        exact hs
      · simp only [ne_eq, hs, not_false_eq_true, if_true]
        exact ⟨fun h => (nomatch h), fun h => absurd (h.2.2 s rfl) hs⟩

theorem schemaVersion_fieldsOf {d : Record} :
    (fieldsOf d).schemaVersion = schemaVersion ↔ (versionField d).toInt = .ok schemaVersion := by
  show (versionField d).toInt.toOption.getD 1 = schemaVersion ↔ _
  cases (versionField d).toInt with
  | error e =>
    have hone : (1 : Int) ≠ schemaVersion := by decide
    exact ⟨fun h => absurd h hone, fun h => (nomatch h)⟩
  | ok n => exact ⟨fun h => congrArg Except.ok h, fun h => Except.ok.inj h⟩

theorem loadCheckpointForResume_ok_iff {path : String} {doc : Value} {source : Option String}
    {cp : Checkpoint} :
    loadCheckpointForResume path (some (.value doc)) source = .ok cp ↔ ∃ kvs, doc = .dict kvs ∧
      WellShaped (Dict.ofList kvs) ∧ (versionField (Dict.ofList kvs)).toInt = .ok schemaVersion ∧
      (fieldsOf (Dict.ofList kvs)).runState.pyEq (.str runStateInFlight) = true ∧
      (fieldsOf (Dict.ofList kvs)).Identified source ∧ cp = fieldsOf (Dict.ofList kvs) := by
  unfold loadCheckpointForResume
  simp only [bind_ok_iff, parseRung_ok_iff]
  constructor
  · rintro ⟨cp', ⟨kvs, hdoc, hw, -, rfl⟩, _, hversion, _, hlive, _, hid, hcp⟩
    cases hcp
    exact ⟨kvs, hdoc, hw, schemaVersion_fieldsOf.mp (versionRung_ok_iff.mp hversion),
      livenessRung_ok_iff.mp hlive, identityRung_ok_iff.mp hid, rfl⟩
  · rintro ⟨kvs, hdoc, hw, hversion, hlive, hid, rfl⟩
    exact ⟨_, ⟨kvs, hdoc, hw, ⟨_, hversion⟩, rfl⟩, (),
      versionRung_ok_iff.mpr (schemaVersion_fieldsOf.mpr hversion), (),
      livenessRung_ok_iff.mpr hlive, (), identityRung_ok_iff.mpr hid, rfl⟩

/-- Two exceptions escape rungs 1 to 5: an infinite version, and a context that is
no object where the run is not in flight. -/
theorem loadCheckpointForResume_noEscape {path : String} {doc : Value} {source : Option String} :
    NoEscape (loadCheckpointForResume path (some (.value doc)) source) ↔ ∀ kvs, doc = .dict kvs →
      WellShaped (Dict.ofList kvs) → ¬ IsInfinite (versionField (Dict.ofList kvs)) ∧
        ((versionField (Dict.ofList kvs)).toInt = .ok schemaVersion →
          (fieldsOf (Dict.ofList kvs)).runState.pyEq (.str runStateInFlight) = false →
          IsObject (fieldsOf (Dict.ofList kvs)).contextSnapshot) := by
  unfold loadCheckpointForResume
  rw [noEscape_bind, parseRung_noEscape]
  have hrest : ∀ cp : Checkpoint, NoEscape (do
      versionRung path cp
      livenessRung path cp
      identityRung path cp source
      return cp) ↔ (cp.schemaVersion = schemaVersion →
        cp.runState.pyEq (.str runStateInFlight) = false → IsObject cp.contextSnapshot) := by
    intro cp
    rw [noEscape_bind]
    constructor
    · intro h hversion hlive
      have hrung := h.2 () (versionRung_ok_iff.mpr hversion)
      rw [noEscape_bind] at hrung
      exact livenessRung_noEscape.mp hrung.1 hlive
    · intro h
      refine ⟨versionRung_noEscape path cp, fun _ hversion => ?_⟩
      rw [noEscape_bind]
      refine ⟨livenessRung_noEscape.mpr (h (versionRung_ok_iff.mp hversion)), fun _ _ => ?_⟩
      rw [noEscape_bind]
      exact ⟨identityRung_noEscape path cp source, fun _ _ => noEscape_ok cp⟩
  constructor
  · rintro ⟨hinf, hok⟩ kvs hdoc hw
    refine ⟨hinf kvs hdoc hw, fun hversion => ?_⟩
    have hcp := (hrest _).mp (hok _ (parseRung_ok_iff.mpr ⟨kvs, hdoc, hw, ⟨_, hversion⟩, rfl⟩))
    exact hcp (schemaVersion_fieldsOf.mpr hversion)
  · intro h
    refine ⟨fun kvs hdoc hw => (h kvs hdoc hw).1, fun cp hcp => ?_⟩
    obtain ⟨kvs, hdoc, hw, -, rfl⟩ := parseRung_ok_iff.mp hcp
    exact (hrest _).mpr fun hversion => (h kvs hdoc hw).2 (schemaVersion_fieldsOf.mp hversion)

/-! ## Rung 6 -/

omit [Runtime] in
theorem inNodes_noEscape {g : Graph} {v : Value} : NoEscape (inNodes g v) ↔ v.hashable = true := by
  unfold inNodes
  by_cases hv : v.hashable = true
  · rw [if_pos hv]
    exact ⟨fun _ => hv, fun _ => noEscape_ok _⟩
  · rw [if_neg hv]
    exact ⟨fun h => absurd rfl (h _), fun h => absurd h hv⟩

omit [Runtime] in
theorem inNodes_ok_iff {g : Graph} {v : Value} {known : Bool} :
    inNodes g v = .ok known ↔ v.hashable = true ∧ known = (g.nodeOfValue? v).isSome := by
  unfold inNodes
  by_cases hv : v.hashable = true
  · rw [if_pos hv]
    exact ⟨fun h => ⟨hv, (Except.ok.inj h).symm⟩, fun h => congrArg Except.ok h.2.symm⟩
  · rw [if_neg hv]
    exact ⟨fun h => (nomatch h), fun h => absurd h.1 hv⟩

omit [Runtime] in
theorem unknownNodes_noEscape {g : Graph} {l : List Value} :
    NoEscape (unknownNodes g l) ↔ ∀ v ∈ l, v.hashable = true := by
  induction l with
  | nil => exact ⟨fun _ v hv => absurd hv List.not_mem_nil, fun _ => noEscape_ok _⟩
  | cons v rest ih =>
    rw [unknownNodes, noEscape_bind, inNodes_noEscape, List.forall_mem_cons]
    refine and_congr_right fun hv => ?_
    constructor
    · intro h
      have hrest := h _ (inNodes_ok_iff.mpr ⟨hv, rfl⟩)
      rw [noEscape_bind] at hrest
      exact ih.mp hrest.1
    · intro h known _
      rw [noEscape_bind]
      exact ⟨ih.mpr h, fun _ _ => noEscape_ok _⟩

omit [Runtime] in
theorem unknownNodes_ok {g : Graph} {l : List Value} (h : ∀ v ∈ l, v.hashable = true) :
    unknownNodes g l = .ok (l.filter fun v => (g.nodeOfValue? v).isNone) := by
  induction l with
  | nil => rfl
  | cons v rest ih =>
    rw [List.forall_mem_cons] at h
    have hv : inNodes g v = .ok (g.nodeOfValue? v).isSome := inNodes_ok_iff.mpr ⟨h.1, rfl⟩
    rw [unknownNodes, hv, ih h.2]
    cases hn : g.nodeOfValue? v with
    | none => simp [bind, Except.bind, pure, Except.pure, hn]
    | some n => simp [bind, Except.bind, pure, Except.pure, hn]

/-- An outcome record of a node with a status of its own. -/
def ValidRecord (g : Graph) (p : String × Value) : Prop :=
  (g.node? p.1).isSome ∧ ∃ kvs, p.2 = .dict kvs ∧
    isValidStatus ((Dict.ofList kvs : Record).getD "status" .none) = true

/-- An outcome record whose status is a list or an object. -/
def UnhashableStatus (g : Graph) (p : String × Value) : Prop :=
  (g.node? p.1).isSome ∧ ∃ kvs, p.2 = .dict kvs ∧
    ((Dict.ofList kvs : Record).getD "status" .none).hashable = false

omit [Runtime] in
theorem hashable_of_isValidStatus {v : Value} (h : isValidStatus v = true) : v.hashable = true := by
  cases v with
  | str s => rfl
  | _ => cases h

theorem verifyRecord_ok_iff {g : Graph} {p : String × Value} :
    verifyRecord g p.1 p.2 = .ok () ↔ ValidRecord g p := by
  obtain ⟨nodeId, record⟩ := p
  unfold verifyRecord ValidRecord
  cases hn : g.node? nodeId with
  | none => exact ⟨fun h => (nomatch h), fun h => (nomatch h.1)⟩
  | some n =>
    cases record with
    | dict kvs =>
      by_cases hv : isValidStatus ((Dict.ofList kvs : Record).getD "status" .none) = true
      · simp only [Option.isNone_some, Bool.false_eq_true, if_false, hashable_of_isValidStatus hv,
          Bool.not_true, hv, if_true]
        exact ⟨fun _ => ⟨rfl, kvs, rfl, hv⟩, fun _ => trivial⟩
      · simp only [Option.isNone_some, Bool.false_eq_true, if_false, hv]
        refine ⟨fun h => ?_, fun ⟨_, kvs', hk, hv'⟩ => ?_⟩
        · split at h <;> cases h
        · cases hk
          exact absurd hv' hv
    | _ => exact ⟨fun h => (nomatch h), fun ⟨_, _, h, _⟩ => (nomatch h)⟩

theorem verifyRecord_noEscape {g : Graph} {p : String × Value} :
    NoEscape (verifyRecord g p.1 p.2) ↔ ¬ UnhashableStatus g p := by
  obtain ⟨nodeId, record⟩ := p
  unfold verifyRecord UnhashableStatus
  cases hn : g.node? nodeId with
  | none => exact ⟨fun _ h => (nomatch h.1), fun _ => noEscape_refused _⟩
  | some n =>
    cases record with
    | dict kvs =>
      cases hh : ((Dict.ofList kvs : Record).getD "status" .none).hashable with
      | false =>
        simp only [Option.isNone_some, Bool.false_eq_true, if_false, hh, Bool.not_false, if_true]
        exact ⟨fun h => absurd rfl (h _), fun h => absurd ⟨rfl, kvs, rfl, hh⟩ h⟩
      | true =>
        simp only [Option.isNone_some, Bool.false_eq_true, if_false, hh, Bool.not_true]
        refine ⟨fun _ ⟨_, kvs', hk, hh'⟩ => ?_, fun _ => ?_⟩
        · cases hk
          rw [hh] at hh'
          cases hh'
        · split
          · exact noEscape_ok _
          · exact noEscape_refused _
    | _ => exact ⟨fun _ ⟨_, _, h, _⟩ => (nomatch h), fun _ => noEscape_refused _⟩

theorem verifyRecords_ok_iff {g : Graph} {l : List (String × Value)} :
    verifyRecords g l = .ok () ↔ ∀ p ∈ l, ValidRecord g p := by
  induction l with
  | nil => exact ⟨fun _ p hp => absurd hp List.not_mem_nil, fun _ => rfl⟩
  | cons p rest ih =>
    rw [verifyRecords, bind_ok_iff, List.forall_mem_cons, ← ih, ← verifyRecord_ok_iff]
    exact ⟨fun ⟨_, h, hr⟩ => ⟨h, hr⟩, fun ⟨h, hr⟩ => ⟨(), h, hr⟩⟩

/-- An unhashable status is met only behind records that are all valid. -/
def MeetsUnhashable (g : Graph) (l : List (String × Value)) : Prop :=
  ∃ before p after, l = before ++ p :: after ∧ (∀ q ∈ before, ValidRecord g q) ∧
    UnhashableStatus g p

omit [Runtime] in
theorem meetsUnhashable_cons {g : Graph} {p : String × Value} {rest : List (String × Value)} :
    MeetsUnhashable g (p :: rest) ↔
      UnhashableStatus g p ∨ ValidRecord g p ∧ MeetsUnhashable g rest := by
  constructor
  · rintro ⟨before, q, after, heq, hvalid, hq⟩
    cases before with
    | nil =>
      cases heq
      exact .inl hq
    | cons r before =>
      cases heq
      rw [List.forall_mem_cons] at hvalid
      exact .inr ⟨hvalid.1, before, q, after, rfl, hvalid.2, hq⟩
  · rintro (hp | ⟨hp, before, q, after, rfl, hvalid, hq⟩)
    · exact ⟨[], p, rest, rfl, fun _ h => absurd h List.not_mem_nil, hp⟩
    · exact ⟨p :: before, q, after, rfl, List.forall_mem_cons.mpr ⟨hp, hvalid⟩, hq⟩

theorem verifyRecords_noEscape {g : Graph} {l : List (String × Value)} :
    NoEscape (verifyRecords g l) ↔ ¬ MeetsUnhashable g l := by
  induction l with
  | nil =>
    refine ⟨fun _ h => ?_, fun _ => noEscape_ok _⟩
    obtain ⟨before, p, after, heq, -, -⟩ := h
    simp at heq
  | cons p rest ih =>
    rw [verifyRecords, noEscape_bind, verifyRecord_noEscape, meetsUnhashable_cons, not_or, not_and]
    refine and_congr_right fun _ => ⟨fun h hv => ?_, fun h _ hv => ?_⟩
    · exact ih.mp (h () (verifyRecord_ok_iff.mpr hv))
    · exact ih.mpr (h (verifyRecord_ok_iff.mp hv))

omit [Runtime] in
theorem itemsOf_ok_iff {v : Value} {l : List (String × Value)} :
    itemsOf v = .ok l ↔ ∃ kvs, v = .dict kvs ∧ l = (Dict.ofList kvs).entries := by
  cases v with
  | dict kvs =>
    exact ⟨fun h => ⟨kvs, rfl, (Except.ok.inj h).symm⟩, fun ⟨kvs', hk, hl⟩ => by cases hk; rw [hl]; rfl⟩
  | _ => exact ⟨fun h => (nomatch h), fun ⟨_, h, _⟩ => (nomatch h)⟩

/-- What rung 6 needs so as not to raise, each part where the ones before let the
checkpoint pass. -/
structure VouchedStructure (g : Graph) (cp : Checkpoint) : Prop where
  current : cp.currentNode.hashable = true
  completed : (g.nodeOfValue? cp.currentNode).isSome → ∀ v ∈ cp.completedNodes, v.hashable = true
  outcomes : (g.nodeOfValue? cp.currentNode).isSome →
    (∀ v ∈ cp.completedNodes, (g.nodeOfValue? v).isSome) →
    ∃ kvs, cp.nodeOutcomes = .dict kvs ∧ ¬ MeetsUnhashable g (Dict.ofList kvs).entries

/-- A checkpoint that belongs to the graph. -/
structure Fits (g : Graph) (cp : Checkpoint) : Prop where
  current : (g.nodeOfValue? cp.currentNode).isSome
  completed : ∀ v ∈ cp.completedNodes, (g.nodeOfValue? v).isSome
  outcomes : ∃ kvs, cp.nodeOutcomes = .dict kvs ∧ ∀ p ∈ (Dict.ofList kvs).entries, ValidRecord g p

omit [Runtime] in
theorem hashable_of_nodeOfValue? {g : Graph} {v : Value} (h : (g.nodeOfValue? v).isSome) :
    v.hashable = true := by
  cases v with
  | str s => rfl
  | _ => cases h

omit [Runtime] in
theorem refuseWhen_noEscape {b : Bool} (e : CheckpointResumeError) :
    NoEscape (refuseWhen b (.refused e)) := by
  cases b with
  | false => exact noEscape_ok _
  | true => exact noEscape_refused _

omit [Runtime] in
theorem refuseWhen_ok_iff {b : Bool} {e : LadderExc} : refuseWhen b e = .ok () ↔ b = false := by
  cases b with
  | false => exact ⟨fun _ => rfl, fun _ => rfl⟩
  | true => exact ⟨fun h => (nomatch h), fun h => (nomatch h)⟩

omit [Runtime] in
theorem filter_isNone_isEmpty {g : Graph} {l : List Value} :
    (!(l.filter fun v => (g.nodeOfValue? v).isNone).isEmpty) = false ↔
      ∀ v ∈ l, (g.nodeOfValue? v).isSome := by
  rw [Bool.not_eq_false', List.isEmpty_iff, List.filter_eq_nil_iff]
  simp only [Option.isNone_iff_eq_none, ← ne_eq, Option.ne_none_iff_isSome]

theorem verify_noEscape {g : Graph} {cp : Checkpoint} :
    NoEscape (verifyCheckpointStructure cp g) ↔ VouchedStructure g cp := by
  unfold verifyCheckpointStructure
  rw [noEscape_bind, inNodes_noEscape]
  constructor
  · rintro ⟨hcurrent, h⟩
    have hsteps := h _ (inNodes_ok_iff.mpr ⟨hcurrent, rfl⟩)
    rw [noEscape_bind] at hsteps
    have hcompleted : (g.nodeOfValue? cp.currentNode).isSome →
        NoEscape (unknownNodes g cp.completedNodes) ∧ _ := fun hk => by
      have hnext := hsteps.2 () (refuseWhen_ok_iff.mpr (by rw [hk]; rfl))
      rw [noEscape_bind] at hnext
      exact hnext
    refine ⟨hcurrent, fun hk => unknownNodes_noEscape.mp (hcompleted hk).1, fun hk hall => ?_⟩
    have hhash : ∀ v ∈ cp.completedNodes, v.hashable = true :=
      unknownNodes_noEscape.mp (hcompleted hk).1
    have hnext := (hcompleted hk).2 _ (unknownNodes_ok hhash)
    rw [noEscape_bind] at hnext
    have hitems := hnext.2 () (refuseWhen_ok_iff.mpr (filter_isNone_isEmpty.mpr hall))
    rw [noEscape_bind, noEscape_escaping] at hitems
    obtain ⟨⟨l, hl⟩, hrecords⟩ := hitems
    obtain ⟨kvs, hkvs, rfl⟩ := itemsOf_ok_iff.mp hl
    exact ⟨kvs, hkvs, verifyRecords_noEscape.mp (hrecords _ (escaping_eq_ok.mpr hl))⟩
  · intro h
    refine ⟨h.current, fun known hknown => ?_⟩
    obtain ⟨-, rfl⟩ := inNodes_ok_iff.mp hknown
    rw [noEscape_bind]
    refine ⟨refuseWhen_noEscape _, fun _ hk => ?_⟩
    have hcurrent : (g.nodeOfValue? cp.currentNode).isSome := by
      simpa using refuseWhen_ok_iff.mp hk
    have hhash := h.completed hcurrent
    rw [noEscape_bind]
    refine ⟨unknownNodes_noEscape.mpr hhash, fun unknown hunknown => ?_⟩
    rw [unknownNodes_ok hhash] at hunknown
    cases hunknown
    rw [noEscape_bind]
    refine ⟨refuseWhen_noEscape _, fun _ hall => ?_⟩
    obtain ⟨kvs, hkvs, hrecords⟩ := h.outcomes hcurrent
      (filter_isNone_isEmpty.mp (refuseWhen_ok_iff.mp hall))
    have hitems : itemsOf cp.nodeOutcomes = .ok (Dict.ofList kvs).entries :=
      itemsOf_ok_iff.mpr ⟨kvs, hkvs, rfl⟩
    rw [noEscape_bind, noEscape_escaping]
    refine ⟨⟨_, hitems⟩, fun l hl => ?_⟩
    rw [escaping_eq_ok, hitems] at hl
    cases hl
    exact verifyRecords_noEscape.mpr hrecords

theorem verify_ok_iff {g : Graph} {cp : Checkpoint} :
    verifyCheckpointStructure cp g = .ok () ↔ Fits g cp := by
  unfold verifyCheckpointStructure
  simp only [bind_ok_iff, inNodes_ok_iff, escaping_eq_ok, itemsOf_ok_iff, verifyRecords_ok_iff]
  constructor
  · rintro ⟨_, ⟨-, rfl⟩, _, hk, unknown, hunknown, _, hall, l, ⟨kvs, hkvs, rfl⟩, hrecords⟩
    have hclean : NoEscape (unknownNodes g cp.completedNodes) := by
      rw [hunknown]
      exact noEscape_ok _
    have hhash := unknownNodes_noEscape.mp hclean
    rw [unknownNodes_ok hhash] at hunknown
    cases hunknown
    exact ⟨by simpa using refuseWhen_ok_iff.mp hk,
      filter_isNone_isEmpty.mp (refuseWhen_ok_iff.mp hall), kvs, hkvs, hrecords⟩
  · intro h
    obtain ⟨kvs, hkvs, hrecords⟩ := h.outcomes
    exact ⟨_, ⟨hashable_of_nodeOfValue? h.current, rfl⟩, (),
      refuseWhen_ok_iff.mpr (by rw [h.current]; rfl), _,
      unknownNodes_ok fun v hv => hashable_of_nodeOfValue? (h.completed v hv), (),
      refuseWhen_ok_iff.mpr (filter_isNone_isEmpty.mpr h.completed), _, ⟨kvs, hkvs, rfl⟩, hrecords⟩

/-! ## The restore phase -/

/-- `m`, started at `s`, raises nothing. -/
def Succeeds {α : Type} (s : EngineFields) (m : Restoring α) : Prop := ∃ a s', m.run.run s = (.ok a, s')

section Succeeds

variable {α β : Type} {s : EngineFields}

omit [Runtime] in
theorem succeeds_attempt {r : Except PyExc α} {f : α → Restoring β} :
    Succeeds s (attempt r >>= f) ↔ ∃ a, r = .ok a ∧ Succeeds s (f a) := by
  cases r with
  | error e => exact ⟨fun ⟨_, _, h⟩ => (nomatch h), fun ⟨_, h, _⟩ => (nomatch h)⟩
  | ok a =>
    constructor
    · intro h
      exact ⟨a, rfl, h⟩
    · rintro ⟨a', ha, h⟩
      cases ha
      exact h

omit [Runtime] in
theorem succeeds_write {g : EngineFields → EngineFields} {f : Unit → Restoring β} :
    Succeeds s (write g >>= f) ↔ Succeeds (g s) (f ()) := Iff.rfl

end Succeeds

theorem restoreCounts_ok_iff {l : List (String × Value)} :
    (∃ counts, restoreCounts l = .ok counts) ↔ ∀ p ∈ l, ∃ n, p.2.toInt = .ok n := by
  induction l with
  | nil => exact ⟨fun _ p hp => absurd hp List.not_mem_nil, fun _ => ⟨[], rfl⟩⟩
  | cons p rest ih =>
    simp only [restoreCounts, bind_ok_iff, List.forall_mem_cons, ← ih]
    constructor
    · rintro ⟨_, n, hn, counts, hcounts, -⟩
      exact ⟨⟨n, hn⟩, counts, hcounts⟩
    · rintro ⟨⟨n, hn⟩, counts, hcounts⟩
      exact ⟨_, n, hn, counts, hcounts, rfl⟩

/-- The counters of a checkpoint can be read. -/
structure RestorableBudgets (e : Record) : Prop where
  iterationCount : ∃ n, (e.getD "iteration_count" (.int 0)).toIntOrZero = .ok n
  executionCounts : ∃ l, itemsOf ((e.getD "node_execution_counts" .none).orElse (.dict [])) = .ok l ∧
    ∀ p ∈ l, ∃ n, p.2.toInt = .ok n
  goalGateRetries : ∃ n, (e.getD "goal_gate_retries" (.int 0)).toIntOrZero = .ok n
  failureRoutingRetries : ∃ n, (e.getD "failure_routing_retries" (.int 0)).toIntOrZero = .ok n
  steps : ∃ n, (e.getD "steps" (.int 0)).toIntOrZero = .ok n

theorem restoreBudgets_succeeds {cp : Checkpoint} {s : EngineFields} {f : Counters → Restoring Counters}
    (hf : ∀ c s, Succeeds s (f c)) : Succeeds s (restoreBudgets cp >>= f) ↔
      ∃ e, asDict (cp.engineState.orElse (.dict [])) = .ok e ∧ RestorableBudgets e := by
  simp only [restoreBudgets, bind_assoc, succeeds_attempt, succeeds_write, pure_bind]
  constructor
  · rintro ⟨e, he, n, hn, l, hl, counts, hcounts, n₁, h₁, n₂, h₂, n₃, h₃, -⟩
    exact ⟨e, he, ⟨n, hn⟩, ⟨l, hl, restoreCounts_ok_iff.mp ⟨counts, hcounts⟩⟩, ⟨n₁, h₁⟩, ⟨n₂, h₂⟩,
      ⟨n₃, h₃⟩⟩
  · rintro ⟨e, he, ⟨n, hn⟩, ⟨l, hl, hcounts⟩, ⟨n₁, h₁⟩, ⟨n₂, h₂⟩, ⟨n₃, h₃⟩⟩
    obtain ⟨counts, hc⟩ := restoreCounts_ok_iff.mpr hcounts
    exact ⟨e, he, n, hn, l, hl, counts, hc, n₁, h₁, n₂, h₂, n₃, h₃, hf _ _⟩

theorem restoredOutcome_ok_iff {g : Graph} {retries : Value} {p : String × Value}
    (hp : ValidRecord g p) :
    (∃ o, restoredOutcome retries p.2 = .ok o) ↔ ∃ n, retries.toInt = .ok n := by
  obtain ⟨-, kvs, hk, hvalid⟩ := hp
  have hstatus : ∃ text status, (Dict.ofList kvs : Record).get? "status" = some (.str text) ∧
      StageStatus.ofValue? text = some status := by
    cases hs : (Dict.ofList kvs : Record).get? "status" with
    | none =>
      rw [Dict.getD, hs] at hvalid
      cases hvalid
    | some v =>
      rw [Dict.getD, hs, Option.getD_some] at hvalid
      cases v with
      | str text =>
        have hmem : text ∈ validStatuses := by simpa [isValidStatus] using hvalid
        have hof : (StageStatus.ofValue? text).isSome = true := by
          have hall : ∀ t ∈ validStatuses, (StageStatus.ofValue? t).isSome = true := by decide
          exact hall text hmem
        obtain ⟨status, hstatus⟩ := Option.isSome_iff_exists.mp hof
        exact ⟨text, status, rfl, hstatus⟩
      | _ => cases hvalid
  obtain ⟨text, status, hget, hof⟩ := hstatus
  rw [hk]
  cases hn : retries.toInt with
  | error e => simp [restoredOutcome, asDict, hget, hof, hn, bind, Except.bind]
  | ok n => simp [restoredOutcome, asDict, hget, hof, hn, bind, Except.bind, pure, Except.pure]

theorem restoredOutcomes_ok_iff {g : Graph} {nodeRetries : Value} {l : List (String × Value)}
    (hl : ∀ p ∈ l, ValidRecord g p) :
    (∃ os, restoredOutcomes nodeRetries l = .ok os) ↔ ∀ p ∈ l, ∃ r, asDict nodeRetries = .ok r ∧
      ∃ n, (r.getD p.1 (.int 0)).toInt = .ok n := by
  induction l with
  | nil => exact ⟨fun _ p hp => absurd hp List.not_mem_nil, fun _ => ⟨[], rfl⟩⟩
  | cons p rest ih =>
    rw [List.forall_mem_cons] at hl
    rw [List.forall_mem_cons, ← ih hl.2]
    simp only [restoredOutcomes, bind_ok_iff]
    constructor
    · rintro ⟨_, r, hr, o, ho, os, hos, -⟩
      exact ⟨⟨r, hr, (restoredOutcome_ok_iff hl.1).mp ⟨o, ho⟩⟩, os, hos⟩
    · rintro ⟨⟨r, hr, hn⟩, os, hos⟩
      obtain ⟨o, ho⟩ := (restoredOutcome_ok_iff hl.1).mpr hn
      exact ⟨_, r, hr, o, ho, os, hos, rfl⟩

/-- Every field the restore phase reads is what it takes it for. -/
structure Restorable (cp : Checkpoint) : Prop where
  context : ∃ items, dictItems cp.contextSnapshot = .ok items
  logs : ∃ l, pyList cp.logs = .ok l
  retries : ∀ records, itemsOf cp.nodeOutcomes = .ok records → ∀ p ∈ records,
    ∃ r, asDict cp.nodeRetries = .ok r ∧ ∃ n, (r.getD p.1 (.int 0)).toInt = .ok n
  budgets : ∃ e, asDict (cp.engineState.orElse (.dict [])) = .ok e ∧ RestorableBudgets e

/-- The restore phase of a checkpoint that fits the graph raises nothing exactly
when all its fields can be restored. -/
theorem restorePhase_succeeds {g : Graph} {overrides : Record} {cp : Checkpoint} (h : Fits g cp)
    (s : EngineFields) : Succeeds s (restorePhase g overrides cp) ↔ Restorable cp := by
  obtain ⟨kvs, hkvs, hrecords⟩ := h.outcomes
  have hitems : itemsOf cp.nodeOutcomes = .ok (Dict.ofList kvs).entries :=
    itemsOf_ok_iff.mpr ⟨kvs, hkvs, rfl⟩
  have hlast : ∀ (c : Counters) (s : EngineFields), Succeeds s (do
      write fun s => { s with failedOutputs := deriveFailed g s.nodeOutcomes s.failedOutputs }
      write fun s => { s with resumeFidelityArmed := true }
      write fun s => { s with logs := s.logs ++ [.str (resumeLogLine cp.currentNode.toStr
        s.completedNodes.length s.iterationCount)] }
      return c) := fun c s => ⟨c, _, rfl⟩
  simp only [restorePhase, succeeds_attempt, succeeds_write, restoreBudgets_succeeds hlast]
  constructor
  · rintro ⟨items, hcontext, l, hlogs, records, hr, os, hos, hbudgets⟩
    refine ⟨⟨items, hcontext⟩, ⟨l, hlogs⟩, fun records' hr' => ?_, hbudgets⟩
    rw [hitems] at hr hr'
    cases hr
    cases hr'
    exact (restoredOutcomes_ok_iff hrecords).mp ⟨os, hos⟩
  · rintro ⟨⟨items, hcontext⟩, ⟨l, hlogs⟩, hretries, hbudgets⟩
    obtain ⟨os, hos⟩ := (restoredOutcomes_ok_iff hrecords).mpr (hretries _ hitems)
    exact ⟨items, hcontext, l, hlogs, _, hitems, os, hos, hbudgets⟩

/-! ## The whole resume -/

/-- The checkpoint of an object reaches rung 6. -/
def ReachesStructure (source : Option String) (d : Record) : Prop :=
  (versionField d).toInt = .ok schemaVersion ∧
    (fieldsOf d).runState.pyEq (.str runStateInFlight) = true ∧ (fieldsOf d).Identified source

/-- Every field of an object is what the code that comes to read it takes it for. -/
structure VouchedFields (g : Graph) (source : Option String) (d : Record) : Prop where
  version : ¬ IsInfinite (versionField d)
  context : (versionField d).toInt = .ok schemaVersion →
    (fieldsOf d).runState.pyEq (.str runStateInFlight) = false → IsObject (fieldsOf d).contextSnapshot
  structured : ReachesStructure source d → VouchedStructure g (fieldsOf d)
  restorable : ReachesStructure source d → Fits g (fieldsOf d) → Restorable (fieldsOf d)

def Vouched (g : Graph) (doc : Value) (source : Option String) : Prop :=
  ∀ kvs, doc = .dict kvs → WellShaped (Dict.ofList kvs) → VouchedFields g source (Dict.ofList kvs)

section Resume

variable {g : Graph} {path : String} {doc : Value} {source : Option String}
  {overrides : Record} {s : EngineFields}

omit [Runtime] in
theorem refusesCleanly_error {e : LadderExc} : RefusesCleanly s (.error e, s) ↔
    NoEscape (.error e : Except LadderExc Counters) := by
  constructor
  · intro h e' he
    obtain ⟨⟨refusal, hr⟩, -⟩ := h e rfl
    cases he
    cases hr
  · intro h e' he
    cases he
    cases e with
    | refused r => exact ⟨⟨r, rfl⟩, rfl⟩
    | escaped e => exact absurd rfl (h e)

/-- The three phases, each where the ones before let the document pass. -/
theorem refusesCleanly_iff :
    RefusesCleanly s (resumeDocument g path doc source overrides s) ↔
      NoEscape (loadCheckpointForResume path (some (.value doc)) source) ∧
      ∀ cp, loadCheckpointForResume path (some (.value doc)) source = .ok cp →
        NoEscape (verifyCheckpointStructure cp g) ∧
        (verifyCheckpointStructure cp g = .ok () → Succeeds s (restorePhase g overrides cp)) := by
  unfold resumeDocument
  cases hload : loadCheckpointForResume path (some (.value doc)) source with
  | error e =>
    show RefusesCleanly s (.error e, s) ↔ _
    rw [refusesCleanly_error]
    exact ⟨fun h => ⟨fun e' he => h e' (by rw [Except.error.inj he]), fun _ hc => (nomatch hc)⟩,
      fun h e' he => h.1 e' (by rw [Except.error.inj he])⟩
  | ok cp =>
    have hone : ∀ P : Checkpoint → Prop, (NoEscape (.ok cp : Except LadderExc Checkpoint) ∧
        ∀ cp', (.ok cp : Except LadderExc Checkpoint) = .ok cp' → P cp') ↔ P cp := fun P =>
      ⟨fun h => h.2 cp rfl, fun h => ⟨noEscape_ok cp, fun cp' hc => by cases hc; exact h⟩⟩
    rw [hone fun cp => NoEscape (verifyCheckpointStructure cp g) ∧
      (verifyCheckpointStructure cp g = .ok () → Succeeds s (restorePhase g overrides cp))]
    cases hverify : verifyCheckpointStructure cp g with
    | error e =>
      simp only [hverify]
      rw [refusesCleanly_error]
      exact ⟨fun h => ⟨fun e' he => h e' (by rw [Except.error.inj he]), fun hc => (nomatch hc)⟩,
        fun h e' he => h.1 e' (by rw [Except.error.inj he])⟩
    | ok _ =>
      simp only [hverify]
      cases hrestore : (restorePhase g overrides cp).run.run s with
      | mk r s' =>
        cases r with
        | error e =>
          refine ⟨fun h => ?_, fun h => ?_⟩
          · obtain ⟨⟨_, hr⟩, -⟩ := h (.escaped e) rfl
            cases hr
          · obtain ⟨a, s'', ha⟩ := h.2 trivial
            rw [hrestore] at ha
            cases ha
        | ok counters =>
          exact ⟨fun _ => ⟨noEscape_ok _, fun _ => ⟨counters, s', hrestore⟩⟩,
            fun _ e he => (nomatch he)⟩

end Resume

end Vouched

section Demo

open Py.Ascii

/-- A checkpoint of a run in flight, but for its logs. -/
def numericLogs : Value := .dict [
  ("schema_version", .int schemaVersion),
  ("run_state", .str runStateInFlight),
  ("current_node", .str "begin"),
  ("completed_nodes", .list [.str "begin"]),
  ("node_outcomes", .dict [("begin", .dict [("status", .str "success")])]),
  ("context", .dict [("outcome", .str "success")]),
  ("logs", .int 5),
  ("graph", .dict [("fingerprint", .str "sha256:e3b0c442"),
    ("dot_source", .str "digraph lone \x7b begin [shape=Mdiamond] \x7d")])]

def beginGraph : Graph := Graph.ofNodes [{ id := "begin", shape := "Mdiamond" }] []

end Demo

end DotRunner
