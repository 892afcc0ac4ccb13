import DotRunner.Engine.Calls
import DotRunner.Py.JsonRoundTrip

/-!
# Checkpoints in their file

`save_checkpoint` opens the file for writing, which empties it, and the encoder's
text follows piece by piece.  A save that stops in between leaves neither the
checkpoint before it nor its own.
-/

namespace DotRunner

open Py Json

/-- What the checkpoint path holds: no file, or a text. -/
abbrev CheckpointFile := Option (List Char)

inductive FileOp where
  | truncate
  | write (piece : List Char)

def FileOp.apply : FileOp → CheckpointFile → CheckpointFile
  | .truncate, _ => some []
  | .write piece, file => some (file.getD [] ++ piece)

/-- The file after these operations. -/
def fileAfter (ops : List FileOp) (file : CheckpointFile) : CheckpointFile :=
  ops.foldl (fun file op => op.apply file) file

section Saves

variable [Runtime] (fault : Nat → Value → Option PyExc) (message : List Char → String)

/-- The operations of `save_checkpoint`, however the buffers cut the text. -/
structure SaveOps (cp : Checkpoint) (ops : List FileOp) : Prop where
  pieces : ∃ pieces : List (List Char), ops = .truncate :: pieces.map .write ∧
    pieces.flatten = (encode fault 0 cp.data).text ∧ [] ∉ pieces

/-- Rungs 1 and 2, from the file itself. -/
def loadFile (path : String) (file : CheckpointFile) : Except LadderExc Checkpoint :=
  parseRung path (file.map fun l => match loads l with
    | some v => .value v
    | none => .decodeError (message l))

/-! ## One save -/

omit [Runtime] in
theorem fileAfter_writes (pieces : List (List Char)) (l : List Char) :
    fileAfter (pieces.map .write) (some l) = some (l ++ pieces.flatten) := by
  induction pieces generalizing l with
  | nil => simp [fileAfter]
  | cons piece pieces ih =>
    show fileAfter (pieces.map .write) (some (l ++ piece)) = _
    rw [ih, List.flatten_cons, List.append_assoc]

variable {fault} {cp : Checkpoint} {ops : List FileOp}

/-- A save that has begun and is not over leaves a proper part of its text. -/
theorem SaveOps.torn (h : SaveOps fault cp ops) {k : Nat} (hk : k ≠ 0)
    (hwhole : ¬ (ops.length ≤ k ∧ Faultless fault 0 cp.data)) (file : CheckpointFile) :
    ∃ l t, fileAfter (ops.take k) file = some l ∧ text 0 cp.data = l ++ t ∧ t ≠ [] := by
  obtain ⟨pieces, rfl, hflat, hne⟩ := h.pieces
  obtain ⟨n, rfl⟩ : ∃ n, k = n + 1 := ⟨k - 1, by omega⟩
  have hfile : fileAfter ((FileOp.truncate :: pieces.map .write).take (n + 1)) file =
      some (pieces.take n).flatten := by
    rw [List.take_succ_cons, ← List.map_take]
    show fileAfter ((pieces.take n).map .write) (some []) = _
    rw [fileAfter_writes, List.nil_append]
  have hof := encode_of fault 0 cp.data
  obtain ⟨u, hu⟩ := hof.isPart
  have hsplit : (encode fault 0 cp.data).text = (pieces.take n).flatten ++ (pieces.drop n).flatten := by
    rw [← List.flatten_append, List.take_append_drop, hflat]
  refine ⟨_, (pieces.drop n).flatten ++ u, hfile, by rw [← hu, hsplit, List.append_assoc], ?_⟩
  intro hnil
  obtain ⟨hdrop, rfl⟩ := List.append_eq_nil_iff.mp hnil
  rw [List.append_nil] at hu
  apply hwhole
  constructor
  · -- no piece is left, since none of them is empty
    rw [List.length_cons, List.length_map]
    by_contra hlt
    obtain ⟨piece, hpiece⟩ := List.exists_mem_of_length_pos (l := pieces.drop n)
      (by rw [List.length_drop]; omega)
    have hempty := List.flatten_eq_nil_iff.mp hdrop piece hpiece
    rw [hempty] at hpiece
    exact hne (List.drop_subset _ _ hpiece)
  · rw [← encode_raised]
    by_contra hraised
    have hlt := encode_dict_raised fault (by simp) 0 hraised
    rw [← Checkpoint.data, hu] at hlt
    exact absurd hlt (Nat.lt_irrefl _)

/-- A save that is over leaves its text. -/
theorem SaveOps.whole (h : SaveOps fault cp ops) {k : Nat} (hk : ops.length ≤ k)
    (hfine : Faultless fault 0 cp.data) (file : CheckpointFile) :
    fileAfter (ops.take k) file = some (text 0 cp.data) := by
  obtain ⟨pieces, rfl, hflat, -⟩ := h.pieces
  rw [List.take_of_length_le hk]
  show fileAfter (pieces.map .write) (some []) = _
  rw [fileAfter_writes, List.nil_append, hflat,
    (encode_of fault 0 cp.data).whole ((encode_raised fault 0 cp.data).mpr hfine)]

theorem loadFile_text (path : String) (hexact : Exact cp.data) :
    loadFile message path (some (text 0 cp.data)) = parseRung path (some (.value (saveCheckpoint cp))) := by
  rw [loadFile, Option.map_some, Checkpoint.data, loads_text hexact]
  rfl

theorem loadFile_part (path : String) (hexact : Exact cp.data) {l t : List Char}
    (hsplit : text 0 cp.data = l ++ t) (ht : t ≠ []) :
    loadFile message path (some l) = .error (truncatedCheckpoint path (message l)) := by
  rw [loadFile, Option.map_some, loads_part hexact hsplit ht]
  rfl

/-- A checkpoint is refused for a `source_dir` that is no text. -/
theorem load_malformed (path : String)
    (hg : ¬ WellFormedGraphBlock (cp.graph.map fun p => (p.1, p.2.viaJson))) :
    ∃ e, loadCheckpoint path (saveCheckpoint cp) = .error e := by
  simp only [WellFormedGraphBlock, not_forall] at hg
  obtain ⟨v, hv, hstr⟩ := hg
  have hblock : ∃ e, validatedGraphBlock (.dict (cp.graph.map fun p => (p.1, p.2.viaJson))) path =
      .error e := by
    simp only [validatedGraphBlock, hv]
    cases v with
    | str s => exact absurd ⟨s, rfl⟩ hstr
    | _ => exact ⟨_, rfl⟩
  obtain ⟨e, he⟩ := hblock
  refine ⟨e, ?_⟩
  simp only [saveCheckpoint, Checkpoint.data, Value.viaJson, Value.viaJsonPairs,
    Value.viaJsonAll_eq_map, Value.viaJsonPairs_eq_map, loadCheckpoint, Dict.getD, Dict.ofList,
    Dict.setAll, List.foldl_cons, List.foldl_nil, Dict.get?_set, Dict.get?_empty, String.reduceEq,
    if_true, if_false, Option.getD_some]
  rw [he]
  rfl

/-- Where a save may stop: before it empties the file, or after the last piece of
a text that was written whole and that the loader accepts. -/
def KeptAfter (fault : Nat → Value → Option PyExc) (cp : Checkpoint) (ops : List FileOp) (k : Nat) :
    Prop :=
  k = 0 ∨ ops.length ≤ k ∧ Faultless fault 0 cp.data ∧
    WellFormedGraphBlock (cp.graph.map fun p => (p.1, p.2.viaJson))

/-- A save that stops after `k` operations leaves the checkpoint before it or its
own exactly where it may stop. -/
theorem save_keeps_iff (path : String) {file : CheckpointFile} {previous : Checkpoint}
    (hprevious : loadFile message path file = .ok previous) (hexact : Exact cp.data)
    (hops : SaveOps fault cp ops) (k : Nat) :
    (loadFile message path (fileAfter (ops.take k) file) = .ok previous ∨
      loadFile message path (fileAfter (ops.take k) file) = .ok cp.viaJson) ↔
        KeptAfter fault cp ops k := by
  by_cases hk : k = 0
  · subst hk
    exact ⟨fun _ => .inl rfl, fun _ => .inl hprevious⟩
  by_cases hwhole : ops.length ≤ k ∧ Faultless fault 0 cp.data
  · rw [hops.whole hwhole.1 hwhole.2, loadFile_text message path hexact, parseRung]
    by_cases hg : WellFormedGraphBlock (cp.graph.map fun p => (p.1, p.2.viaJson))
    · rw [loadCheckpoint_saveCheckpoint path cp hg]
      exact ⟨fun _ => .inr ⟨hwhole.1, hwhole.2, hg⟩, fun _ => .inr rfl⟩
    · obtain ⟨e, he⟩ := load_malformed path hg
      rw [he]
      refine ⟨fun h => ?_, fun h => ?_⟩
      · rcases h with h | h <;> cases h
      · rcases h with h | h
        · exact absurd h hk
        · exact absurd h.2.2 hg
  · obtain ⟨l, t, hfile, hsplit, ht⟩ := hops.torn hk hwhole file
    rw [hfile, loadFile_part message path hexact hsplit ht]
    refine ⟨fun h => ?_, fun h => ?_⟩
    · rcases h with h | h <;> cases h
    · rcases h with h | h
      · exact absurd h hk
      · exact absurd ⟨h.1, h.2.1⟩ hwhole

end Saves

/-! ## Every history of a run directory -/

/-- A save, and how many of its operations were done. -/
structure Save where
  checkpoint : Checkpoint
  ops : List FileOp
  done : Nat

def Save.begun (s : Save) : Bool := s.done != 0

section Histories

variable [Runtime] [JsonReader] (fault : Nat → Value → Option PyExc)

/-- All its operations are done, and none was cut short by an exception. -/
def Save.Whole (s : Save) : Prop := s.ops.length ≤ s.done ∧ Faultless fault 0 s.checkpoint.data

/-- The checkpoint a step of a call saves. -/
def CallEvent.payload (p : PipelineEngine) : CallEvent → Option Checkpoint
  | .iterated w tick => (iterate p tick w).saved.map Written.checkpoint
  | .returned _ c => markRunCompleted c.position.engine
  | .began _ | .resumed _ => none

/-- `Journal p fault saves file c`: the calls made in the run directory have begun
`saves`, the newest first, and have left `file`; the last of them is `c` or over.
A process may stop anywhere inside a save, killed or by an exception. -/
inductive Journal (p : PipelineEngine) : List Save → CheckpointFile → Option RunCall → Prop
  | empty : Journal p [] none none
  | run {saves : List Save} {file : CheckpointFile} {o : Option RunCall} {goal : Option String}
      {context : PipelineContext} {w : Walk} (journal : Journal p saves file o)
      (h : start p.graph goal context = .ok w) :
      Journal p saves file (some ⟨file.bind loads, .walking w⟩)
  | resume {saves : List Save} {l : List Char} {o : Option RunCall} {doc : Value} {w : Walk}
      {c : RunCall} (journal : Journal p saves (some l) o) (hdoc : loads l = some doc)
      (h : CallBegins p doc (.resumed w) c) : Journal p saves (some l) (some c)
  | step {saves : List Save} {file : CheckpointFile} {c : RunCall} {e : CallEvent}
      {c' : Option RunCall} (journal : Journal p saves file (some c)) (h : CallStep p c e none c') :
      Journal p saves file c'
  | save {saves : List Save} {file : CheckpointFile} {c : RunCall} {e : CallEvent} {doc : Value}
      {c' : Option RunCall} {cp : Checkpoint} {ops : List FileOp}
      (journal : Journal p saves file (some c)) (h : CallStep p c e (some doc) c')
      (hcp : e.payload p = some cp) (hops : SaveOps fault cp ops) (hfine : Faultless fault 0 cp.data) :
      Journal p (⟨cp, ops, ops.length⟩ :: saves) (fileAfter ops file) c'
  | interrupted {saves : List Save} {file : CheckpointFile} {c : RunCall} {e : CallEvent}
      {doc : Value} {c' : Option RunCall} {cp : Checkpoint} {ops : List FileOp} {k : Nat}
      (journal : Journal p saves file (some c)) (h : CallStep p c e (some doc) c')
      (hcp : e.payload p = some cp) (hops : SaveOps fault cp ops) (hk : k ≤ ops.length) :
      Journal p (⟨cp, ops, k⟩ :: saves) (fileAfter (ops.take k) file) none

variable {fault} {p : PipelineEngine}

/-- The checkpoint a process holds in memory was taken of its walk. -/
def HoldsTaken (g : Graph) (c : RunCall) : Prop :=
  ∀ cp, c.position.engine.lastCheckpoint = some cp → Taken g cp

/-- A checkpoint an engine over `g` writes. -/
def Writes (g : Graph) (cp : Checkpoint) : Prop :=
  ∃ taken, Taken g taken ∧ (cp = taken ∨ cp = taken.completed)

omit [Runtime] [JsonReader] in
theorem holdsTaken_of_none [Runtime] {g : Graph} {c : RunCall}
    (h : c.position.engine.lastCheckpoint = none) : HoldsTaken g c := by
  intro cp hcp
  rw [h] at hcp
  cases hcp

theorem CallStep.holdsTaken {c : RunCall} {e : CallEvent} {doc : Option Value} {c' : RunCall}
    (h : CallStep p c e doc (some c')) (hold : HoldsTaken p.graph c) : HoldsTaken p.graph c' := by
  generalize ho : some c' = o at h
  cases h with
  | @iterates found w tick =>
    obtain ⟨position, hposition, rfl⟩ := Option.map_eq_some_iff.mp ho.symm
    intro cp hcp
    have hlast := advance_remembers hposition
    rw [show position.engine.lastCheckpoint = some cp from hcp] at hlast
    rcases Option.or_eq_some_iff.mp hlast.symm with hnew | ⟨-, hold'⟩
    · obtain ⟨written, hw, rfl⟩ := Option.map_eq_some_iff.mp hnew
      exact (iterate_case p tick w).taken hw
    · exact hold cp hold'
  | returns => cases ho

theorem CallStep.writes {c : RunCall} {e : CallEvent} {doc : Option Value} {c' : Option RunCall}
    (h : CallStep p c e doc c') (hold : HoldsTaken p.graph c) {cp : Checkpoint}
    (hcp : e.payload p = some cp) : Writes p.graph cp := by
  cases h with
  | @iterates found w tick =>
    obtain ⟨written, hw, rfl⟩ := Option.map_eq_some_iff.mp hcp
    exact ⟨_, (iterate_case p tick w).taken hw, .inl rfl⟩
  | @returns found o s =>
    obtain ⟨last, hlast, rfl⟩ := Option.map_eq_some_iff.mp hcp
    exact ⟨last, hold last hlast, .inr rfl⟩

omit [JsonReader] in
theorem CallBegins.holdsTaken {doc : Value} {e : CallEvent} {c : RunCall} (h : CallBegins p doc e c) :
    HoldsTaken p.graph c := by
  cases h with
  | run hstart => exact holdsTaken_of_none (start_lastCheckpoint hstart)
  | resume _ _ hrestore => exact holdsTaken_of_none (restore_lastCheckpoint hrestore)

/-- What every history keeps: the process holds checkpoints of its own walk, the
saves write such checkpoints, and the file is as the newest of them left it. -/
structure Journaled (p : PipelineEngine) (fault : Nat → Value → Option PyExc) (saves : List Save)
    (file : CheckpointFile) (o : Option RunCall) : Prop where
  inMemory : ∀ c, o = some c → HoldsTaken p.graph c
  writes : ∀ s ∈ saves, Writes p.graph s.checkpoint ∧ SaveOps fault s.checkpoint s.ops
  file : ∀ s, saves.find? Save.begun = some s → ∃ before, file = fileAfter (s.ops.take s.done) before

theorem Journaled.save {saves : List Save} {file : CheckpointFile} {c : RunCall} {e : CallEvent}
    {doc : Option Value} {c' o : Option RunCall} (h : Journaled p fault saves file (some c))
    (hs : CallStep p c e doc c') (ho : ∀ c'', o = some c'' → c' = some c'') {cp : Checkpoint}
    (hcp : e.payload p = some cp) {ops : List FileOp} (hops : SaveOps fault cp ops) (k : Nat) :
    Journaled p fault (⟨cp, ops, k⟩ :: saves) (fileAfter (ops.take k) file) o := by
  have hold := h.inMemory c rfl
  refine ⟨fun c'' hc => ?_, fun s hs' => ?_, fun s hfind => ?_⟩
  · rw [ho c'' hc] at hs
    exact hs.holdsTaken hold
  · rcases List.mem_cons.mp hs' with rfl | hmem
    · exact ⟨hs.writes hold hcp, hops⟩
    · exact h.writes s hmem
  · by_cases hk : k = 0
    · subst hk
      rw [List.find?_cons_of_neg (by simp [Save.begun])] at hfind
      exact h.file s hfind
    · rw [List.find?_cons_of_pos (by simp [Save.begun, hk])] at hfind
      cases hfind
      exact ⟨file, rfl⟩

theorem Journal.journaled {saves : List Save} {file : CheckpointFile} {o : Option RunCall}
    (h : Journal fault p saves file o) : Journaled p fault saves file o := by
  induction h with
  | empty =>
    refine ⟨fun c hc => ?_, fun s hs => absurd hs List.not_mem_nil, fun s hs => ?_⟩
    · cases hc
    · cases hs
  | run journal hstart ih =>
    refine ⟨fun c hc => ?_, ih.writes, ih.file⟩
    cases hc
    exact holdsTaken_of_none (start_lastCheckpoint hstart)
  | resume journal hdoc hbegins ih =>
    refine ⟨fun c hc => ?_, ih.writes, ih.file⟩
    cases hc
    exact hbegins.holdsTaken
  | step journal hs ih =>
    refine ⟨fun c hc => ?_, ih.writes, ih.file⟩
    subst hc
    exact hs.holdsTaken (ih.inMemory _ rfl)
  | @save saves file c e doc c' cp ops journal hs hcp hops hfine ih =>
    have hsaved := ih.save hs (fun _ h => h) hcp hops ops.length
    rw [List.take_length] at hsaved
    exact hsaved
  | interrupted journal hs hcp hops hk ih => exact ih.save hs (fun _ h => by cases h) hcp hops _

omit [JsonReader] in
/-- The loader accepts every checkpoint an engine writes. -/
theorem Writes.load {g : Graph} {cp : Checkpoint} (h : Writes g cp) (path : String) :
    loadCheckpoint path (saveCheckpoint cp) = .ok cp.viaJson := by
  obtain ⟨taken, ht, rfl | rfl⟩ := h
  · exact ht.load path
  · exact ht.load_completed path

/-- The file of a run directory holds a checkpoint exactly when the newest save
that emptied it came to its end. -/
theorem Journal.loads_iff {saves : List Save} {file : CheckpointFile} {o : Option RunCall}
    (h : Journal fault p saves file o) (hexact : ∀ s ∈ saves, Exact s.checkpoint.data)
    {s : Save} (hs : saves.find? Save.begun = some s) (message : List Char → String) (path : String) :
    ((∃ cp, loadFile message path file = .ok cp) ↔ s.Whole fault) ∧
      (s.Whole fault → loadFile message path file = .ok s.checkpoint.viaJson) := by
  have hmem := List.mem_of_find?_eq_some hs
  have hbegun : s.done ≠ 0 := by simpa [Save.begun] using List.find?_some hs
  obtain ⟨hwrites, hops⟩ := h.journaled.writes s hmem
  obtain ⟨before, rfl⟩ := h.journaled.file s hs
  have hload : s.Whole fault → loadFile message path (fileAfter (s.ops.take s.done) before) =
      .ok s.checkpoint.viaJson := by
    intro hwhole
    rw [hops.whole hwhole.1 hwhole.2, loadFile_text message path (hexact s hmem), parseRung,
      hwrites.load path]
  refine ⟨⟨?_, fun hwhole => ⟨_, hload hwhole⟩⟩, hload⟩
  rintro ⟨cp, hcp⟩
  by_contra hwhole
  obtain ⟨l, t, hfile, hsplit, ht⟩ := hops.torn hbegun hwhole before
  rw [hfile, loadFile_part message path (hexact s hmem) hsplit ht] at hcp
  cases hcp

/-- An interrupted save keeps a checkpoint exactly where it may stop, and a run
directory holds one exactly when its newest save came to its end. -/
theorem checkpoint_survives_iff (fault : Nat → Value → Option PyExc) (message : List Char → String)
    (path : String) :
    (∀ {file previous cp ops}, loadFile message path file = .ok previous → Exact cp.data →
      SaveOps fault cp ops → ∀ k, (loadFile message path (fileAfter (ops.take k) file) = .ok previous ∨
        loadFile message path (fileAfter (ops.take k) file) = .ok cp.viaJson) ↔
          KeptAfter fault cp ops k) ∧
    ∀ {p saves file o}, Journal fault p saves file o → (∀ s ∈ saves, Exact s.checkpoint.data) →
      ∀ s, saves.find? Save.begun = some s →
        ((∃ cp, loadFile message path file = .ok cp) ↔ s.Whole fault) ∧
          (s.Whole fault → loadFile message path file = .ok s.checkpoint.viaJson) :=
  ⟨fun hprevious hexact hops k => save_keeps_iff message path hprevious hexact hops k,
    fun h hexact _ hs => h.loads_iff hexact hs message path⟩

end Histories

section Demo

open Py.Ascii

/-- Nothing is raised. -/
def noFault (_ : Nat) (_ : Value) : Option PyExc := none

def decodeText (_ : List Char) : String := "Expecting value: line 1 column 1 (char 0)"

/-- The operations of a save that hands its whole text over at once. -/
def saveAtOnce (cp : Checkpoint) : List FileOp := [.truncate, .write (text 0 cp.data)]

mutual

theorem faultless_noFault (indent : Nat) : ∀ v : Value, floatless v = true →
    Faultless noFault indent v
  | .none, _ | .bool _, _ | .int _, _ | .float _, _ | .str _, _ | .other _ _, _ => rfl
  | .list xs, h => ⟨rfl, faultlessAll_noFault (indent + 1) xs h⟩
  | .tuple xs, h => ⟨rfl, faultlessAll_noFault (indent + 1) xs h⟩
  | .dict kvs, h => by
    rw [floatless, Bool.and_eq_true] at h
    exact ⟨rfl, faultlessPairs_noFault (indent + 1) kvs h.2⟩

theorem faultlessAll_noFault (indent : Nat) : ∀ vs : List Value, floatlessAll vs = true →
    FaultlessAll noFault indent vs
  | [], _ => trivial
  | v :: vs, h => by
    rw [floatlessAll, Bool.and_eq_true] at h
    exact ⟨faultless_noFault indent v h.1, faultlessAll_noFault indent vs h.2⟩

theorem faultlessPairs_noFault (indent : Nat) : ∀ kvs : List (String × Value),
    floatlessPairs kvs = true → FaultlessPairs noFault indent kvs []
  | [], _ => trivial
  | (_, v) :: kvs, h => by
    rw [floatlessPairs, Bool.and_eq_true] at h
    exact ⟨rfl, faultless_noFault indent v h.1, faultlessPairs_noFault indent kvs h.2⟩

end

theorem saveAtOnce_ops {cp : Checkpoint} (h : floatless cp.data = true) :
    SaveOps noFault cp (saveAtOnce cp) := by
  have hfine := (encode_raised noFault 0 cp.data).mpr (faultless_noFault 0 cp.data h)
  refine ⟨⟨[text 0 cp.data], rfl, ?_, ?_⟩⟩
  · rw [List.flatten_singleton, (encode_of noFault 0 cp.data).whole hfine]
  · intro hnil
    have hempty := List.mem_singleton.mp hnil
    rw [Checkpoint.data, text, if_neg (by simp)] at hempty
    exact absurd hempty (by simp)

/-- The checkpoint of the start node. -/
def loneCheckpoint : Checkpoint :=
  checkpointOf lonePipeline.graph loneStart "begin" "2026-01-01T00:00:00+00:00"

theorem loneCheckpoint_floatless : floatless loneCheckpoint.data = true := by decide +kernel

theorem loneCheckpoint_exact : Exact loneCheckpoint.data :=
  exact_of_floatless _ loneCheckpoint_floatless

theorem loneCheckpoint_loads (path : String) :
    loadFile decodeText path (some (text 0 loneCheckpoint.data)) = .ok loneCheckpoint.viaJson := by
  have ht : Taken lonePipeline.graph loneCheckpoint := ⟨_, _, _, rfl⟩
  rw [loadFile_text decodeText path loneCheckpoint_exact, parseRung, ht.load path]

/-- A pipeline whose run saves its checkpoint, and is killed when the flip of it
has emptied the file. -/
theorem checkpoint_survives_lone : ∃ saves file o s,
    Journal noFault lonePipeline saves file o ∧ saves.find? Save.begun = some s ∧
      ¬ s.Whole noFault ∧ (¬ ∃ cp, loadFile decodeText "checkpoint.json" file = .ok cp) ∧
      ∀ k, (loadFile decodeText "checkpoint.json"
          (fileAfter ((saveAtOnce loneCheckpoint).take k) (some (text 0 loneCheckpoint.data))) =
            .ok loneCheckpoint.viaJson) ↔ KeptAfter noFault loneCheckpoint (saveAtOnce loneCheckpoint) k := by
  obtain ⟨written, o, s, -, -, hw, hended, hheld, -⟩ := loneStart_ends
  have hfloatless : ((iterate lonePipeline loneTick loneStart).saved.all fun written =>
      floatless written.checkpoint.data && floatless written.checkpoint.completed.data) = true := by
    decide +kernel
  rw [hw, Option.all_some, Bool.and_eq_true] at hfloatless
  obtain ⟨last, hlast⟩ := Option.isSome_iff_exists.mp hheld
  have hsame : last = written.checkpoint := by
    have hremembered := advance_remembers hended
    rw [show Position.engine (.ended o s) = s from rfl, hlast, hw] at hremembered
    exact Option.some.inj hremembered
  have begun : Journal noFault lonePipeline [] none (some ⟨none, .walking loneStart⟩) :=
    .run .empty rfl
  have hiterates : CallStep lonePipeline ⟨none, .walking loneStart⟩ (.iterated loneStart loneTick)
      (some written.doc) (some ⟨none, .ended o s⟩) := by
    have hstep : CallStep lonePipeline ⟨none, .walking loneStart⟩ (.iterated loneStart loneTick) _ _ :=
      .iterates
    rw [hw, hended] at hstep
    exact hstep
  have hpayload : (CallEvent.iterated loneStart loneTick).payload lonePipeline =
      some written.checkpoint := by
    rw [CallEvent.payload, hw]
    rfl
  have hreturns : CallStep lonePipeline ⟨none, .ended o s⟩ (.returned o ⟨none, .ended o s⟩)
      (some (saveCheckpoint written.checkpoint.completed)) none := by
    have hstep : CallStep lonePipeline ⟨none, .ended o s⟩ (.returned o ⟨none, .ended o s⟩) _ none :=
      .returns
    rw [markRunCompleted, hlast, hsame] at hstep
    exact hstep
  have hflip : (CallEvent.returned o ⟨none, .ended o s⟩).payload lonePipeline =
      some written.checkpoint.completed := by
    show s.lastCheckpoint.map Checkpoint.completed = _
    rw [hlast, hsame]
    rfl
  have saved := begun.save hiterates hpayload (saveAtOnce_ops hfloatless.1)
    (faultless_noFault 0 _ hfloatless.1)
  have killed := saved.interrupted hreturns hflip (saveAtOnce_ops hfloatless.2) (Nat.le_add_left 1 1)
  have hexact : ∀ s ∈ [Save.mk written.checkpoint.completed (saveAtOnce written.checkpoint.completed) 1,
      Save.mk written.checkpoint (saveAtOnce written.checkpoint) (saveAtOnce written.checkpoint).length],
      Exact s.checkpoint.data := by
    intro s hs
    simp only [List.mem_cons, List.not_mem_nil, or_false] at hs
    rcases hs with rfl | rfl
    · exact exact_of_floatless _ hfloatless.2
    · exact exact_of_floatless _ hfloatless.1
  have htorn : ¬ (Save.mk written.checkpoint.completed
      (saveAtOnce written.checkpoint.completed) 1).Whole noFault :=
    fun h => absurd h.1 (by decide : ¬ 2 ≤ 1)
  obtain ⟨hsave, hrun⟩ := checkpoint_survives_iff noFault decodeText "checkpoint.json"
  refine ⟨_, _, _, _, killed, rfl, htorn, fun h => htorn ((hrun killed hexact _ rfl).1.mp h),
    fun k => ?_⟩
  rw [← hsave (loneCheckpoint_loads _) loneCheckpoint_exact (saveAtOnce_ops loneCheckpoint_floatless)
    k, or_self]

/-- The process is killed when the file is empty. -/
theorem killed_save_loses_checkpoint : ∃ file previous cp ops k,
    loadFile decodeText "checkpoint.json" file = .ok previous ∧ Exact cp.data ∧
      SaveOps noFault cp ops ∧
      ¬ (loadFile decodeText "checkpoint.json" (fileAfter (ops.take k) file) = .ok previous ∨
        loadFile decodeText "checkpoint.json" (fileAfter (ops.take k) file) = .ok cp.viaJson) := by
  refine ⟨_, _, loneCheckpoint, _, 1, loneCheckpoint_loads _, loneCheckpoint_exact,
    saveAtOnce_ops loneCheckpoint_floatless, ?_⟩
  have hempty : loadFile decodeText "checkpoint.json"
      (fileAfter ((saveAtOnce loneCheckpoint).take 1) (some (text 0 loneCheckpoint.data))) =
        .error (truncatedCheckpoint "checkpoint.json" (decodeText [])) := rfl
  rw [hempty]
  rintro (h | h) <;> cases h

end Demo

end DotRunner
