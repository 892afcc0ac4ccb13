import DotRunner.Py.JsonScan
import DotRunner.Py.PosixPath

/-!
# A file tree

What `pathlib` does to a tree of files and directories, one process at work and
no symbolic links.  A call either fails and leaves the tree as it is, or makes the
one change it is there for; making directories never changes a file.
-/

namespace Py
namespace FileTree

open PosixPath (Part above)

/-- The names from the root down, the last one first. -/
abbrev Place := List Part

inductive Node where
  | file (bytes : List UInt8) (readable writable : Bool)
  /-- a directory, in which entries may be made and removed or not -/
  | dir (writable : Bool)

structure Tree where
  node : Place → Option Node
  /-- the working directory of the process -/
  cwd : Place

/-- What a path holds, where it holds a file. -/
abbrev Files := Place → Option (List UInt8)

def Node.bytes? : Node → Option (List UInt8)
  | file bytes _ _ => some bytes
  | dir _ => none

def Tree.files (t : Tree) : Files := fun place => (t.node place).bind Node.bytes?

def Tree.put (t : Tree) (place : Place) (node : Option Node) : Tree :=
  { t with node := fun p => if p = place then node else t.node p }

/-- The files after a change of one of them. -/
def Files.put (f : Files) (place : Place) (bytes : Option (List UInt8)) : Files :=
  fun p => if p = place then bytes else f p

@[simp] theorem Tree.put_cwd (t : Tree) (place : Place) (node : Option Node) :
    (t.put place node).cwd = t.cwd := rfl

theorem Tree.put_files (t : Tree) (place : Place) (node : Option Node) :
    (t.put place node).files = t.files.put place (node.bind Node.bytes?) := by
  funext p
  simp only [Tree.files, Tree.put, Files.put]
  by_cases h : p = place
  · rw [if_pos h, if_pos h]
  · rw [if_neg h, if_neg h]

theorem Files.put_self (f : Files) {place : Place} {bytes : Option (List UInt8)}
    (h : f place = bytes) : f.put place bytes = f := by
  funext p
  rw [Files.put]
  by_cases hp : p = place
  · rw [if_pos hp, hp, h]
  · rw [if_neg hp]

/-! ## Errors -/

inductive OsError where
  | noEntry
  | notDirectory
  | isDirectory
  | fileExists
  | denied

def OsError.text : OsError → String
  | noEntry => "[Errno 2] No such file or directory"
  | denied => "[Errno 13] Permission denied"
  | fileExists => "[Errno 17] File exists"
  | notDirectory => "[Errno 20] Not a directory"
  | isDirectory => "[Errno 21] Is a directory"

/-- `str(Path(l))` -/
def pathText (l : List Char) : List Char :=
  let text := PosixPath.leadingSlashes l ++ ['/'].intercalate (PosixPath.names l)
  if text = [] then PosixPath.here else text

/-! ## Following a path -/

/-- Where one name leads from a directory. -/
def down (place : Place) (name : Part) : Place :=
  if name = above then place.tail else name :: place

/-- Every directory on the way has to be there. -/
def walk (t : Tree) (place : Place) : List Part → Except OsError Place
  | [] => .ok place
  | name :: names => match t.node place with
    | some (.dir _) => walk t (down place name) names
    | some (.file _ _ _) => .error .notDirectory
    | none => .error .noEntry

/-- Where a path starts. -/
def startOf (cwd : Place) (path : List Char) : Place := if path.head? = some '/' then [] else cwd

/-- Where a path leads, if it leads anywhere. -/
def placeOf (cwd : Place) (path : List Char) : Place :=
  (PosixPath.names path).foldl down (startOf cwd path)

def locate (t : Tree) (path : List Char) : Except OsError Place :=
  walk t (startOf t.cwd path) (PosixPath.names path)

theorem eq_placeOf_of_walk {t : Tree} {place place' : Place} {names : List Part}
    (h : walk t place names = .ok place') : place' = names.foldl down place := by
  induction names generalizing place with
  | nil =>
    cases h
    rfl
  | cons name names ih =>
    rw [walk] at h
    split at h
    · exact ih h
    · cases h
    · cases h

theorem eq_placeOf {t : Tree} {path : List Char} {place : Place} (h : locate t path = .ok place) :
    place = placeOf t.cwd path :=
  eq_placeOf_of_walk h

/-! ## Calls -/

/-- What a call raises or returns, and the tree after it. -/
abbrev Io (α : Type) := Tree → Except PyExc α × Tree

/-- The call after this one, if this one does not raise. -/
def andThen {α β : Type} (x : Io α) (f : α → Io β) : Io β := fun t =>
  match x t with
  | (.ok a, t') => f a t'
  | (.error e, t') => (.error e, t')

def done {α : Type} (a : α) : Io α := fun t => (.ok a, t)

def raise {α : Type} (e : PyExc) : Io α := fun t => (.error e, t)

theorem andThen_ok_iff {α β : Type} {x : Io α} {f : α → Io β} {t t' : Tree} {b : β} :
    andThen x f t = (.ok b, t') ↔ ∃ a t₁, x t = (.ok a, t₁) ∧ f a t₁ = (.ok b, t') := by
  rw [andThen]
  constructor
  · intro h
    split at h
    · rename_i a t₁ hx
      exact ⟨a, t₁, hx, h⟩
    · cases h
  · rintro ⟨a, t₁, hx, h⟩
    rw [hx]
    exact h

theorem andThen_error_iff {α β : Type} {x : Io α} {f : α → Io β} {t t' : Tree} {e : PyExc} :
    andThen x f t = (.error e, t') ↔
      x t = (.error e, t') ∨ ∃ a t₁, x t = (.ok a, t₁) ∧ f a t₁ = (.error e, t') := by
  rw [andThen]
  constructor
  · intro h
    split at h
    · rename_i a t₁ hx
      exact .inr ⟨a, t₁, hx, h⟩
    · rename_i e' t₁ hx
      cases h
      exact .inl hx
  · rintro (hx | ⟨a, t₁, hx, h⟩)
    · rw [hx]
    · rw [hx]
      exact h

/-- A call that only looks. -/
def Looks {α : Type} (x : Io α) : Prop := ∀ t, (x t).2 = t

/-- A call that leaves every file as it is. -/
def Spares {α : Type} (x : Io α) : Prop := ∀ t, (x t).2.files = t.files

theorem Spares.of_eq {α : Type} {x : Io α} (h : Spares x) {t t' : Tree} {r : Except PyExc α}
    (hx : x t = (r, t')) : t'.files = t.files := by
  have hfiles := h t
  rw [hx] at hfiles
  exact hfiles

theorem Looks.eq {α : Type} {x : Io α} (h : Looks x) {t t' : Tree} {r : Except PyExc α}
    (hx : x t = (r, t')) : t' = t := by
  have ht := h t
  rw [hx] at ht
  exact ht

/-- What one call that changes a file does, and that it does nothing when it
fails. -/
structure Changes (x : Io Unit) (path : List Char) (bytes : Option (List UInt8)) : Prop where
  ok : ∀ t t', x t = (.ok (), t') → t'.files = t.files.put (placeOf t.cwd path) bytes
  error : ∀ t t' e, x t = (.error e, t') → t' = t

/-- A call that stays in the working directory. -/
def StaysPut {α : Type} (x : Io α) : Prop := ∀ t, (x t).2.cwd = t.cwd

theorem StaysPut.of_eq {α : Type} {x : Io α} (h : StaysPut x) {t t' : Tree} {r : Except PyExc α}
    (hx : x t = (r, t')) : t'.cwd = t.cwd := by
  have hcwd := h t
  rw [hx] at hcwd
  exact hcwd

theorem Looks.staysPut {α : Type} {x : Io α} (h : Looks x) : StaysPut x := by
  intro t
  rw [h t]

theorem looks_done {α : Type} (a : α) : Looks (done a) := fun _ => rfl

theorem looks_andThen {α β : Type} {x : Io α} {f : α → Io β} (hx : Looks x)
    (hf : ∀ a, Looks (f a)) : Looks (andThen x f) := by
  intro t
  rw [andThen]
  split
  · rename_i a t' heq
    rw [hf a t', hx.eq heq]
  · rename_i e t' heq
    exact hx.eq heq

theorem staysPut_done {α : Type} (a : α) : StaysPut (done a) := fun _ => rfl

theorem staysPut_raise {α : Type} (e : PyExc) : StaysPut (raise e : Io α) := fun _ => rfl

theorem staysPut_andThen {α β : Type} {x : Io α} {f : α → Io β} (hx : StaysPut x)
    (hf : ∀ a, StaysPut (f a)) : StaysPut (andThen x f) := by
  intro t
  rw [andThen]
  split
  · rename_i a t' heq
    rw [hf a t', hx.of_eq heq]
  · rename_i e t' heq
    exact hx.of_eq heq

/-- `path.exists()` -/
def pathExists (path : List Char) : Io Bool := fun t =>
  match locate t path with
  | .ok place => (.ok (t.node place).isSome, t)
  | .error _ => (.ok false, t)

theorem pathExists_looks (path : List Char) : Looks (pathExists path) := by
  intro t
  rw [pathExists]
  split <;> rfl

/-- `\r\n` and `\r` are read as `\n`. -/
def universalNewlines : List Char → List Char
  | [] => []
  | '\r' :: '\n' :: l => '\n' :: universalNewlines l
  | '\r' :: l => '\n' :: universalNewlines l
  | c :: l => c :: universalNewlines l

theorem universalNewlines_cons {c : Char} (hc : c ≠ '\r') (l : List Char) :
    universalNewlines (c :: l) = c :: universalNewlines l := by
  rw [universalNewlines]
  · exact fun _ h _ => hc h
  · exact hc

theorem universalNewlines_of_no_return {l : List Char} (h : '\r' ∉ l) : universalNewlines l = l := by
  induction l with
  | nil => rfl
  | cons c l ih =>
    rw [List.mem_cons, not_or] at h
    rw [universalNewlines_cons (Ne.symm h.1), ih h.2]

/-- May entries be made and removed in this directory? -/
def Tree.open? (t : Tree) (place : Place) : Bool :=
  match t.node place with
  | some (.dir writable) => writable
  | _ => false

section Calls

variable [Runtime]

def osError (e : OsError) (path : List Char) : PyExc :=
  .raised (e.text ++ ": " ++ Value.reprStr (String.ofList (pathText path)))

/-- `path.read_text()` -/
def readText (path : List Char) : Io (List Char) := fun t =>
  match locate t path with
  | .error e => (.error (osError e path), t)
  | .ok place => match t.node place with
    | none => (.error (osError .noEntry path), t)
    | some (.dir _) => (.error (osError .isDirectory path), t)
    | some (.file bytes readable _) =>
      if readable then match Json.fileText bytes with
        | some text => (.ok (universalNewlines text), t)
        | none => (.error (.valueError "'utf-8' codec can't decode bytes"), t)
      else (.error (osError .denied path), t)

/-- `path.write_text(text)` -/
def writeText (path text : List Char) : Io Unit := fun t =>
  match locate t path with
  | .error e => (.error (osError e path), t)
  | .ok place => match t.node place with
    | some (.dir _) => (.error (osError .isDirectory path), t)
    | some (.file _ readable writable) =>
      if writable then
        (.ok (), t.put place (some (.file (Json.fileBytes text) readable writable)))
      else (.error (osError .denied path), t)
    | none =>
      if t.open? place.tail then (.ok (), t.put place (some (.file (Json.fileBytes text) true true)))
      else (.error (osError .denied path), t)

/-- `path.unlink()` -/
def unlink (path : List Char) : Io Unit := fun t =>
  match locate t path with
  | .error e => (.error (osError e path), t)
  | .ok place => match t.node place with
    | none => (.error (osError .noEntry path), t)
    | some (.dir _) => (.error (osError .isDirectory path), t)
    | some (.file _ _ _) =>
      if t.open? place.tail then (.ok (), t.put place none)
      else (.error (osError .denied path), t)

/-- One directory after the other, those that are there already left alone. -/
def mkdirs (path : List Char) (place : Place) : List Part → Io Unit
  | [] => done ()
  | name :: names => fun t =>
    let next := down place name
    match t.node next with
    | some (.dir _) => mkdirs path next names t
    | some (.file _ _ _) =>
      (.error (osError (if names = [] then .fileExists else .notDirectory) path), t)
    | none =>
      if t.open? place then mkdirs path next names (t.put next (some (.dir true)))
      else (.error (osError .denied path), t)

/-- `path.parent.mkdir(parents=True, exist_ok=True)` -/
def mkdirParent (path : List Char) : Io Unit := fun t =>
  mkdirs path (startOf t.cwd path) (PosixPath.names path).dropLast t

/-! ## What a call leaves behind -/

theorem readText_looks (path : List Char) : Looks (readText path) := by
  intro t
  rw [readText]
  repeat' split
  all_goals rfl

/-- What is read is the text of a file. -/
theorem readText_ok {path text : List Char} {t t' : Tree}
    (h : readText path t = (.ok text, t')) :
    ∃ bytes decoded, t.files (placeOf t.cwd path) = some bytes ∧
      Json.fileText bytes = some decoded ∧ text = universalNewlines decoded := by
  rw [readText] at h
  split at h
  · cases h
  · rename_i place hplace
    split at h
    · cases h
    · cases h
    · rename_i bytes readable writable hnode
      split at h
      · split at h
        · rename_i decoded hdecoded
          cases h
          refine ⟨bytes, decoded, ?_, hdecoded, rfl⟩
          rw [← eq_placeOf hplace, Tree.files, hnode]
          rfl
        · cases h
      · cases h

theorem writeText_changes (path text : List Char) :
    Changes (writeText path text) path (some (Json.fileBytes text)) where
  ok t t' h := by
    rw [writeText] at h
    split at h
    · cases h
    · rename_i place hplace
      split at h
      · cases h
      · split at h
        · cases h
          rw [Tree.put_files, eq_placeOf hplace]
          rfl
        · cases h
      · split at h
        · cases h
          rw [Tree.put_files, eq_placeOf hplace]
          rfl
        · cases h
  error t t' e h := by
    rw [writeText] at h
    repeat' split at h
    all_goals cases h
    all_goals rfl

theorem writeText_staysPut (path text : List Char) : StaysPut (writeText path text) := by
  intro t
  rw [writeText]
  repeat' split
  all_goals rfl

theorem unlink_changes (path : List Char) : Changes (unlink path) path none where
  ok t t' h := by
    rw [unlink] at h
    split at h
    · cases h
    · rename_i place hplace
      split at h
      · cases h
      · cases h
      · split at h
        · cases h
          rw [Tree.put_files, eq_placeOf hplace]
          rfl
        · cases h
  error t t' e h := by
    rw [unlink] at h
    repeat' split at h
    all_goals cases h
    all_goals rfl

theorem unlink_staysPut (path : List Char) : StaysPut (unlink path) := by
  intro t
  rw [unlink]
  repeat' split
  all_goals rfl

theorem mkdirs_spares (path : List Char) (place : Place) (names : List Part) :
    Spares (mkdirs path place names) := by
  induction names generalizing place with
  | nil => exact fun _ => rfl
  | cons name names ih =>
    intro t
    rw [mkdirs]
    dsimp only
    split
    · exact ih (down place name) t
    · rfl
    · rename_i hnone
      split
      · rw [ih (down place name), Tree.put_files]
        apply Files.put_self
        rw [Tree.files, hnone]
        rfl
      · rfl

theorem mkdirs_staysPut (path : List Char) (place : Place) (names : List Part) :
    StaysPut (mkdirs path place names) := by
  induction names generalizing place with
  | nil => exact staysPut_done ()
  | cons name names ih =>
    intro t
    rw [mkdirs]
    dsimp only
    split
    · exact ih (down place name) t
    · rfl
    · split
      · exact ih (down place name) (t.put (down place name) (some (.dir true)))
      · rfl

/-- A call that changes nothing that is there. -/
def Keeps {α : Type} (x : Io α) : Prop :=
  ∀ t place, t.node place ≠ none → (x t).2.node place = t.node place

omit [Runtime] in
theorem Keeps.of_eq {α : Type} {x : Io α} (h : Keeps x) {t t' : Tree} {r : Except PyExc α}
    (hx : x t = (r, t')) {place : Place} (hthere : t.node place ≠ none) :
    t'.node place = t.node place := by
  have hnode := h t place hthere
  rw [hx] at hnode
  exact hnode

theorem mkdirs_keeps (path : List Char) (place : Place) (names : List Part) :
    Keeps (mkdirs path place names) := by
  induction names generalizing place with
  | nil => exact fun _ _ _ => rfl
  | cons name names ih =>
    intro t p hp
    rw [mkdirs]
    dsimp only
    split
    · exact ih (down place name) t p hp
    · rfl
    · rename_i hnone
      split
      · have hne : p ≠ down place name := by
          intro heq
          exact hp (heq ▸ hnone)
        have hput : (t.put (down place name) (some (.dir true))).node p = t.node p := if_neg hne
        rw [ih (down place name) _ p (by rw [hput]; exact hp), hput]
      · rfl

theorem mkdirParent_keeps (path : List Char) : Keeps (mkdirParent path) := fun t =>
  mkdirs_keeps path (startOf t.cwd path) (PosixPath.names path).dropLast t

/-- A file that has been written is there. -/
theorem writeText_put {path text : List Char} {t t' : Tree} (h : writeText path text t = (.ok (), t')) :
    ∃ readable writable, t' =
      t.put (placeOf t.cwd path) (some (.file (Json.fileBytes text) readable writable)) := by
  rw [writeText] at h
  split at h
  · cases h
  · rename_i place hplace
    rw [← eq_placeOf hplace]
    split at h
    · cases h
    · rename_i bytes readable writable hnode
      split at h
      · cases h
        exact ⟨readable, writable, rfl⟩
      · cases h
    · split at h
      · cases h
        exact ⟨true, true, rfl⟩
      · cases h

theorem unlink_put {path : List Char} {t t' : Tree} (h : unlink path t = (.ok (), t')) :
    t' = t.put (placeOf t.cwd path) none := by
  rw [unlink] at h
  split at h
  · cases h
  · rename_i place hplace
    rw [← eq_placeOf hplace]
    split at h
    · cases h
    · cases h
    · split at h
      · cases h
        rfl
      · cases h

theorem mkdirParent_spares (path : List Char) : Spares (mkdirParent path) := fun t =>
  mkdirs_spares path (startOf t.cwd path) (PosixPath.names path).dropLast t

theorem mkdirParent_staysPut (path : List Char) : StaysPut (mkdirParent path) := fun t =>
  mkdirs_staysPut path (startOf t.cwd path) (PosixPath.names path).dropLast t

end Calls

/-! ## What stays -/

/-- A path that leads somewhere still does while the directories stay. -/
theorem walk_of_dirs {t t' : Tree}
    (hdirs : ∀ p writable, t.node p = some (.dir writable) → t'.node p = some (.dir writable))
    {names : List Part} {p p' : Place} (h : walk t p names = .ok p') :
    walk t' p names = .ok p' := by
  induction names generalizing p with
  | nil => exact h
  | cons name names ih =>
    rw [walk] at h
    split at h
    · rename_i writable hdir
      rw [walk, hdirs p writable hdir]
      exact ih h
    · cases h
    · cases h

/-- The path leads to a file that holds these bytes and can be read. -/
def Tree.Holds (t : Tree) (path : List Char) (bytes : List UInt8) : Prop :=
  locate t path = .ok (placeOf t.cwd path) ∧
    ∃ writable, t.node (placeOf t.cwd path) = some (.file bytes true writable)

theorem Tree.Holds.of_same {t t' : Tree} {path : List Char} {bytes : List UInt8}
    (h : t.Holds path bytes) (hcwd : t'.cwd = t.cwd)
    (hdirs : ∀ p writable, t.node p = some (.dir writable) → t'.node p = some (.dir writable))
    (hnode : t'.node (placeOf t.cwd path) = t.node (placeOf t.cwd path)) : t'.Holds path bytes := by
  obtain ⟨hlocate, writable, hfile⟩ := h
  rw [Tree.Holds, locate, hcwd]
  exact ⟨walk_of_dirs hdirs hlocate, writable, by rw [hnode, hfile]⟩

/-- Whatever is there stays. -/
structure Grows (t t' : Tree) : Prop where
  cwd : t'.cwd = t.cwd
  keeps : ∀ p, t.node p ≠ none → t'.node p = t.node p

theorem Tree.Holds.grows {t t' : Tree} {path : List Char} {bytes : List UInt8}
    (hholds : t.Holds path bytes) (h : Grows t t') : t'.Holds path bytes := by
  have hthere := hholds.2
  obtain ⟨writable, hfile⟩ := hthere
  refine hholds.of_same h.cwd (fun p writable hdir => ?_) (h.keeps _ (by rw [hfile]; nofun))
  rw [h.keeps p (by rw [hdir]; nofun), hdir]

/-- Whatever is there stays, but for what is at a place that is no directory. -/
structure Undisturbed (t t' : Tree) (place : Place) : Prop where
  cwd : t'.cwd = t.cwd
  elsewhere : ∀ p, p ≠ place → t.node p ≠ none → t'.node p = t.node p
  noDir : ∀ writable, t.node place ≠ some (.dir writable)

theorem Tree.Holds.undisturbed {t t' : Tree} {place : Place} {path : List Char} {bytes : List UInt8}
    (hholds : t.Holds path bytes) (h : Undisturbed t t' place) (hne : placeOf t.cwd path ≠ place) :
    t'.Holds path bytes := by
  have hthere := hholds.2
  obtain ⟨writable, hfile⟩ := hthere
  refine hholds.of_same h.cwd (fun p writable hdir => ?_)
    (h.elsewhere _ hne (by rw [hfile]; nofun))
  have hp : p ≠ place := fun heq => h.noDir writable (heq ▸ hdir)
  rw [h.elsewhere p hp (by rw [hdir]; nofun), hdir]

theorem undisturbed_put {t : Tree} {place : Place}
    (hdir : ∀ writable, t.node place ≠ some (.dir writable)) (node : Option Node) :
    Undisturbed t (t.put place node) place :=
  ⟨rfl, fun _ hp _ => if_neg hp, hdir⟩

theorem holds_put {t : Tree} {path : List Char} {place : Place}
    (hlocate : locate t path = .ok place) (hdir : ∀ writable, t.node place ≠ some (.dir writable))
    (bytes : List UInt8) (writable : Bool) :
    (t.put place (some (.file bytes true writable))).Holds path bytes := by
  have hplace := eq_placeOf hlocate
  refine ⟨?_, writable, if_pos hplace.symm⟩
  show locate (t.put place _) path = .ok (placeOf t.cwd path)
  rw [← hplace]
  refine walk_of_dirs (fun p w hp => ?_) hlocate
  rw [(undisturbed_put hdir _).elsewhere p (fun heq => hdir w (heq ▸ hp)) (by rw [hp]; nofun), hp]

theorem pathExists_of_holds {path : List Char} {bytes : List UInt8} {t : Tree}
    (h : t.Holds path bytes) : pathExists path t = (.ok true, t) := by
  obtain ⟨hlocate, writable, hfile⟩ := h
  rw [pathExists, hlocate]
  simp only [hfile, Option.isSome_some]

theorem open?_undisturbed {t t' : Tree} {place p : Place} (h : Undisturbed t t' place)
    (hopen : t.open? p = true) : t'.open? p = true := by
  unfold Tree.open? at hopen ⊢
  cases hnode : t.node p with
  | none =>
    rw [hnode] at hopen
    cases hopen
  | some node =>
    cases node with
    | file bytes readable writable =>
      rw [hnode] at hopen
      cases hopen
    | dir writable =>
      have hne : p ≠ place := fun heq => h.noDir writable (heq ▸ hnode)
      rwa [h.elsewhere p hne (by rw [hnode]; nofun)]

/-- No file stands there that cannot be read. -/
def Tree.Legible (t : Tree) (place : Place) : Prop :=
  ∀ bytes readable writable, t.node place = some (.file bytes readable writable) → readable = true

theorem legible_of_grows {t t' : Tree} {place : Place} (h : Grows t t') (hfiles : t'.files = t.files)
    (hlegible : t.Legible place) : t'.Legible place := by
  intro bytes readable writable hnode
  have hthere : t.node place ≠ none := by
    intro hnone
    have hsame := congrFun hfiles place
    rw [Tree.files, Tree.files, hnode, hnone] at hsame
    cases hsame
  exact hlegible bytes readable writable ((h.keeps place hthere).symm.trans hnode)

theorem Grows.undisturbed {t t₁ t' : Tree} {place : Place} (h : Grows t t₁)
    (h' : Undisturbed t₁ t' place) : Undisturbed t t' place where
  cwd := h'.cwd.trans h.cwd
  elsewhere p hp hthere := by
    have hkept := h.keeps p hthere
    rw [h'.elsewhere p hp (by rwa [hkept]), hkept]
  noDir writable hdir := h'.noDir writable ((h.keeps place (by rw [hdir]; nofun)).trans hdir)

section Calls

variable [Runtime]

theorem grows_mkdirParent {path : List Char} {t t' : Tree} {r : Except PyExc Unit}
    (h : mkdirParent path t = (r, t')) : Grows t t' where
  cwd := (mkdirParent_staysPut path).of_eq h
  keeps _ hthere := (mkdirParent_keeps path).of_eq h hthere

theorem readText_of_holds {path text : List Char} {t : Tree} (h : t.Holds path (Json.fileBytes text)) :
    readText path t = (.ok (universalNewlines text), t) := by
  obtain ⟨hlocate, writable, hfile⟩ := h
  rw [readText, hlocate]
  simp only [hfile, if_true, Json.fileText_fileBytes]

/-- What is written can be read where it stands, if a file that stood there could. -/
theorem writeText_holds {path text : List Char} {t t' : Tree}
    (h : writeText path text t = (.ok (), t')) :
    Undisturbed t t' (placeOf t.cwd path) ∧
      (t.Legible (placeOf t.cwd path) → t'.Holds path (Json.fileBytes text)) := by
  rw [writeText] at h
  cases hlocate : locate t path with
  | error e =>
    rw [hlocate] at h
    cases h
  | ok place =>
    rw [hlocate] at h
    rw [← eq_placeOf hlocate]
    cases hnode : t.node place with
    | none =>
      have hdir : ∀ writable, t.node place ≠ some (.dir writable) := fun _ => by rw [hnode]; nofun
      simp only [hnode] at h
      split at h
      · cases h
        exact ⟨undisturbed_put hdir _, fun _ => holds_put hlocate hdir _ _⟩
      · cases h
    | some node =>
      cases node with
      | dir writable =>
        simp only [hnode] at h
        cases h
      | file bytes readable writable =>
        have hdir : ∀ writable, t.node place ≠ some (.dir writable) := fun _ => by rw [hnode]; nofun
        simp only [hnode] at h
        split at h
        · cases h
          refine ⟨undisturbed_put hdir _, fun hlegible => ?_⟩
          rw [hlegible bytes readable writable hnode]
          exact holds_put hlocate hdir _ _
        · cases h

/-- What writing a file in a directory that may have to be made leaves. -/
structure Written (t t' : Tree) (path text : List Char) : Prop where
  undisturbed : Undisturbed t t' (placeOf t.cwd path)
  holds : t.Legible (placeOf t.cwd path) → t'.Holds path (Json.fileBytes text)
  files : t'.files = t.files.put (placeOf t.cwd path) (some (Json.fileBytes text))

theorem written_of_ok {path text : List Char} {t t' : Tree}
    (h : andThen (mkdirParent path) (fun _ => writeText path text) t = (.ok (), t')) :
    Written t t' path text := by
  obtain ⟨_, t₁, hmade, hwritten⟩ := andThen_ok_iff.mp h
  have hgrows := grows_mkdirParent hmade
  have hspared := (mkdirParent_spares path).of_eq hmade
  obtain ⟨hundisturbed, hholds⟩ := writeText_holds hwritten
  have hput := (writeText_changes path text).ok _ _ hwritten
  rw [hgrows.cwd] at hundisturbed hholds hput
  exact ⟨hgrows.undisturbed hundisturbed,
    fun hlegible => hholds (legible_of_grows hgrows hspared hlegible), by rw [hput, hspared]⟩

theorem grows_of_error {path text : List Char} {t t' : Tree} {e : PyExc}
    (h : andThen (mkdirParent path) (fun _ => writeText path text) t = (.error e, t')) :
    Grows t t' ∧ t'.files = t.files := by
  obtain hmade | ⟨_, t₁, hmade, hwritten⟩ := andThen_error_iff.mp h
  · exact ⟨grows_mkdirParent hmade, (mkdirParent_spares path).of_eq hmade⟩
  · have hsame := (writeText_changes path text).error _ _ _ hwritten
    rw [hsame]
    exact ⟨grows_mkdirParent hmade, (mkdirParent_spares path).of_eq hmade⟩

/-- A file in a directory that lets entries go can be deleted. -/
theorem unlink_of_holds {path : List Char} {bytes : List UInt8} {t : Tree} (h : t.Holds path bytes)
    (hopen : t.open? (placeOf t.cwd path).tail = true) :
    unlink path t = (.ok (), t.put (placeOf t.cwd path) none) ∧
      Undisturbed t (t.put (placeOf t.cwd path) none) (placeOf t.cwd path) := by
  obtain ⟨hlocate, writable, hfile⟩ := h
  constructor
  · rw [unlink, hlocate]
    simp only [hfile, hopen, if_true]
  · exact undisturbed_put (fun _ => by rw [hfile]; nofun) none

end Calls

/-! ## Many changes -/

/-- A file and what it is to hold, or that it is to go. -/
structure Write where
  place : Place
  bytes : Option (List UInt8)

def Files.write (f : Files) (w : Write) : Files := f.put w.place w.bytes

def Files.writeAll (f : Files) (ws : List Write) : Files := ws.foldl Files.write f

/-- What the last write to a place leaves there. -/
def lastWrite (ws : List Write) (place : Place) : Option (Option (List UInt8)) :=
  ws.foldl (fun last w => if w.place = place then some w.bytes else last) none

theorem writeAll_append (f : Files) (ws ws' : List Write) :
    f.writeAll (ws ++ ws') = (f.writeAll ws).writeAll ws' := List.foldl_append

theorem writeAll_apply (f : Files) (ws : List Write) (place : Place) :
    f.writeAll ws place = (lastWrite ws place).getD (f place) := by
  induction ws using List.reverseRecOn with
  | nil => rfl
  | append_singleton ws w ih =>
    rw [Files.writeAll, lastWrite, List.foldl_append, List.foldl_append]
    show (if place = w.place then w.bytes else f.writeAll ws place) =
      (if w.place = place then some w.bytes else lastWrite ws place).getD (f place)
    by_cases h : w.place = place
    · rw [if_pos h, if_pos h.symm]
      rfl
    · rw [if_neg h, if_neg (Ne.symm h)]
      exact ih

/-- Every file some write names is left with what it held. -/
def PutsBack (f : Files) (ws : List Write) : Prop :=
  ∀ place bytes, lastWrite ws place = some bytes → bytes = f place

theorem writeAll_eq_iff (f : Files) (ws : List Write) : f.writeAll ws = f ↔ PutsBack f ws := by
  constructor
  · intro h place bytes hlast
    have hplace : f.writeAll ws place = f place := by rw [h]
    rw [writeAll_apply, hlast] at hplace
    exact hplace
  · intro h
    funext place
    rw [writeAll_apply]
    cases hlast : lastWrite ws place with
    | none => rfl
    | some bytes => exact h place bytes hlast

end FileTree
end Py
