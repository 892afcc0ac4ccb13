import DotRunner.Patch.Apply
import DotRunner.Py.Ascii

/-!
# All or nothing

What a patch that fails leaves behind.  On files that never refuse, a patch is a
list of writes; a failed call has made the writes of the operations in front of
the one that raised, and at most one of its own.
-/

namespace DotRunner
namespace Patch

open Py Py.FileTree

section Failure

variable [Runtime] (tool : ApplyPatchTool)

/-! ## A patch as writes -/

omit [Runtime] in
def ApplyPatchTool.target (cwd : Place) (path : List Char) : Place :=
  placeOf cwd (tool.resolvePath path)

/-- What an update makes of a file. -/
def updatedBytes (path : List Char) (hunks : List Hunk) (before : Option (List UInt8)) :
    Option (List UInt8) := do
  let bytes ← before
  let text ← Json.fileText bytes
  match updatedText path (universalNewlines text) hunks with
  | .ok newContent => some (Json.fileBytes newContent)
  | .error _ => none

/-- What an operation writes, where it goes through. -/
def ApplyPatchTool.writesOf (cwd : Place) (f : Files) : PatchOperation → List Write
  | .addFile path content => [⟨tool.target cwd path, some (Json.fileBytes content)⟩]
  | .deleteFile path => [⟨tool.target cwd path, none⟩]
  | .updateFile path moveTo hunks =>
    let bytes := updatedBytes path hunks (f (tool.target cwd path))
    match moveTo with
    | some (c :: newPath) =>
      [⟨tool.target cwd (c :: newPath), bytes⟩, ⟨tool.target cwd path, none⟩]
    | _ => [⟨tool.target cwd path, bytes⟩]

/-- The writes of a list of operations, each from the files the ones before it
leave. -/
def ApplyPatchTool.plan (cwd : Place) : Files → List PatchOperation → List Write
  | _, [] => []
  | f, op :: operations =>
    tool.writesOf cwd f op ++ plan cwd (f.writeAll (tool.writesOf cwd f op)) operations

/-! ## One operation -/

theorem moveFile_staysPut (path newPath newContent : List Char) :
    StaysPut (tool.moveFile path newPath newContent) :=
  staysPut_andThen (mkdirParent_staysPut _) fun _ =>
    staysPut_andThen (writeText_staysPut _ _) fun _ => unlink_staysPut _

theorem storeUpdate_staysPut (path : List Char) (moveTo : Option (List Char))
    (newContent : List Char) : StaysPut (tool.storeUpdate path moveTo newContent) := by
  rw [ApplyPatchTool.storeUpdate.eq_def]
  split
  · exact staysPut_andThen (moveFile_staysPut tool _ _ _) fun _ => staysPut_done _
  · exact staysPut_andThen (writeText_staysPut _ _) fun _ => staysPut_done _

theorem applyOperation_staysPut (op : PatchOperation) : StaysPut (tool.applyOperation op) := by
  cases op with
  | addFile path content =>
    exact staysPut_andThen (mkdirParent_staysPut _) fun _ =>
      staysPut_andThen (writeText_staysPut _ _) fun _ => staysPut_done _
  | deleteFile path =>
    refine staysPut_andThen (pathExists_looks _).staysPut fun there => ?_
    split
    · exact staysPut_andThen (unlink_staysPut _) fun _ => staysPut_done _
    · exact staysPut_raise _
  | updateFile path moveTo hunks =>
    refine staysPut_andThen (pathExists_looks _).staysPut fun there => ?_
    split
    · refine staysPut_andThen (readText_looks _).staysPut fun content => ?_
      split
      · exact staysPut_raise _
      · exact storeUpdate_staysPut tool _ _ _
    · exact staysPut_raise _

/-- What an operation leaves of the files: the writes `ok` where it goes through,
the writes `failed` where it raises. -/
structure Leaves {α : Type} (x : Io α) (t : Tree) (ok failed : List Write) : Prop where
  ok : ∀ a t', x t = (.ok a, t') → t'.files = t.files.writeAll ok
  failed : ∀ e t', x t = (.error e, t') → t'.files = t.files.writeAll failed

theorem applyAddFile_leaves (path content : List Char) (t : Tree) :
    Leaves (tool.applyAddFile path content) t
      [⟨tool.target t.cwd path, some (Json.fileBytes content)⟩] [] where
  ok s t' h := by
    obtain ⟨_, t₁, hmkdir, h⟩ := andThen_ok_iff.mp h
    obtain ⟨_, t₂, hwrite, h⟩ := andThen_ok_iff.mp h
    cases h
    rw [(writeText_changes _ content).ok _ _ hwrite, (mkdirParent_spares _).of_eq hmkdir,
      (mkdirParent_staysPut _).of_eq hmkdir]
    rfl
  failed e t' h := by
    rcases andThen_error_iff.mp h with hmkdir | ⟨_, t₁, hmkdir, h⟩
    · exact (mkdirParent_spares _).of_eq hmkdir
    · rcases andThen_error_iff.mp h with hwrite | ⟨_, _, _, h⟩
      · rw [(writeText_changes _ content).error _ _ _ hwrite]
        exact (mkdirParent_spares _).of_eq hmkdir
      · cases h

theorem applyDeleteFile_leaves (path : List Char) (t : Tree) :
    Leaves (tool.applyDeleteFile path) t [⟨tool.target t.cwd path, none⟩] [] where
  ok s t' h := by
    obtain ⟨there, t₁, hexists, h⟩ := andThen_ok_iff.mp h
    rw [(pathExists_looks _).eq hexists] at h
    split at h
    · obtain ⟨_, t₂, hunlink, h⟩ := andThen_ok_iff.mp h
      cases h
      exact (unlink_changes _).ok _ _ hunlink
    · cases h
  failed e t' h := by
    rcases andThen_error_iff.mp h with hexists | ⟨there, t₁, hexists, h⟩
    · rw [(pathExists_looks _).eq hexists]
      rfl
    · rw [(pathExists_looks _).eq hexists] at h
      split at h
      · rcases andThen_error_iff.mp h with hunlink | ⟨_, _, _, h⟩
        · rw [(unlink_changes _).error _ _ _ hunlink]
          rfl
        · cases h
      · cases h
        rfl

theorem writeUpdate_leaves (path newContent : List Char) (t : Tree) (s : String) :
    Leaves (andThen (writeText (tool.resolvePath path) newContent) fun _ => done s) t
      [⟨tool.target t.cwd path, some (Json.fileBytes newContent)⟩] [] where
  ok s t' h := by
    obtain ⟨_, t₁, hwrite, h⟩ := andThen_ok_iff.mp h
    cases h
    exact (writeText_changes _ newContent).ok _ _ hwrite
  failed e t' h := by
    rcases andThen_error_iff.mp h with hwrite | ⟨_, _, _, h⟩
    · rw [(writeText_changes _ newContent).error _ _ _ hwrite]
      rfl
    · cases h

/-- The new file as far as it has been written when the call raises. -/
def ApplyPatchTool.copyOf (t : Tree) (path newPath newContent : List Char) : List Write :=
  match andThen (mkdirParent (tool.resolvePath newPath))
      (fun _ => writeText (tool.resolvePath newPath) newContent) t with
  | (.error _, _) => []
  | (.ok _, t') => match unlink (tool.resolvePath path) t' with
    | (.error _, _) => [⟨tool.target t.cwd newPath, some (Json.fileBytes newContent)⟩]
    | (.ok _, _) => []

theorem moveFile_leaves (path newPath newContent : List Char) (t : Tree) :
    Leaves (tool.moveFile path newPath newContent) t
      [⟨tool.target t.cwd newPath, some (Json.fileBytes newContent)⟩,
        ⟨tool.target t.cwd path, none⟩] (tool.copyOf t path newPath newContent) where
  ok s t' h := by
    obtain ⟨_, t₁, hmkdir, h⟩ := andThen_ok_iff.mp h
    obtain ⟨_, t₂, hwrite, hunlink⟩ := andThen_ok_iff.mp h
    rw [(unlink_changes _).ok _ _ hunlink, (writeText_changes _ newContent).ok _ _ hwrite,
      (mkdirParent_spares _).of_eq hmkdir, (writeText_staysPut _ _).of_eq hwrite,
      (mkdirParent_staysPut _).of_eq hmkdir]
    rfl
  failed e t' h := by
    rw [ApplyPatchTool.copyOf]
    rcases andThen_error_iff.mp h with hmkdir | ⟨_, t₁, hmkdir, h⟩
    · rw [andThen, hmkdir]
      exact (mkdirParent_spares _).of_eq hmkdir
    · rcases andThen_error_iff.mp h with hwrite | ⟨_, t₂, hwrite, hunlink⟩
      · rw [andThen, hmkdir]
        dsimp only
        rw [hwrite, (writeText_changes _ newContent).error _ _ _ hwrite]
        exact (mkdirParent_spares _).of_eq hmkdir
      · rw [andThen, hmkdir]
        dsimp only
        rw [hwrite]
        dsimp only
        rw [hunlink, (unlink_changes _).error _ _ _ hunlink,
          (writeText_changes _ newContent).ok _ _ hwrite, (mkdirParent_spares _).of_eq hmkdir,
          (mkdirParent_staysPut _).of_eq hmkdir]
        rfl

/-- The copy a rename has made when its old file cannot be removed. -/
def ApplyPatchTool.strandedCopy (t : Tree) : PatchOperation → List Write
  | .updateFile path (some (c :: newPath)) hunks =>
    match readText (tool.resolvePath path) t with
    | (.error _, _) => []
    | (.ok content, _) => match updatedText path content hunks with
      | .error _ => []
      | .ok newContent => tool.copyOf t path (c :: newPath) newContent
  | _ => []

theorem updatedBytes_of_readText {path text newContent : List Char} {hunks : List Hunk}
    {t t' : Tree} (hread : readText (tool.resolvePath path) t = (.ok text, t'))
    (hupdate : updatedText path text hunks = .ok newContent) :
    updatedBytes path hunks (t.files (tool.target t.cwd path)) =
      some (Json.fileBytes newContent) := by
  obtain ⟨bytes, decoded, hbytes, hdecoded, rfl⟩ := readText_ok hread
  rw [ApplyPatchTool.target, hbytes]
  show (do
    let text ← Json.fileText bytes
    match updatedText path (universalNewlines text) hunks with
    | .ok newContent => some (Json.fileBytes newContent)
    | .error _ => none) = some (Json.fileBytes newContent)
  rw [hdecoded]
  show (match updatedText path (universalNewlines decoded) hunks with
    | .ok newContent => some (Json.fileBytes newContent)
    | .error _ => none) = some (Json.fileBytes newContent)
  rw [hupdate]

theorem storeUpdate_leaves {path text newContent : List Char} {hunks : List Hunk} {t t' : Tree}
    (moveTo : Option (List Char)) (hread : readText (tool.resolvePath path) t = (.ok text, t'))
    (hupdate : updatedText path text hunks = .ok newContent) :
    Leaves (tool.storeUpdate path moveTo newContent) t
      (tool.writesOf t.cwd t.files (.updateFile path moveTo hunks))
      (tool.strandedCopy t (.updateFile path moveTo hunks)) := by
  have hbytes := updatedBytes_of_readText tool hread hupdate
  match moveTo with
  | none =>
    show Leaves _ t [⟨tool.target t.cwd path, updatedBytes path hunks _⟩] []
    rw [hbytes]
    exact writeUpdate_leaves tool path newContent t _
  | some [] =>
    show Leaves _ t [⟨tool.target t.cwd path, updatedBytes path hunks _⟩] []
    rw [hbytes]
    exact writeUpdate_leaves tool path newContent t _
  | some (c :: newPath) =>
    have hmove := moveFile_leaves tool path (c :: newPath) newContent t
    rw [ApplyPatchTool.writesOf, hbytes, ApplyPatchTool.strandedCopy, hread]
    dsimp only
    rw [hupdate]
    constructor
    · intro s t' h
      obtain ⟨_, t₁, hmoved, h⟩ := andThen_ok_iff.mp h
      cases h
      exact hmove.ok _ _ hmoved
    · intro e t' h
      rcases andThen_error_iff.mp h with hmoved | ⟨_, _, _, h⟩
      · exact hmove.failed _ _ hmoved
      · cases h

theorem strandedCopy_of_error {path : List Char} {hunks : List Hunk} {t t' : Tree} {e : PyExc}
    (moveTo : Option (List Char)) (h : readText (tool.resolvePath path) t = (.error e, t')) :
    tool.strandedCopy t (.updateFile path moveTo hunks) = [] := by
  match moveTo with
  | none => rfl
  | some [] => rfl
  | some (c :: newPath) => rw [ApplyPatchTool.strandedCopy, h]

theorem strandedCopy_of_mismatch {path text : List Char} {hunks : List Hunk} {t t' : Tree}
    {e : PyExc} (moveTo : Option (List Char))
    (hread : readText (tool.resolvePath path) t = (.ok text, t'))
    (hupdate : updatedText path text hunks = .error e) :
    tool.strandedCopy t (.updateFile path moveTo hunks) = [] := by
  match moveTo with
  | none => rfl
  | some [] => rfl
  | some (c :: newPath) =>
    rw [ApplyPatchTool.strandedCopy, hread]
    dsimp only
    rw [hupdate]

/-- A path that is not there is not read either. -/
theorem readText_of_not_exists {path : List Char} {t t' : Tree}
    (h : pathExists path t = (.ok false, t')) :
    ∃ e, readText path t = (.error e, t) := by
  rw [pathExists] at h
  rw [readText]
  split at h
  · rename_i place hplace
    have hnone : (t.node place).isSome = false := Except.ok.inj (Prod.mk.inj h).1
    rw [Option.isSome_eq_false_iff, Option.isNone_iff_eq_none] at hnone
    rw [hplace]
    dsimp only
    rw [hnone]
    exact ⟨_, rfl⟩
  · rename_i hlost
    rw [hlost]
    exact ⟨_, rfl⟩

theorem applyUpdateFile_leaves (path : List Char) (moveTo : Option (List Char))
    (hunks : List Hunk) (t : Tree) :
    Leaves (tool.applyUpdateFile path moveTo hunks) t
      (tool.writesOf t.cwd t.files (.updateFile path moveTo hunks))
      (tool.strandedCopy t (.updateFile path moveTo hunks)) where
  ok s t' h := by
    obtain ⟨there, t₁, hexists, h⟩ := andThen_ok_iff.mp h
    rw [(pathExists_looks _).eq hexists] at h
    split at h
    · obtain ⟨content, t₂, hread, h⟩ := andThen_ok_iff.mp h
      rw [(readText_looks _).eq hread] at h
      cases hupdate : updatedText path content hunks with
      | error e =>
        rw [hupdate] at h
        cases h
      | ok newContent =>
        rw [hupdate] at h
        exact (storeUpdate_leaves tool moveTo hread hupdate).ok _ _ h
    · cases h
  failed e t' h := by
    rcases andThen_error_iff.mp h with hexists | ⟨there, t₁, hexists, h⟩
    · rw [pathExists] at hexists
      split at hexists
      · cases hexists
      · cases hexists
    · rw [(pathExists_looks _).eq hexists] at h
      split at h
      · rcases andThen_error_iff.mp h with hread | ⟨content, t₂, hread, h⟩
        · rw [strandedCopy_of_error tool moveTo hread, (readText_looks _).eq hread]
          rfl
        · rw [(readText_looks _).eq hread] at h
          cases hupdate : updatedText path content hunks with
          | error e =>
            rw [hupdate] at h
            cases h
            rw [strandedCopy_of_mismatch tool moveTo hread hupdate]
            rfl
          | ok newContent =>
            rw [hupdate] at h
            exact (storeUpdate_leaves tool moveTo hread hupdate).failed _ _ h
      · rename_i hthere
        cases h
        cases there with
        | true => exact absurd rfl hthere
        | false =>
          obtain ⟨e', hread⟩ := readText_of_not_exists hexists
          rw [strandedCopy_of_error tool moveTo hread]
          rfl

/-- An operation that goes through makes its writes; one that raises makes none,
unless it is a rename whose old file stays. -/
theorem applyOperation_leaves (op : PatchOperation) (t : Tree) :
    Leaves (tool.applyOperation op) t (tool.writesOf t.cwd t.files op)
      (tool.strandedCopy t op) := by
  cases op with
  | addFile path content => exact applyAddFile_leaves tool path content t
  | deleteFile path => exact applyDeleteFile_leaves tool path t
  | updateFile path moveTo hunks => exact applyUpdateFile_leaves tool path moveTo hunks t

/-! ## Many operations -/

/-- The tree after operations that all go through. -/
def ApplyPatchTool.goThrough : List PatchOperation → Tree → Option Tree
  | [], t => some t
  | op :: operations, t => match tool.applyOperation op t with
    | (.ok _, t') => goThrough operations t'
    | (.error _, _) => none

/-- The writes of operations that all go through are the planned ones. -/
theorem goThrough_files {operations : List PatchOperation} {t t' : Tree}
    (h : tool.goThrough operations t = some t') :
    t'.files = t.files.writeAll (tool.plan t.cwd t.files operations) := by
  induction operations generalizing t with
  | nil =>
    cases h
    rfl
  | cons op operations ih =>
    rw [ApplyPatchTool.goThrough] at h
    split at h
    · rename_i s t₁ happly
      have hfiles := (applyOperation_leaves tool op t).ok _ _ happly
      have hcwd := (applyOperation_staysPut tool op).of_eq happly
      rw [ih h, hcwd, hfiles, ApplyPatchTool.plan, writeAll_append]
    · cases h

/-- The operation that raises, with the ones in front of it gone through. -/
structure Refused (operations : List PatchOperation) (t : Tree) (before : List PatchOperation)
    (op : PatchOperation) (reached : Tree) : Prop where
  split : ∃ after, operations = before ++ op :: after
  gone : tool.goThrough before t = some reached
  raises : ∃ e t', tool.applyOperation op reached = (.error e, t')

/-- A list of operations fails at the first one that raises. -/
theorem applyOperations_failed_iff (operations : List PatchOperation)
    (filesModified : List (List Char)) (summaries : List String) (t : Tree) :
    (tool.applyOperations operations filesModified summaries t).1.failed = true ↔
      ∃ before op reached, Refused tool operations t before op reached := by
  induction operations generalizing filesModified summaries t with
  | nil =>
    constructor
    · intro h
      cases h
    · rintro ⟨before, op, reached, h⟩
      obtain ⟨after, hsplit⟩ := h.split
      simp at hsplit
  | cons op operations ih =>
    rw [ApplyPatchTool.applyOperations]
    split
    · rename_i s t₁ happly
      rw [ih]
      constructor
      · rintro ⟨before, op', reached, h⟩
        obtain ⟨after, hsplit⟩ := h.split
        refine ⟨op :: before, op', reached, ⟨after, ?_⟩, ?_, h.raises⟩
        · rw [hsplit]
          rfl
        · rw [ApplyPatchTool.goThrough, happly]
          exact h.gone
      · rintro ⟨before, op', reached, h⟩
        obtain ⟨after, hsplit⟩ := h.split
        cases before with
        | nil =>
          obtain ⟨e, t', hraises⟩ := h.raises
          have hreached : t = reached := Option.some.inj h.gone
          cases hsplit
          rw [← hreached, happly] at hraises
          cases hraises
        | cons first before =>
          cases hsplit
          have hgone := h.gone
          rw [ApplyPatchTool.goThrough, happly] at hgone
          exact ⟨before, op', reached, ⟨after, rfl⟩, hgone, h.raises⟩
    · rename_i e t₁ happly
      constructor
      · intro _
        exact ⟨[], op, t, ⟨operations, rfl⟩, rfl, e, t₁, happly⟩
      · intro _
        rfl

/-- What a failed list of operations leaves. -/
theorem applyOperations_files {operations before : List PatchOperation} {op : PatchOperation}
    {t reached : Tree} (h : Refused tool operations t before op reached)
    (filesModified : List (List Char)) (summaries : List String) :
    (tool.applyOperations operations filesModified summaries t).2.files =
      t.files.writeAll (tool.plan t.cwd t.files before ++ tool.strandedCopy reached op) := by
  obtain ⟨after, hsplit⟩ := h.split
  subst hsplit
  have hreached := h.gone
  obtain ⟨e, t', hraises⟩ := h.raises
  rw [writeAll_append, ← goThrough_files tool hreached]
  clear h
  induction before generalizing filesModified summaries t with
  | nil =>
    cases hreached
    rw [List.nil_append, ApplyPatchTool.applyOperations, hraises]
    exact (applyOperation_leaves tool op reached).failed _ _ hraises
  | cons first before ih =>
    rw [ApplyPatchTool.goThrough] at hreached
    split at hreached
    · rename_i s t₁ happly
      rw [List.cons_append, ApplyPatchTool.applyOperations, happly]
      exact ih _ _ hreached
    · cases hreached

/-! ## The call -/

/-- A call that reports failure has left every file as it was. -/
def ApplyPatchTool.AllOrNothing (patch : Option (List Char)) (t : Tree) : Prop :=
  (tool.execute patch t).1.failed = true → (tool.execute patch t).2.files = t.files

theorem parseV4aPatch_nil : ∃ e, parseV4aPatch [] = .error e := by
  have hnone : findLine beginPatch (([] : List Char).splitOn '\n') = none := by decide +kernel
  rw [parseV4aPatch]
  dsimp only
  rw [hnone]
  exact ⟨_, rfl⟩

end Failure

section Demo

open Py.Ascii

/-- A directory with nothing in it. -/
def emptyTree : Tree := ⟨fun place => if place = [] then some (.dir true) else none, []⟩

/-- Add a file, and delete one that is not there. -/
def addThenDelete : List Char := renderPatch [.addFile ['f'] ['x', '\n'], .deleteFile ['g']]

end Demo

end Patch
end DotRunner
