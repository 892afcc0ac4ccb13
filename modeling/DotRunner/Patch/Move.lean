import DotRunner.Patch.AllOrNothing

/-!
# Moving a file

What an update with `move_to` leaves behind when it goes through.
-/

namespace DotRunner
namespace Patch

open Py Py.FileTree

section Move

variable [Runtime] (tool : ApplyPatchTool)

/-- The patched content is at the destination and the source is gone; everything else that was
there is as it was, and no file has come up. -/
structure Moved (path newPath : List Char) (hunks : List Hunk) (t t' : Tree) : Prop where
  destination : ∃ bytes, updatedBytes path hunks (t.files (tool.target t.cwd path)) = some bytes ∧
    t'.files (tool.target t.cwd newPath) = some bytes
  source : tool.target t.cwd path ≠ tool.target t.cwd newPath →
    t'.node (tool.target t.cwd path) = none
  kept : ∀ place, place ≠ tool.target t.cwd path → place ≠ tool.target t.cwd newPath →
    t.node place ≠ none → t'.node place = t.node place
  files : ∀ place, place ≠ tool.target t.cwd path → place ≠ tool.target t.cwd newPath →
    t'.files place = t.files place

/-- The calls of a move that goes through. -/
theorem moveFile_ok {path newPath newContent : List Char} {t t' : Tree}
    (h : tool.moveFile path newPath newContent t = (.ok (), t')) :
    ∃ t₁ readable writable, mkdirParent (tool.resolvePath newPath) t = (.ok (), t₁) ∧
      t' = (t₁.put (tool.target t.cwd newPath)
        (some (.file (Json.fileBytes newContent) readable writable))).put
          (tool.target t.cwd path) none := by
  obtain ⟨_, t₁, hmkdir, h⟩ := andThen_ok_iff.mp h
  obtain ⟨_, t₂, hwrite, hunlink⟩ := andThen_ok_iff.mp h
  obtain ⟨readable, writable, rfl⟩ := writeText_put hwrite
  have hcwd := (mkdirParent_staysPut (tool.resolvePath newPath)).of_eq hmkdir
  refine ⟨t₁, readable, writable, hmkdir, ?_⟩
  rw [unlink_put hunlink, Tree.put_cwd, hcwd]
  rfl

/-- The calls of an update that goes through. -/
theorem applyUpdateFile_ok {path : List Char} {moveTo : Option (List Char)} {hunks : List Hunk}
    {t t' : Tree} {s : String} (h : tool.applyUpdateFile path moveTo hunks t = (.ok s, t')) :
    ∃ newContent, updatedBytes path hunks (t.files (tool.target t.cwd path)) =
        some (Json.fileBytes newContent) ∧
      tool.storeUpdate path moveTo newContent t = (.ok s, t') := by
  obtain ⟨there, t₁, hexists, h⟩ := andThen_ok_iff.mp h
  rw [(pathExists_looks _).eq hexists] at h
  split at h
  · obtain ⟨content, t₂, hread, hrest⟩ := andThen_ok_iff.mp h
    rw [(readText_looks _).eq hread] at hrest
    cases hupdate : updatedText path content hunks with
    | error e =>
      rw [hupdate] at hrest
      cases hrest
    | ok newContent =>
      rw [hupdate] at hrest
      exact ⟨newContent, updatedBytes_of_readText tool hread hupdate, hrest⟩
  · cases h

/-- A move that goes through is right just if it goes to another file. -/
theorem moved_iff_ne {path newPath : List Char} {c : Char} {hunks : List Hunk} {t t' : Tree}
    {s : String}
    (h : tool.applyOperation (.updateFile path (some (c :: newPath)) hunks) t = (.ok s, t')) :
    Moved tool path (c :: newPath) hunks t t' ↔
      tool.target t.cwd path ≠ tool.target t.cwd (c :: newPath) := by
  obtain ⟨newContent, hbytes, hstore⟩ := applyUpdateFile_ok tool h
  obtain ⟨_, t₂, hmove, hdone⟩ := andThen_ok_iff.mp hstore
  cases hdone
  obtain ⟨t₁, readable, writable, hmkdir, rfl⟩ := moveFile_ok tool hmove
  constructor
  · intro hmoved heq
    obtain ⟨bytes, -, hfile⟩ := hmoved.destination
    have hgone : ((t₁.put (tool.target t.cwd (c :: newPath))
        (some (.file (Json.fileBytes newContent) readable writable))).put
          (tool.target t.cwd path) none).node (tool.target t.cwd (c :: newPath)) = none :=
      if_pos heq.symm
    rw [Tree.files, hgone] at hfile
    cases hfile
  · intro hne
    refine ⟨⟨_, hbytes, ?_⟩, fun _ => if_pos rfl, fun place hsource htarget hthere => ?_,
      fun place hsource htarget => ?_⟩
    · rw [Tree.put_files, Files.put, if_neg hne.symm, Tree.put_files, Files.put, if_pos rfl]
      rfl
    · show (if place = tool.target t.cwd path then none
        else if place = tool.target t.cwd (c :: newPath) then _ else t₁.node place) = t.node place
      rw [if_neg hsource, if_neg htarget]
      exact (mkdirParent_keeps _).of_eq hmkdir hthere
    · rw [Tree.put_files, Files.put, if_neg hsource, Tree.put_files, Files.put, if_neg htarget,
        (mkdirParent_spares _).of_eq hmkdir]

end Move

section Demo

open Py.Ascii

/-- A file `f` that holds `x`, in an otherwise empty directory. -/
def oneFileTree : Tree where
  node place :=
    if place = [] then some (.dir true)
    else if place = [['f']] then some (.file [120] true true)
    else none
  cwd := []

/-- The file `f` moved without a change. -/
def moveOf (c : Char) (newPath : List Char) : Except PyExc String × Tree :=
  (ApplyPatchTool.mk []).applyOperation (.updateFile ['f'] (some (c :: newPath)) []) oneFileTree

def wentThrough (run : Except PyExc String × Tree) : Bool := run.1.isOk

theorem moved_to_other : ∃ t', Moved (ApplyPatchTool.mk []) ['f'] ['g'] [] oneFileTree t' := by
  have hok : wentThrough (moveOf 'g' []) = true := by decide +kernel
  obtain ⟨r, t', hrun⟩ : ∃ r t', moveOf 'g' [] = (r, t') := ⟨_, _, rfl⟩
  rw [wentThrough, hrun] at hok
  cases r with
  | error e => cases hok
  | ok s => exact ⟨t', (moved_iff_ne (ApplyPatchTool.mk []) hrun).mpr (by decide +kernel)⟩

/-- Moved to another spelling of its own path, the file is gone. -/
theorem moved_onto_itself : ¬ ∀ s t', moveOf '.' ['/', 'f'] = (.ok s, t') →
    Moved (ApplyPatchTool.mk []) ['f'] ['.', '/', 'f'] [] oneFileTree t' := by
  intro h
  have hok : wentThrough (moveOf '.' ['/', 'f']) = true := by decide +kernel
  have hgone : (moveOf '.' ['/', 'f']).2.files [['f']] = none := by decide +kernel
  obtain ⟨r, t', hrun⟩ : ∃ r t', moveOf '.' ['/', 'f'] = (r, t') := ⟨_, _, rfl⟩
  rw [wentThrough, hrun] at hok
  rw [hrun] at hgone
  cases r with
  | error e => cases hok
  | ok s =>
    obtain ⟨bytes, -, hfile⟩ := (h s t' hrun).destination
    have hsame : (ApplyPatchTool.mk []).target oneFileTree.cwd ['.', '/', 'f'] = [['f']] := by
      decide +kernel
    rw [hsame] at hfile
    exact absurd (hgone.symm.trans hfile) nofun

end Demo

end Patch
end DotRunner
