import Mathlib.Data.List.Induction

/-!
# Paths as texts

`posixpath`, on lists of characters, and the names a path leads through.
-/

namespace Py

namespace PosixPath

abbrev Part := List Char

instance : LawfulBEq (List Part) := inferInstance

def here : Part := ['.']

def above : Part := ['.', '.']

/-- `path.split("/")` -/
def segments (l : List Char) : List Part := l.splitOn '/'

def isName (part : Part) : Bool := part != [] && part != here

/-- The segments that lead anywhere. -/
def names (l : List Char) : List Part := (segments l).filter isName

/-- `posixpath.join(a, b)` -/
def join (a b : List Char) : List Char :=
  if b.head? = some '/' ∨ a = [] then b
  else if a.getLast? = some '/' then a ++ b
  else a ++ '/' :: b

/-- Up to the last slash, with it. -/
def upToSlash (l : List Char) : List Char := (l.reverse.dropWhile (· != '/')).reverse

def rstripSlashes (l : List Char) : List Char := (l.reverse.dropWhile (· == '/')).reverse

/-- `posixpath.dirname` -/
def dirname (l : List Char) : List Char :=
  let head := upToSlash l
  if head.all (· == '/') then head else rstripSlashes head

/-- One component of `normpath`; the stack holds the last one first. -/
def push (absolute : Bool) (stack : List Part) (part : Part) : List Part :=
  if part = [] ∨ part = here then stack
  else if part ≠ above ∨ (absolute = false ∧ stack = []) ∨ stack.head? = some above then
    part :: stack
  else stack.tail

/-- The names that are left of a path. -/
def normNames (l : List Char) : List Part :=
  ((segments l).foldl (push (l.head? == some '/')) []).reverse

/-- How many slashes `posixpath.normpath` leaves in front. -/
def leadingSlashes : List Char → List Char
  | '/' :: '/' :: '/' :: _ => ['/']
  | '/' :: '/' :: _ => ['/', '/']
  | '/' :: _ => ['/']
  | _ => []

/-- `posixpath.normpath` -/
def normpath (l : List Char) : List Char :=
  let text := leadingSlashes l ++ ['/'].intercalate (normNames l)
  if text = [] then here else text

/-- How many names two paths begin with in common. -/
def commonLength : List Part → List Part → Nat
  | a :: as, b :: bs => if a = b then commonLength as bs + 1 else 0
  | _, _ => 0

/-- `posixpath.relpath(path, start)`, from the working directory `cwd`. -/
def relpath (cwd path start : List Char) : List Char :=
  let target := normNames (join cwd path)
  let source := normNames (join cwd start)
  let common := commonLength source target
  let parts := List.replicate (source.length - common) above ++ target.drop common
  if parts = [] then here else ['/'].intercalate parts

example : relpath "/tmp".toList "o/r/main/x.dot".toList "o/r/v1/a".toList =
    "../../main/x.dot".toList := by decide +kernel

/-! ## Segments -/

theorem slash_not_mem_segments {l : List Char} {part : Part} (h : part ∈ segments l) :
    '/' ∉ part := by
  induction l generalizing part with
  | nil =>
    rw [segments, List.splitOn_nil, List.mem_singleton] at h
    rw [h]
    exact List.not_mem_nil
  | cons c l ih =>
    rw [segments, List.splitOn_cons_eq_if_modifyHead] at h
    obtain ⟨first, rest, hsplit⟩ := List.exists_cons_of_ne_nil (List.splitOn_ne_nil '/' l)
    have hparts : ∀ part ∈ first :: rest, '/' ∉ part := by
      intro part hpart
      apply ih
      rw [segments, hsplit]
      exact hpart
    rw [hsplit] at h
    split at h
    · rcases List.mem_cons.mp h with rfl | h
      · exact List.not_mem_nil
      · exact hparts part h
    · rename_i hc
      rcases List.mem_cons.mp h with rfl | h
      · have hne : '/' ≠ c := fun heq => hc (beq_iff_eq.mpr heq.symm)
        exact List.not_mem_cons_of_ne_of_not_mem hne (hparts first List.mem_cons_self)
      · exact hparts part (List.mem_cons_of_mem _ h)

theorem segments_of_not_mem {l : List Char} (h : '/' ∉ l) : segments l = [l] :=
  List.splitOn_eq_singleton h

theorem segments_slash (a b : List Char) : segments (a ++ '/' :: b) = segments a ++ segments b :=
  List.splitOn_append_cons_self a b

theorem segments_append {suffix : List Char} (hsuffix : '/' ∉ suffix) (l : List Char) :
    ∃ init last, segments l = init ++ [last] ∧
      segments (l ++ suffix) = init ++ [last ++ suffix] := by
  induction l with
  | nil => exact ⟨[], [], rfl, segments_of_not_mem hsuffix⟩
  | cons c l ih =>
    obtain ⟨init, last, hl, happend⟩ := ih
    unfold segments at hl happend ⊢
    rw [List.cons_append, List.splitOn_cons_eq_if_modifyHead, List.splitOn_cons_eq_if_modifyHead,
      hl, happend]
    by_cases hc : (c == '/') = true
    · rw [if_pos hc, if_pos hc]
      exact ⟨[] :: init, last, rfl, rfl⟩
    · rw [if_neg hc, if_neg hc]
      cases init with
      | nil => exact ⟨[], c :: last, rfl, rfl⟩
      | cons first init => exact ⟨(c :: first) :: init, last, rfl, rfl⟩

/-! ## Names -/

theorem names_slash (a b : List Char) : names (a ++ '/' :: b) = names a ++ names b := by
  rw [names, segments_slash, List.filter_append]
  rfl

/-- Joining leads on by the names of the second path. -/
theorem names_join {a b : List Char} (hb : b.head? ≠ some '/') :
    names (join a b) = names a ++ names b := by
  rw [join]
  by_cases ha : a = []
  · rw [if_pos (.inr ha), ha]
    rfl
  · rw [if_neg fun h => h.elim hb ha]
    split
    · rename_i hslash
      obtain ⟨init, rfl⟩ := List.getLast?_eq_some_iff.mp hslash
      have hinit : names (init ++ ['/']) = names init := by
        rw [names_slash]
        exact List.append_nil _
      rw [hinit, List.append_assoc]
      exact names_slash init b
    · exact names_slash a b

theorem names_of_name {part : Part} (h : isName part = true) (hslash : '/' ∉ part) :
    names part = [part] := by
  rw [names, segments_of_not_mem hslash, List.filter_cons_of_pos h, List.filter_nil]

end PosixPath

end Py
