import Mathlib.Data.List.Basic

/-!
# `re.finditer`

The matches of a pattern in a text, for a pattern given by what it matches at the
head of a list of characters.  Between two matches lies a gap that nothing
matches in.
-/

namespace Py

universe u

/-- A pattern without empty matches: the kind of the match, its text and the
rest. -/
structure Pattern (κ : Type u) where
  run : List Char → Option (κ × List Char × List Char)
  splits : ∀ {l k t r}, run l = some (k, t, r) → l = t ++ r ∧ t ≠ []

/-- A match, with the gap before it. -/
structure Match (κ : Type u) where
  gap : List Char
  kind : κ
  text : List Char

namespace Pattern

variable {κ : Type u} (p : Pattern κ)

/-- The matches in `l`, at most `fuel` steps far, and the gap behind the last. -/
def scan : Nat → List Char → List Char → List (Match κ) × List Char
  | 0, gap, l => ([], gap ++ l)
  | fuel + 1, gap, l => match p.run l, l with
    | some (k, t, r), _ =>
      let found := scan fuel [] r
      (⟨gap, k, t⟩ :: found.1, found.2)
    | none, [] => ([], gap)
    | none, c :: r => scan fuel (gap ++ [c]) r

/-- Every step consumes a character. -/
def finditer (l : List Char) : List (Match κ) × List Char := p.scan l.length [] l

/-- `Scans p gap l ms tail`: behind the gap `gap`, the matches in `l` are `ms`, and
`tail` is what follows the last. -/
inductive Scans : List Char → List Char → List (Match κ) → List Char → Prop
  | done (gap : List Char) : Scans gap [] [] gap
  | skip {gap r tail : List Char} {c : Char} {ms : List (Match κ)} (h : p.run (c :: r) = none)
      (rest : Scans (gap ++ [c]) r ms tail) : Scans gap (c :: r) ms tail
  | found {gap l t r tail : List Char} {k : κ} {ms : List (Match κ)} (h : p.run l = some (k, t, r))
      (rest : Scans [] r ms tail) : Scans gap l (⟨gap, k, t⟩ :: ms) tail

variable {p}

theorem run_nil : p.run [] = none := by
  cases h : p.run [] with
  | none => rfl
  | some m =>
    obtain ⟨k, t, r⟩ := m
    obtain ⟨heq, hne⟩ := p.splits h
    exact absurd (List.append_eq_nil_iff.mp heq.symm).1 hne

theorem length_lt_of_run {l t r : List Char} {k : κ} (h : p.run l = some (k, t, r)) :
    r.length < l.length := by
  obtain ⟨rfl, hne⟩ := p.splits h
  have hpos : 0 < t.length := List.length_pos_of_ne_nil hne
  rw [List.length_append]
  omega

theorem scan_scans (fuel : Nat) (gap l : List Char) (h : l.length ≤ fuel) :
    p.Scans gap l (p.scan fuel gap l).1 (p.scan fuel gap l).2 := by
  induction fuel generalizing gap l with
  | zero =>
    obtain rfl : l = [] := List.length_eq_zero_iff.mp (by omega)
    rw [scan, List.append_nil]
    exact .done gap
  | succ fuel ih =>
    cases hr : p.run l with
    | some m =>
      obtain ⟨k, t, r⟩ := m
      have hlt := length_lt_of_run hr
      simp only [scan, hr]
      exact .found hr (ih [] r (by omega))
    | none =>
      cases l with
      | nil =>
        simp only [scan, hr]
        exact .done gap
      | cons c r =>
        simp only [scan, hr]
        exact .skip hr (ih _ r (by simpa using h))

theorem Scans.unique {gap l tail tail' : List Char} {ms ms' : List (Match κ)}
    (h : p.Scans gap l ms tail) (h' : p.Scans gap l ms' tail') : ms' = ms ∧ tail' = tail := by
  induction h generalizing ms' tail' with
  | done gap =>
    cases h' with
    | done => exact ⟨rfl, rfl⟩
    | found hr _ =>
      rw [run_nil] at hr
      cases hr
  | skip hr _ ih =>
    cases h' with
    | skip _ rest => exact ih rest
    | found hr' _ =>
      rw [hr] at hr'
      cases hr'
  | found hr _ ih =>
    cases h' with
    | done =>
      rw [run_nil] at hr
      cases hr
    | skip hr' _ =>
      rw [hr] at hr'
      cases hr'
    | found hr' rest =>
      rw [hr] at hr'
      cases hr'
      obtain ⟨rfl, rfl⟩ := ih rest
      exact ⟨rfl, rfl⟩

/-- The matches `finditer` yields are those of the relation. -/
theorem finditer_eq_iff {l tail : List Char} {ms : List (Match κ)} :
    p.finditer l = (ms, tail) ↔ p.Scans [] l ms tail := by
  have hscan := scan_scans (p := p) l.length [] l (Nat.le_refl _)
  constructor
  · intro h
    have heq : p.scan l.length [] l = (ms, tail) := h
    rw [heq] at hscan
    exact hscan
  · intro h
    obtain ⟨hms, htail⟩ := h.unique hscan
    exact Prod.ext hms htail

/-- Gaps, matches and the tail make up the text. -/
theorem Scans.text {gap l tail : List Char} {ms : List (Match κ)} (h : p.Scans gap l ms tail) :
    gap ++ l = (ms.flatMap fun m => m.gap ++ m.text) ++ tail := by
  induction h with
  | done gap => simp
  | @skip gap r tail c ms hr _ ih =>
    rw [← ih]
    simp
  | @found gap l t r tail k ms hr _ ih =>
    obtain ⟨rfl, -⟩ := p.splits hr
    rw [List.flatMap_cons, List.append_assoc, List.append_assoc, ← ih]
    simp

/-- Every match is one of the pattern, somewhere in the text. -/
theorem run_of_mem {gap l tail : List Char} {ms : List (Match κ)}
    (h : p.Scans gap l ms tail) {m : Match κ} (hm : m ∈ ms) :
    ∃ l' rest, p.run l' = some (m.kind, m.text, rest) := by
  induction h with
  | done gap => exact absurd hm List.not_mem_nil
  | skip _ _ ih => exact ih hm
  | found hrun _ ih =>
    rcases List.mem_cons.mp hm with rfl | hm
    · exact ⟨_, _, hrun⟩
    · exact ih hm

end Pattern

end Py
