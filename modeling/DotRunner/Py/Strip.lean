import DotRunner.Py.Text

/-!
# What stripping leaves

A stripped text is a part of the text, has no blank at either end and is left as
it is by another round.
-/

namespace Py
namespace Text

theorem lstrip_suffix (l : List Char) : lstrip l <:+ l := List.dropWhile_suffix _

theorem rstrip_isPrefix (l : List Char) : rstrip l <+: l := by
  rw [rstrip, ← List.reverse_suffix, List.reverse_reverse]
  exact List.dropWhile_suffix _

theorem strip_isInfix (l : List Char) : strip l <:+: l :=
  (rstrip_isPrefix (lstrip l)).isInfix.trans (lstrip_suffix l).isInfix

theorem mem_of_mem_strip {c : Char} {l : List Char} (h : c ∈ strip l) : c ∈ l :=
  (strip_isInfix l).subset h

/-- No blank stands at the beginning. -/
def StartsBare (l : List Char) : Prop := ∀ c, l.head? = some c → isSpace c = false

/-- No blank stands at the end. -/
def EndsBare (l : List Char) : Prop := ∀ c, l.getLast? = some c → isSpace c = false

theorem startsBare_dropWhile (l : List Char) : StartsBare (l.dropWhile isSpace) := by
  intro c hc
  have hnot := List.head?_dropWhile_not isSpace l
  rw [hc] at hnot
  simpa using hnot

theorem dropWhile_of_startsBare {l : List Char} (h : StartsBare l) : l.dropWhile isSpace = l := by
  cases l with
  | nil => rfl
  | cons c l => simp [h c rfl]

theorem lstrip_of_startsBare {l : List Char} (h : StartsBare l) : lstrip l = l :=
  dropWhile_of_startsBare h

theorem rstrip_of_endsBare {l : List Char} (h : EndsBare l) : rstrip l = l := by
  have hreverse : StartsBare l.reverse := by
    intro c hc
    rw [List.head?_reverse] at hc
    exact h c hc
  rw [rstrip, dropWhile_of_startsBare hreverse, List.reverse_reverse]

theorem strip_of_bare {l : List Char} (hs : StartsBare l) (he : EndsBare l) : strip l = l := by
  rw [strip, lstrip_of_startsBare hs, rstrip_of_endsBare he]

theorem strip_of_all_bare {l : List Char} (h : ∀ c ∈ l, isSpace c = false) :
    strip l = l :=
  strip_of_bare (fun c hc => h c (List.mem_of_head? hc))
    fun c hc => h c (List.mem_of_getLast? hc)

theorem endsBare_rstrip (l : List Char) : EndsBare (rstrip l) := by
  intro c hc
  rw [rstrip, List.getLast?_reverse] at hc
  exact startsBare_dropWhile l.reverse c hc

theorem startsBare_rstrip {l : List Char} (h : StartsBare l) : StartsBare (rstrip l) := by
  intro c hc
  apply h
  obtain ⟨r, hr⟩ := rstrip_isPrefix l
  rw [← hr, List.head?_append, hc]
  rfl

theorem startsBare_strip (l : List Char) : StartsBare (strip l) :=
  startsBare_rstrip (startsBare_dropWhile l)

theorem endsBare_strip (l : List Char) : EndsBare (strip l) := endsBare_rstrip (lstrip l)

theorem strip_strip (l : List Char) : strip (strip l) = strip l :=
  strip_of_bare (startsBare_strip l) (endsBare_strip l)

/-- What is left of a text that begins with no blank is a part it begins with. -/
theorem strip_prefix {l : List Char} (h : StartsBare l) : strip l <+: l := by
  rw [strip, lstrip_of_startsBare h]
  exact rstrip_isPrefix l

theorem strip_cons_space {c : Char} (h : isSpace c = true) (l : List Char) :
    strip (c :: l) = strip l := by
  rw [strip, lstrip, List.dropWhile_cons_of_pos h]
  rfl

end Text
end Py
