import DotRunner.Py.Text

/-!
# Truncated tool output

`truncate_chars` and `truncate_lines`: what they keep of an output, and the number of
characters or lines they say they left out.
-/

namespace DotRunner
namespace Truncation

open Py

/-! ## Cuts -/

section Cuts

variable {α : Type}

/-- `l[-n:]`; for `n = 0` this is all of it. -/
def fromEnd (n : Nat) (l : List α) : List α := if n = 0 then l else l.drop (l.length - n)

theorem fromEnd_suffix (n : Nat) (l : List α) : fromEnd n l <:+ l := by
  unfold fromEnd
  split
  · exact List.suffix_refl l
  · exact List.drop_suffix _ l

theorem length_fromEnd {n : Nat} (hn : 0 < n) {l : List α} (h : n ≤ l.length) :
    (fromEnd n l).length = n := by
  rw [fromEnd, if_neg (by omega), List.length_drop]
  omega

/-- What is kept, in front of a marker and behind it, and the number stated in the marker. -/
structure Cut (α : Type) where
  head : List α
  removed : Nat
  tail : List α

/-- What is kept is a prefix and a suffix of no more than `limit`, and the rest is counted. -/
structure Cut.Accounts (c : Cut α) (whole : List α) (limit : Nat) : Prop where
  head_prefix : c.head <+: whole
  tail_suffix : c.tail <:+ whole
  within : c.head.length + c.tail.length ≤ limit
  counted : c.head.length + c.removed + c.tail.length = whole.length

/-- The first `front` and the last `back`. -/
def cut (front removed back : Nat) (l : List α) : Cut α := ⟨l.take front, removed, fromEnd back l⟩

theorem cut_accounts_iff {front removed back limit : Nat} {l : List α} (hlong : limit < l.length)
    (hkept : front + back ≤ limit) :
    (cut front removed back l).Accounts l limit ↔ 0 < back ∧ front + removed + back = l.length := by
  have hfront : (l.take front).length = front := by
    rw [List.length_take]
    omega
  constructor
  · intro h
    have hwithin := h.within
    have hcounted := h.counted
    simp only [cut, hfront] at hwithin hcounted
    by_cases hback : back = 0
    · rw [hback, fromEnd, if_pos rfl] at hwithin
      omega
    · rw [length_fromEnd (by omega) (by omega)] at hcounted
      omega
  · intro ⟨hback, hsum⟩
    have hlen : (fromEnd back l).length = back := length_fromEnd hback (by omega)
    exact ⟨List.take_prefix _ _, fromEnd_suffix _ _, by simp only [cut, hfront, hlen]; omega,
      by simp only [cut, hfront, hlen]; omega⟩

end Cuts

/-! ## Characters -/

/-- What `truncate_chars` keeps of an output beyond the limit. -/
def charCut (output : List Char) (maxChars : Nat) (mode : String) : Cut Char :=
  let removed := output.length - maxChars
  if mode = "head_tail" then cut (maxChars / 2) removed (maxChars / 2) output
  else cut 0 removed maxChars output

def charMarker (mode : String) (removed : Nat) : String :=
  if mode = "head_tail" then
    "\n\n[WARNING: Tool output was truncated. " ++ toString removed ++
      " characters were removed from the middle. The full output is available in the event stream. " ++
      "If you need to see specific parts, re-run the tool with more targeted parameters.]\n\n"
  else
    "[WARNING: Tool output was truncated. First " ++ toString removed ++
      " characters were removed. The full output is available in the event stream.]\n\n"

def truncateChars (output : List Char) (maxChars : Nat) (mode : String) : List Char :=
  if output.length ≤ maxChars then output
  else
    let c := charCut output maxChars mode
    c.head ++ (charMarker mode c.removed).toList ++ c.tail

/-! ## Lines -/

def linesOf (output : List Char) : List (List Char) := Text.split ['\n'] output

def unlines (lines : List (List Char)) : List Char := List.intercalate ['\n'] lines

/-- What `truncate_lines` keeps of an output beyond the limit. -/
def lineCut (output : List Char) (maxLines : Nat) : Cut (List Char) :=
  let lines := linesOf output
  let headCount := maxLines / 2
  let tailCount := maxLines - headCount
  cut headCount (lines.length - headCount - tailCount) tailCount lines

def lineMarker (omitted : Nat) : String := "\n[... " ++ toString omitted ++ " lines omitted ...]\n"

def truncateLines (output : List Char) (maxLines : Nat) : List Char :=
  if (linesOf output).length ≤ maxLines then output
  else
    let c := lineCut output maxLines
    unlines c.head ++ (lineMarker c.removed).toList ++ unlines c.tail

/-! ## The accounts -/

/-- An output within the limit stays; of another, what is kept and the number stated are right. -/
structure CharsAccounted (output : List Char) (maxChars : Nat) (mode : String) : Prop where
  unchanged : output.length ≤ maxChars → truncateChars output maxChars mode = output
  accounts : maxChars < output.length → (charCut output maxChars mode).Accounts output maxChars

structure LinesAccounted (output : List Char) (maxLines : Nat) : Prop where
  unchanged : (linesOf output).length ≤ maxLines → truncateLines output maxLines = output
  accounts : maxLines < (linesOf output).length →
    (lineCut output maxLines).Accounts (linesOf output) maxLines

/-- Half the limit at each end makes the limit, and no end is empty. -/
def CharLimitFits (output : List Char) (maxChars : Nat) (mode : String) : Prop :=
  output.length ≤ maxChars ∨ (0 < maxChars ∧ (mode = "head_tail" → maxChars % 2 = 0))

theorem charsAccounted_iff (output : List Char) (maxChars : Nat) (mode : String) :
    CharsAccounted output maxChars mode ↔ CharLimitFits output maxChars mode := by
  by_cases hshort : output.length ≤ maxChars
  · exact ⟨fun _ => .inl hshort, fun _ => ⟨fun _ => if_pos hshort, fun hlong => by omega⟩⟩
  · have hlong : maxChars < output.length := by omega
    have hcut : (charCut output maxChars mode).Accounts output maxChars ↔
        0 < maxChars ∧ (mode = "head_tail" → maxChars % 2 = 0) := by
      by_cases hmode : mode = "head_tail"
      · simp only [charCut, if_pos hmode]
        rw [cut_accounts_iff hlong (by omega)]
        simp only [hmode, forall_const]
        omega
      · simp only [charCut, if_neg hmode]
        rw [cut_accounts_iff hlong (by omega)]
        simp only [hmode, false_implies, and_true]
        omega
    constructor
    · exact fun h => .inr (hcut.mp (h.accounts hlong))
    · intro h
      exact ⟨fun hle => absurd hle hshort, fun _ => hcut.mpr (h.resolve_left hshort)⟩

theorem splitFuel_ne_nil (pat : List Char) (fuel : Nat) (l : List Char) :
    Text.splitFuel pat fuel l ≠ [] := by
  cases fuel with
  | zero => simp [Text.splitFuel]
  | succ fuel =>
    rw [Text.splitFuel]
    split <;> simp

theorem linesOf_ne_nil (output : List Char) : linesOf output ≠ [] :=
  splitFuel_ne_nil ['\n'] output.length output

theorem linesAccounted_iff (output : List Char) (maxLines : Nat) :
    LinesAccounted output maxLines ↔ 0 < maxLines := by
  have hpos := List.length_pos_of_ne_nil (linesOf_ne_nil output)
  constructor
  · intro h
    by_contra hzero
    have haccounts := h.accounts (by omega)
    rw [lineCut, cut_accounts_iff (by omega) (by omega)] at haccounts
    omega
  · intro hlimit
    refine ⟨fun hshort => if_pos hshort, fun hlong => ?_⟩
    rw [lineCut, cut_accounts_iff hlong (by omega)]
    omega

/-- What is kept and what is counted agree where no half of the limit is lost and no end is
empty. -/
theorem accounted_iff (output : List Char) (maxChars maxLines : Nat) (mode : String) :
    (CharsAccounted output maxChars mode ∧ LinesAccounted output maxLines) ↔
      (CharLimitFits output maxChars mode ∧ 0 < maxLines) :=
  and_congr (charsAccounted_iff output maxChars mode) (linesAccounted_iff output maxLines)

/-- One character is to be kept of two: both stay, and one is said to be removed. -/
theorem nothing_removed :
    truncateChars ['a', 'b'] 1 "head_tail" = (charMarker "head_tail" 1).toList ++ ['a', 'b'] ∧
      ¬CharsAccounted ['a', 'b'] 1 "head_tail" := by
  constructor
  · rw [truncateChars, if_neg (by decide)]
    simp [charCut, cut, fromEnd]
  · intro h
    exact absurd (h.accounts (by decide)).within (by decide)

end Truncation
end DotRunner
