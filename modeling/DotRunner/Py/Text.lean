import Mathlib.Data.List.Basic
import Mathlib.Data.Rat.Defs

/-!
# Text

The string methods the engine calls, on lists of characters.  What depends on
the interpreter's tables (case mapping, character classes, the printing of
floats) is left to a `Runtime`, so that no result rests on one Unicode version.
-/

namespace Py

inductive PyFloat where
  | finite (q : ℚ)
  | inf (negative : Bool)
  /-- `shared`: the one object the JSON parser has for `NaN` -/
  | nan (shared : Bool)

/-- The tables of one Python interpreter. -/
class Runtime where
  /-- `str.lower` -/
  lower : String → String
  /-- `str.upper` -/
  upper : String → String
  /-- `str.isprintable`, one character at a time -/
  isPrintable : Char → Bool
  /-- the class `\w` of `re` -/
  isWord : Char → Bool
  /-- the value of a character of the class `\d` of `re` -/
  decimal : Char → Option Nat
  /-- `float(text)`, where it does not raise -/
  floatOfStr : String → Option PyFloat
  /-- `repr` of a finite float -/
  reprFloat : ℚ → String
  /-- `f"{x:.3f}"` -/
  fixed3 : ℚ → String
  /-- what `re.IGNORECASE` compares characters by -/
  foldChar : Char → Char
  /-- `hashlib.sha256(text.encode()).hexdigest()` -/
  sha256 : String → String

namespace Text

/-- `str.isspace`, which is also the class `\s` of `re`. -/
def isSpace (c : Char) : Bool :=
  let n := c.toNat
  (9 ≤ n && n ≤ 13) || (28 ≤ n && n ≤ 32) || n == 0x85 || n == 0xA0 || n == 0x1680 ||
    (0x2000 ≤ n && n ≤ 0x200A) || n == 0x2028 || n == 0x2029 || n == 0x202F ||
    n == 0x205F || n == 0x3000

def lstrip (l : List Char) : List Char := l.dropWhile isSpace

def rstrip (l : List Char) : List Char := (l.reverse.dropWhile isSpace).reverse

/-- `str.strip()` -/
def strip (l : List Char) : List Char := rstrip (lstrip l)

/-- The rest of `l` after `pat`, when `l` starts with it. -/
def dropPrefix? (pat : List Char) : List Char → Option (List Char)
  | l => match pat, l with
    | [], l => some l
    | _ :: _, [] => none
    | p :: ps, c :: cs => if p = c then dropPrefix? ps cs else none

theorem dropPrefix?_eq_some_iff {pat l r : List Char} : dropPrefix? pat l = some r ↔ l = pat ++ r := by
  induction pat generalizing l with
  | nil =>
    show some l = some r ↔ l = r
    exact Option.some_inj
  | cons p ps ih =>
    cases l with
    | nil => simp [dropPrefix?]
    | cons c cs =>
      rw [dropPrefix?, List.cons_append, List.cons.injEq]
      by_cases hpc : p = c
      · rw [if_pos hpc, ih]
        exact ⟨fun h => ⟨hpc.symm, h⟩, fun h => h.2⟩
      · rw [if_neg hpc]
        exact ⟨nofun, fun h => absurd h.1.symm hpc⟩

def startsWith (l pat : List Char) : Bool := (dropPrefix? pat l).isSome

/-- `l.split(pat, maxsplit=1)`, when `pat` occurs: before and after its first
occurrence. -/
def splitOnce (pat : List Char) : List Char → Option (List Char × List Char)
  | [] => (dropPrefix? pat []).map fun rest => ([], rest)
  | c :: cs => match dropPrefix? pat (c :: cs) with
    | some rest => some ([], rest)
    | none => (splitOnce pat cs).map fun p => (c :: p.1, p.2)

theorem append_of_splitOnce {pat l before after : List Char}
    (h : splitOnce pat l = some (before, after)) : l = before ++ pat ++ after := by
  induction l generalizing before with
  | nil =>
    obtain ⟨rest, hdrop, heq⟩ := Option.map_eq_some_iff.mp h
    cases heq
    exact dropPrefix?_eq_some_iff.mp hdrop
  | cons c cs ih =>
    rw [splitOnce] at h
    split at h
    · rename_i rest hdrop
      cases h
      exact dropPrefix?_eq_some_iff.mp hdrop
    · obtain ⟨p, hp, heq⟩ := Option.map_eq_some_iff.mp h
      cases heq
      rw [ih hp]
      rfl

/-- `l.split(pat)`, with at most `fuel` cuts; a text has fewer occurrences of a
non-empty pattern than characters, so `l.length` cuts are enough. -/
def splitFuel (pat : List Char) : Nat → List Char → List (List Char)
  | 0, l => [l]
  | fuel + 1, l => match splitOnce pat l with
    | none => [l]
    | some (before, after) => before :: splitFuel pat fuel after

def split (pat l : List Char) : List (List Char) := splitFuel pat l.length l

def isDecimal [Runtime] (c : Char) : Bool := (Runtime.decimal c).isSome

def digitsVal [Runtime] (l : List Char) : Nat :=
  l.foldl (fun n c => 10 * n + (Runtime.decimal c).getD 0) 0

/-- Decimal digits, single underscores allowed between them. -/
def parseDigits [Runtime] (l : List Char) : Option Nat :=
  let groups := split ['_'] l
  if groups.all fun g => !g.isEmpty && g.all isDecimal then some (digitsVal groups.flatten)
  else none

/-- The decimal integer `int(text)` reads. -/
def parseInt [Runtime] (l : List Char) : Option Int :=
  match strip l with
  | '-' :: rest => (parseDigits rest).map fun n => -(n : Int)
  | '+' :: rest => (parseDigits rest).map fun n => (n : Int)
  | rest => (parseDigits rest).map fun n => (n : Int)

/-- Does `pat` occur in `l`? -/
def occurs (pat l : List Char) : Bool := (splitOnce pat l).isSome

theorem occurs_iff_infix {pat l : List Char} : occurs pat l = true ↔ pat <:+: l := by
  constructor
  · intro h
    obtain ⟨⟨before, after⟩, hsplit⟩ := Option.isSome_iff_exists.mp h
    exact ⟨before, after, (append_of_splitOnce hsplit).symm⟩
  · rintro ⟨before, after, rfl⟩
    rw [occurs]
    induction before with
    | nil =>
      have hdrop : dropPrefix? pat (pat ++ after) = some after := dropPrefix?_eq_some_iff.mpr rfl
      rw [List.nil_append]
      cases hl : pat ++ after with
      | nil =>
        rw [hl] at hdrop
        simp [splitOnce, hdrop]
      | cons c cs =>
        rw [hl] at hdrop
        simp [splitOnce, hdrop]
    | cons c before ih =>
      rw [List.cons_append, List.cons_append, splitOnce]
      split
      · rfl
      · simpa using ih

/-- A pattern without the separator lies on one side of it. -/
theorem infix_append_cons_iff {pat a b : List Char} {sep : Char} (h : sep ∉ pat) :
    pat <:+: a ++ sep :: b ↔ pat <:+: a ∨ pat <:+: b := by
  constructor
  · rintro ⟨before, after, heq⟩
    rw [List.append_assoc] at heq
    obtain ⟨mid, hbefore, hrest⟩ | ⟨mid, ha, hrest⟩ := List.append_eq_append_iff.mp heq
    · -- the pattern begins in front of the separator
      obtain ⟨mid', hmid, hafter⟩ | ⟨mid', hmid, hafter⟩ := List.append_eq_append_iff.mp hrest
      · left
        exact ⟨before, mid', by rw [hbefore, hmid, List.append_assoc]⟩
      · cases mid' with
        | nil =>
          left
          exact ⟨before, [], by rw [hbefore, hmid]; simp⟩
        | cons c mid' =>
          have hc : c = sep := (List.cons.inj hafter).1.symm
          exact absurd (by rw [hmid, hc]; simp) h
    · cases mid with
      | nil =>
        cases hpat : pat with
        | nil =>
          left
          exact List.nil_infix
        | cons c pat' =>
          rw [hpat] at hrest
          have hc : sep = c := (List.cons.inj hrest).1
          exact absurd (by rw [hpat, hc]; simp) h
      | cons c mid =>
        right
        have hb : b = mid ++ (pat ++ after) := (List.cons.inj hrest).2
        exact ⟨mid, after, by rw [hb, List.append_assoc]⟩
  · rintro (⟨before, after, rfl⟩ | ⟨before, after, rfl⟩)
    · exact ⟨before, after ++ sep :: b, by simp⟩
    · exact ⟨a ++ sep :: before, after, by simp⟩

/-- The maximal runs of characters that satisfy `p`. -/
def runs (p : Char → Bool) (l : List Char) : List (List Char) :=
  (l.splitOnP fun c => !p c).filter fun r => !r.isEmpty

/-- Does `p` hold of some suffix of `l`? -/
def anySuffix (p : List Char → Bool) : List Char → Bool
  | [] => p []
  | c :: cs => p (c :: cs) || anySuffix p cs

/-- `sep.join(parts)` -/
def join (sep : String) : List String → String
  | [] => ""
  | [s] => s
  | s :: rest => s ++ sep ++ join sep rest

/-- The text of an integer has digits and a sign only. -/
theorem digits_of_int (i : Int) : ∀ c ∈ (toString i).toList, c.isDigit = true ∨ c = '-' := by
  have hnat : ∀ n : Nat, ∀ c ∈ (Nat.repr n).toList, c.isDigit = true := by
    intro n c hc
    rw [Nat.repr, String.toList_ofList] at hc
    exact Nat.isDigit_of_mem_toDigits (by decide) (by decide) hc
  intro c hc
  cases i with
  | ofNat n => exact .inl (hnat n c hc)
  | negSucc n =>
    have hsplit : c ∈ ("-" ++ Nat.repr (n + 1)).toList := hc
    rw [String.toList_append, List.mem_append] at hsplit
    rcases hsplit with hsign | hdigits
    · exact .inr (List.mem_singleton.mp hsign)
    · exact .inl (hnat _ c hdigits)

end Text

/-- `s.strip()` -/
def stripText (s : String) : String := String.ofList (Text.strip s.toList)

/-- `s.strip().lower()` -/
def stripLower [Runtime] (s : String) : String := Runtime.lower (stripText s)

/-- A Python truth test on an optional string: `None` and `""` fail it. -/
def truthyStr : Option String → Bool
  | some s => s != ""
  | none => false

/-- `a or b` on optional strings. -/
def orStr (a : Option String) (b : Option String) : Option String :=
  if truthyStr a then a else b

end Py
