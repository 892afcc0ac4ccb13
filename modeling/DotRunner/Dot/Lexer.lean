import DotRunner.Py.Finditer
import DotRunner.Py.Value

/-!
# The tokenizer

`_TOKEN_RE` and `_tokenize`.  Each alternative of the pattern is a function that
reads a text off the head of a list of characters.
-/

namespace DotRunner
namespace Dot

open Py

def isIdentStart (c : Char) : Bool := c.isAlpha || c == '_'

def isIdentChar (c : Char) : Bool := c.isAlphanum || c == '_'

/-- The rest of a quoted string, its closing quote included. -/
def scanQuoted : List Char → Option (List Char × List Char)
  | [] => none
  | c :: r =>
    if c = '"' then some (['"'], r)
    else if c = '\\' then match r with
      | [] => none
      | d :: r' => if d = '\n' then none
        else (scanQuoted r').map fun p => ('\\' :: d :: p.1, p.2)
    else (scanQuoted r).map fun p => (c :: p.1, p.2)

def scanString : List Char → Option (List Char × List Char)
  | '"' :: r => (scanQuoted r).map fun p => ('"' :: p.1, p.2)
  | _ => none

def scanArrow : List Char → Option (List Char × List Char)
  | '-' :: '>' :: r => some (['-', '>'], r)
  | _ => none

def isPunct (c : Char) : Bool := ['\x7b', '\x7d', '[', ']', '=', ',', ';'].contains c

def scanPunct : List Char → Option (List Char × List Char)
  | c :: r => if isPunct c then some ([c], r) else none
  | [] => none

/-- The qualifiers of an identifier, each behind a dot. -/
def scanQualifiers : Nat → List Char → List Char × List Char
  | 0, l => ([], l)
  | fuel + 1, l => match l with
    | '.' :: c :: r =>
      if isIdentStart c then
        let more := scanQualifiers fuel (r.dropWhile isIdentChar)
        ('.' :: c :: r.takeWhile isIdentChar ++ more.1, more.2)
      else ([], l)
    | _ => ([], l)

def scanIdent : List Char → Option (List Char × List Char)
  | [] => none
  | c :: r =>
    if isIdentStart c then
      let more := scanQualifiers r.length (r.dropWhile isIdentChar)
      some (c :: r.takeWhile isIdentChar ++ more.1, more.2)
    else none

/-- Digits with an optional fraction, or a fraction alone. -/
def scanUnsigned (l : List Char) : Option (List Char × List Char) :=
  let digits := l.takeWhile Char.isDigit
  let r := l.dropWhile Char.isDigit
  if digits.isEmpty then match l with
    | '.' :: r' => if (r'.takeWhile Char.isDigit).isEmpty then none
      else some ('.' :: r'.takeWhile Char.isDigit, r'.dropWhile Char.isDigit)
    | _ => none
  else match r with
    | '.' :: r' => some (digits ++ '.' :: r'.takeWhile Char.isDigit, r'.dropWhile Char.isDigit)
    | _ => some (digits, r)

def scanNumber : List Char → Option (List Char × List Char)
  | '-' :: r => (scanUnsigned r).map fun p => ('-' :: p.1, p.2)
  | l => scanUnsigned l

def scanSpace (l : List Char) : Option (List Char × List Char) :=
  if (l.takeWhile Text.isSpace).isEmpty then none
  else some (l.takeWhile Text.isSpace, l.dropWhile Text.isSpace)

/-- The groups of the pattern. -/
inductive Kind where
  | string
  | arrow
  | punct
  | ident
  | number
  | ws
deriving DecidableEq

def tagged (k : Kind) (m : Option (List Char × List Char)) : Option (Kind × List Char × List Char) :=
  m.map fun p => (k, p.1, p.2)

/-- The alternatives in their order. -/
def scanToken (l : List Char) : Option (Kind × List Char × List Char) :=
  (tagged .string (scanString l)).or <| (tagged .arrow (scanArrow l)).or <|
    (tagged .punct (scanPunct l)).or <| (tagged .ident (scanIdent l)).or <|
    (tagged .number (scanNumber l)).or (tagged .ws (scanSpace l))

/-! ## What an alternative reads -/

/-- `m` is a non-empty text off the head of `l`. -/
def Reads (l : List Char) (m : Option (List Char × List Char)) : Prop :=
  ∀ t r, m = some (t, r) → l = t ++ r ∧ t ≠ []

theorem scanQuoted_reads (l : List Char) : Reads l (scanQuoted l) := by
  fun_induction scanQuoted l with
  | case1 => exact fun _ _ h => nomatch h
  | case2 r =>
    intro t r' h
    cases h
    exact ⟨rfl, List.cons_ne_nil _ _⟩
  | case3 _ => exact fun _ _ h => nomatch h
  | case4 _ => exact fun _ _ h => nomatch h
  | case5 hc d r' hd ih =>
    intro t r h
    obtain ⟨p, hp, heq⟩ := Option.map_eq_some_iff.mp h
    obtain ⟨hsplit, -⟩ := ih p.1 p.2 hp
    cases heq
    exact ⟨by rw [hsplit]; rfl, List.cons_ne_nil _ _⟩
  | case6 c r hc hb ih =>
    intro t r' h
    obtain ⟨p, hp, heq⟩ := Option.map_eq_some_iff.mp h
    obtain ⟨hsplit, -⟩ := ih p.1 p.2 hp
    cases heq
    exact ⟨by rw [hsplit]; rfl, List.cons_ne_nil _ _⟩

theorem scanString_reads (l : List Char) : Reads l (scanString l) := by
  intro t r h
  unfold scanString at h
  split at h
  · rename_i r'
    obtain ⟨p, hp, heq⟩ := Option.map_eq_some_iff.mp h
    obtain ⟨hsplit, -⟩ := scanQuoted_reads r' p.1 p.2 hp
    cases heq
    exact ⟨by rw [hsplit]; rfl, List.cons_ne_nil _ _⟩
  · cases h

theorem scanArrow_reads (l : List Char) : Reads l (scanArrow l) := by
  intro t r h
  unfold scanArrow at h
  split at h
  · cases h
    exact ⟨rfl, List.cons_ne_nil _ _⟩
  · cases h

theorem scanPunct_reads (l : List Char) : Reads l (scanPunct l) := by
  intro t r h
  unfold scanPunct at h
  split at h
  · split at h
    · cases h
      exact ⟨rfl, List.cons_ne_nil _ _⟩
    · cases h
  · cases h

theorem scanQualifiers_append (fuel : Nat) (l : List Char) :
    (scanQualifiers fuel l).1 ++ (scanQualifiers fuel l).2 = l := by
  induction fuel generalizing l with
  | zero => rfl
  | succ fuel ih =>
    unfold scanQualifiers
    split
    · rename_i c r
      split
      · have hrest := ih (r.dropWhile isIdentChar)
        simp only [List.cons_append, List.append_assoc, hrest, List.takeWhile_append_dropWhile]
      · rfl
    · rfl

theorem scanIdent_reads (l : List Char) : Reads l (scanIdent l) := by
  intro t r h
  unfold scanIdent at h
  split at h
  · cases h
  · rename_i c r'
    split at h
    · cases h
      refine ⟨?_, List.cons_ne_nil _ _⟩
      simp only [List.cons_append, List.append_assoc, scanQualifiers_append,
        List.takeWhile_append_dropWhile]
    · cases h

theorem scanUnsigned_reads (l : List Char) : Reads l (scanUnsigned l) := by
  intro t r h
  have hsplit := List.takeWhile_append_dropWhile (p := Char.isDigit) (l := l)
  unfold scanUnsigned at h
  simp only at h
  split at h
  · split at h
    · rename_i r'
      split at h
      · cases h
      · cases h
        exact ⟨by rw [List.cons_append, List.takeWhile_append_dropWhile], List.cons_ne_nil _ _⟩
    · cases h
  · rename_i hdigits
    have hne : l.takeWhile Char.isDigit ≠ [] := by
      intro hnil
      rw [hnil] at hdigits
      exact hdigits rfl
    split at h
    · rename_i r' hr
      cases h
      refine ⟨?_, by simp⟩
      rw [List.append_assoc, List.cons_append, List.takeWhile_append_dropWhile, ← hr, hsplit]
    · cases h
      exact ⟨hsplit.symm, hne⟩

theorem scanNumber_reads (l : List Char) : Reads l (scanNumber l) := by
  intro t r h
  unfold scanNumber at h
  split at h
  · rename_i r'
    obtain ⟨p, hp, heq⟩ := Option.map_eq_some_iff.mp h
    obtain ⟨hsplit, -⟩ := scanUnsigned_reads r' p.1 p.2 hp
    cases heq
    exact ⟨by rw [hsplit]; rfl, List.cons_ne_nil _ _⟩
  · exact scanUnsigned_reads l t r h

theorem scanSpace_reads (l : List Char) : Reads l (scanSpace l) := by
  intro t r h
  unfold scanSpace at h
  split at h
  · cases h
  · rename_i hne
    cases h
    refine ⟨(List.takeWhile_append_dropWhile).symm, fun hnil => ?_⟩
    rw [hnil] at hne
    exact hne rfl

theorem tagged_eq_some {k k' : Kind} {m : Option (List Char × List Char)} {t r : List Char} :
    tagged k m = some (k', t, r) ↔ m = some (t, r) ∧ k' = k := by
  constructor
  · intro h
    obtain ⟨p, hp, heq⟩ := Option.map_eq_some_iff.mp h
    cases heq
    exact ⟨hp, rfl⟩
  · rintro ⟨rfl, rfl⟩
    rfl

/-- Which alternative made the match. -/
theorem scanToken_cases {l t r : List Char} {k : Kind} (h : scanToken l = some (k, t, r)) :
    (scanString l = some (t, r) ∧ k = .string) ∨ (scanArrow l = some (t, r) ∧ k = .arrow) ∨
    (scanPunct l = some (t, r) ∧ k = .punct) ∨ (scanIdent l = some (t, r) ∧ k = .ident) ∨
    (scanNumber l = some (t, r) ∧ k = .number) ∨ (scanSpace l = some (t, r) ∧ k = .ws) := by
  simp only [scanToken, Option.or_eq_some_iff, tagged_eq_some] at h
  tauto

/-- `_TOKEN_RE` -/
def tokenRe : Pattern Kind where
  run := scanToken
  splits := by
    intro l k t r h
    rcases scanToken_cases h with ⟨h, -⟩ | ⟨h, -⟩ | ⟨h, -⟩ | ⟨h, -⟩ | ⟨h, -⟩ | ⟨h, -⟩
    · exact scanString_reads l t r h
    · exact scanArrow_reads l t r h
    · exact scanPunct_reads l t r h
    · exact scanIdent_reads l t r h
    · exact scanNumber_reads l t r h
    · exact scanSpace_reads l t r h

/-! ## The loop over the matches -/

def backslashQuote (pos : Nat) : PyExc :=
  .valueError ("DOT parse error near position " ++ toString pos ++ ": backslash-quote ('\\\"') " ++
    "cannot be used as an attribute delimiter. Attribute values must use plain double-quotes. " ++
    "Write  condition=\"key=value\"  not  condition=\\\"key=value\\\". Backslash-escapes are only " ++
    "valid INSIDE a quoted string (e.g. tool_command=\"echo \\\"hello\\\"\").")

/-- The first backslash of a gap, where a quote follows it. -/
def strayQuote (gap text : List Char) : Option Nat :=
  match gap.dropWhile (· != '\\') with
  | [] => none
  | _ :: after =>
    if (after ++ text).head? = some '"' then some (gap.takeWhile (· != '\\')).length else none

/-- The tokens of the matches; `pos` is the end of the match before. -/
def tokensOf : Nat → List (Match Kind) → Except PyExc (List String)
  | _, [] => .ok []
  | pos, m :: ms => match strayQuote m.gap m.text with
    | some i => .error (backslashQuote (pos + i))
    | none => do
      let tokens ← tokensOf (pos + m.gap.length + m.text.length) ms
      return if m.kind = .ws then tokens else String.ofList m.text :: tokens

/-- `_tokenize` -/
def tokenize (body : List Char) : Except PyExc (List String) := tokensOf 0 (tokenRe.finditer body).1

end Dot
end DotRunner
