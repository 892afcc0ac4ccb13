import DotRunner.Py.Json

/-!
# Reading JSON

`json.loads`.  What it reads of a text it reads of every longer one, so that no
proper part of an object's text is a text of its own: the last brace is the last
character.
-/

namespace Py
namespace Json

/-! ## The scanner -/

def isBlank (c : Char) : Bool := c = ' ' || c = '\t' || c = '\n' || c = '\r'

def skipBlank (l : List Char) : List Char := l.dropWhile isBlank

def hexDigit? (c : Char) : Option Nat :=
  if c.isDigit then some (c.toNat - 48)
  else if 'a' ≤ c ∧ c ≤ 'f' then some (c.toNat - 87)
  else if 'A' ≤ c ∧ c ≤ 'F' then some (c.toNat - 55)
  else none

def scanHex4 : List Char → Option (Nat × List Char)
  | a :: b :: c :: d :: r => do
    let a ← hexDigit? a
    let b ← hexDigit? b
    let c ← hexDigit? c
    let d ← hexDigit? d
    return (a * 4096 + b * 256 + c * 16 + d, r)
  | _ => none

def isHigh (n : Nat) : Bool := 0xd800 ≤ n && n < 0xdc00

def isLow (n : Nat) : Bool := 0xdc00 ≤ n && n < 0xe000

/-- The escapes of one character, and `/`, which the encoder leaves alone. -/
def unescapes : List (Char × Char) := ('/', '/') :: shortEscapes.map Prod.swap

/-- The character an escape stands for, after the backslash.  A text here holds no
surrogate that is not one of a pair. -/
def scanEscape : List Char → Option (Char × List Char)
  | [] => none
  | 'u' :: r => do
    let (n, r) ← scanHex4 r
    if isHigh n then do
      let r ← Text.dropPrefix? ['\\', 'u'] r
      let (m, r) ← scanHex4 r
      if isLow m then return (Char.ofNat (0x10000 + (n - 0xd800) * 0x400 + (m - 0xdc00)), r)
      else none
    else if isLow n then none
    else return (Char.ofNat n, r)
  | c :: r => (unescapes.lookup c).map fun e => (e, r)

/-- The rest of a quoted text and what follows it; a control character has to be
escaped. -/
def scanString : Nat → List Char → Option (List Char × List Char)
  | 0, _ => none
  | _ + 1, [] => none
  | f + 1, c :: r =>
    if c = '"' then some ([], r)
    else if c = '\\' then do
      let (c, r) ← scanEscape r
      let (s, r) ← scanString f r
      return (c :: s, r)
    else if c.toNat < 0x20 then none
    else do
      let (s, r) ← scanString f r
      return (c :: s, r)

/-- A character of a number. -/
def inNumber (c : Char) : Bool :=
  c.isDigit || c = '-' || c = '+' || c = '.' || c = 'e' || c = 'E'

def isExponent : List Char → Bool
  | [] => true
  | c :: r =>
    let digits := match r with
      | '+' :: r => r
      | '-' :: r => r
      | r => r
    (c = 'e' || c = 'E') && !digits.isEmpty && digits.all Char.isDigit

/-- What makes a number a float: a fraction, an exponent, or both. -/
def isFloatPart : List Char → Bool
  | '.' :: r => !(r.takeWhile Char.isDigit).isEmpty && isExponent (r.dropWhile Char.isDigit)
  | l => isExponent l

section Numbers

variable [Runtime]

/-- `(0|[1-9][0-9]*)(\.[0-9]+)?([eE][-+]?[0-9]+)?`, after a minus sign where the
number is negative -/
def parseUnsigned (negative : Bool) (l : List Char) : Option Value :=
  let digits := l.takeWhile Char.isDigit
  let rest := l.dropWhile Char.isDigit
  if digits = [] ∨ (digits.head? = some '0' ∧ digits ≠ ['0']) then none
  else if rest = [] then
    let n : Int := Nat.ofDigitChars 10 digits 0
    some (.int (if negative then -n else n))
  else if isFloatPart rest then
    (Runtime.floatOfStr (String.ofList (if negative then '-' :: l else l))).map .float
  else none

def parseNumber : List Char → Option Value
  | '-' :: r => parseUnsigned true r
  | l => parseUnsigned false l

/-- A number, as far as its characters go: no value is followed by one of them. -/
def scanNumber (l : List Char) : Option (Value × List Char) :=
  (parseNumber (l.takeWhile inNumber)).map fun v => (v, l.dropWhile inNumber)

omit [Runtime] in
def scanWord (word : String) (v : Value) (l : List Char) : Option (Value × List Char) :=
  (Text.dropPrefix? word.toList l).map fun r => (v, r)

mutual

/-- One value and what follows it. -/
def scanOnce : Nat → List Char → Option (Value × List Char)
  | 0, _ => none
  | _ + 1, [] => none
  | f + 1, c :: r =>
    if c = '"' then (scanString f r).map fun p => (.str (String.ofList p.1), p.2)
    else if c = '[' then
      if (skipBlank r).head? = some ']' then some (.list [], (skipBlank r).tail)
      else (scanItems f (skipBlank r)).map fun p => (.list p.1, p.2)
    else if c = '\x7b' then
      if (skipBlank r).head? = some '\x7d' then some (.dict [], (skipBlank r).tail)
      else (scanPairs f (skipBlank r)).map fun p => (.dict (Dict.ofList p.1).entries, p.2)
    else if c = 'n' then scanWord "null" .none (c :: r)
    else if c = 't' then scanWord "true" (.bool true) (c :: r)
    else if c = 'f' then scanWord "false" (.bool false) (c :: r)
    else if c = 'N' then scanWord "NaN" (.float (.nan true)) (c :: r)
    else if c = 'I' then scanWord "Infinity" (.float (.inf false)) (c :: r)
    else if c = '-' ∧ r.head? = some 'I' then scanWord "-Infinity" (.float (.inf true)) (c :: r)
    else scanNumber (c :: r)

/-- The items of an array, to its bracket. -/
def scanItems : Nat → List Char → Option (List Value × List Char)
  | 0, _ => none
  | f + 1, l => do
    let (v, r) ← scanOnce f l
    if (skipBlank r).head? = some ']' then return ([v], (skipBlank r).tail)
    else if (skipBlank r).head? = some ',' then do
      let (vs, r) ← scanItems f (skipBlank (skipBlank r).tail)
      return (v :: vs, r)
    else none

/-- The members of an object, to its brace. -/
def scanPairs : Nat → List Char → Option (List (String × Value) × List Char)
  | 0, _ => none
  | f + 1, l => do
    let r ← Text.dropPrefix? ['"'] l
    let (k, r) ← scanString f r
    let r ← Text.dropPrefix? [':'] (skipBlank r)
    let (v, r) ← scanOnce f (skipBlank r)
    if (skipBlank r).head? = some '\x7d' then return ([(String.ofList k, v)], (skipBlank r).tail)
    else if (skipBlank r).head? = some ',' then do
      let (kvs, r) ← scanPairs f (skipBlank (skipBlank r).tail)
      return ((String.ofList k, v) :: kvs, r)
    else none

end

/-- `json.loads`, where it does not raise. -/
def loads (l : List Char) : Option Value := do
  let (v, r) ← scanOnce (2 * l.length + 1) (skipBlank l)
  if skipBlank r = [] then return v else none

/-- The text of a UTF-8 file. -/
def fileText (bytes : List UInt8) : Option (List Char) :=
  (String.fromUTF8? ⟨bytes.toArray⟩).map String.toList

omit [Runtime] in
/-- The bytes of a file with this text. -/
def fileBytes (l : List Char) : List UInt8 := (String.ofList l).toByteArray.data.toList

omit [Runtime] in
theorem fileText_fileBytes (l : List Char) : fileText (fileBytes l) = some l := by
  have hvalid : (String.ofList l).toByteArray.IsValidUTF8 := (String.ofList l).isValidUTF8
  show (String.fromUTF8? (String.ofList l).toByteArray).map String.toList = some l
  rw [String.fromUTF8?, dif_pos hvalid]
  show some (String.ofList l).toList = some l
  rw [String.toList_ofList]

/-- `json.loads` on the text of a file; `message` is the decoder's own. -/
@[reducible] def fileReader (message : List Char → String) : JsonReader where
  loads bytes := match fileText bytes with
    | none => .raised (.valueError "'utf-8' codec can't decode bytes")
    | some l => match loads l with
      | some v => .value v
      | none => .decodeError (message l)

theorem fileReader_loads (message : List Char → String) {l : List Char} {v : Value}
    (h : loads l = some v) : (fileReader message).loads (fileBytes l) = .value v := by
  have hread : (fileReader message).loads (fileBytes l) = match fileText (fileBytes l) with
    | none => .raised (.valueError "'utf-8' codec can't decode bytes")
    | some l => match loads l with
      | some v => .value v
      | none => .decodeError (message l) := rfl
  rw [hread, fileText_fileBytes]
  dsimp only
  rw [h]

end Numbers

/-! ## Reading a longer text

What was read of a text is read of every longer one, unless a number ended with
it. -/

section Longer

variable {l r : List Char} (t : List Char)

theorem dropPrefix?_append {pat : List Char} (h : Text.dropPrefix? pat l = some r) :
    Text.dropPrefix? pat (l ++ t) = some (r ++ t) := by
  rw [Text.dropPrefix?_eq_some_iff] at h ⊢
  rw [h, List.append_assoc]

theorem skipBlank_append (h : skipBlank l ≠ []) : skipBlank (l ++ t) = skipBlank l ++ t := by
  unfold skipBlank at h ⊢
  rw [List.dropWhile_append, if_neg (by simpa using h)]

theorem scanHex4_append {n : Nat} (h : scanHex4 l = some (n, r)) :
    scanHex4 (l ++ t) = some (n, r ++ t) := by
  rw [scanHex4.eq_def] at h
  split at h
  · simp only [bind, pure, Option.bind_eq_some_iff, Option.some_inj, Prod.mk.injEq] at h
    obtain ⟨na, ha, nb, hb, nc, hc, nd, hd, rfl, rfl⟩ := h
    simp only [List.cons_append, scanHex4, ha, hb, hc, hd, bind, pure, Option.bind_some]
  · cases h

omit t in
theorem scanEscape_of_ne {c : Char} (h : c ≠ 'u') (l : List Char) :
    scanEscape (c :: l) = (unescapes.lookup c).map fun e => (e, l) := by
  rw [scanEscape.eq_def]
  split
  · rename_i heq
    cases heq
  · rename_i heq
    cases heq
    exact absurd rfl h
  · rename_i heq
    cases heq
    rfl

theorem scanEscape_append {c : Char} (h : scanEscape l = some (c, r)) :
    scanEscape (l ++ t) = some (c, r ++ t) := by
  match l, h with
  | c' :: l, h =>
    by_cases hu : c' = 'u'
    · subst hu
      simp only [scanEscape, bind, pure, Option.bind_eq_some_iff, Prod.exists] at h
      obtain ⟨n, l₁, hhex, h⟩ := h
      simp only [List.cons_append, scanEscape, scanHex4_append t hhex, bind, pure, Option.bind_some]
      by_cases hhigh : isHigh n = true
      · rw [if_pos hhigh] at h ⊢
        simp only [Option.bind_eq_some_iff, Prod.exists] at h
        obtain ⟨l₂, hdrop, m, l₃, hhex', h⟩ := h
        simp only [dropPrefix?_append t hdrop, scanHex4_append t hhex', Option.bind_some]
        by_cases hlow : isLow m = true
        · rw [if_pos hlow] at h ⊢
          obtain ⟨rfl, rfl⟩ := Prod.mk.inj (Option.some.inj h)
          rfl
        · rw [if_neg hlow] at h
          cases h
      · rw [if_neg hhigh] at h ⊢
        by_cases hlow : isLow n = true
        · rw [if_pos hlow] at h
          cases h
        · rw [if_neg hlow] at h ⊢
          obtain ⟨rfl, rfl⟩ := Prod.mk.inj (Option.some.inj h)
          rfl
    · rw [List.cons_append, scanEscape_of_ne hu]
      rw [scanEscape_of_ne hu] at h
      obtain ⟨e, he, heq⟩ := Option.map_eq_some_iff.mp h
      cases heq
      rw [he]
      rfl

theorem scanString_append {f f' : Nat} (hf : f ≤ f') {s : List Char}
    (h : scanString f l = some (s, r)) : scanString f' (l ++ t) = some (s, r ++ t) := by
  induction f generalizing f' l s with
  | zero => cases h
  | succ f ih =>
    obtain ⟨g, rfl⟩ : ∃ g, f' = g + 1 := ⟨f' - 1, by omega⟩
    have hg : f ≤ g := by omega
    cases l with
    | nil => cases h
    | cons c l =>
      rw [List.cons_append]
      rw [scanString] at h ⊢
      by_cases hquote : c = '"'
      · rw [if_pos hquote] at h ⊢
        cases h
        rfl
      · rw [if_neg hquote] at h ⊢
        by_cases hslash : c = '\\'
        · rw [if_pos hslash] at h ⊢
          simp only [bind, pure, Option.bind_eq_some_iff, Option.some_inj, Prod.exists,
            Prod.mk.injEq] at h ⊢
          obtain ⟨e, l₁, he, s', l₂, hs, rfl, rfl⟩ := h
          exact ⟨e, _, scanEscape_append t he, s', _, ih hg hs, rfl, rfl⟩
        · rw [if_neg hslash] at h ⊢
          by_cases hcontrol : c.toNat < 0x20
          · rw [if_pos hcontrol] at h
            cases h
          · rw [if_neg hcontrol] at h ⊢
            simp only [bind, pure, Option.bind_eq_some_iff, Option.some_inj, Prod.exists,
              Prod.mk.injEq] at h ⊢
            obtain ⟨s', l₂, hs, rfl, rfl⟩ := h
            exact ⟨s', _, ih hg hs, rfl, rfl⟩

theorem scanWord_append {word : String} {v w : Value} (h : scanWord word v l = some (w, r)) :
    scanWord word v (l ++ t) = some (w, r ++ t) := by
  obtain ⟨r', hdrop, heq⟩ := Option.map_eq_some_iff.mp h
  cases heq
  rw [scanWord, dropPrefix?_append t hdrop]
  rfl

variable [Runtime]

/-- A number ends where its characters end. -/
theorem scanNumber_append {v : Value} (h : scanNumber l = some (v, r)) (hr : r ≠ []) :
    scanNumber (l ++ t) = some (v, r ++ t) := by
  obtain ⟨w, hparse, heq⟩ := Option.map_eq_some_iff.mp h
  cases heq
  have hshort : ¬ (l.takeWhile inNumber).length = l.length := by
    intro hlen
    have hsplit := congrArg List.length (List.takeWhile_append_dropWhile (p := inNumber) (l := l))
    rw [List.length_append, hlen] at hsplit
    exact hr (List.length_eq_zero_iff.mp (by omega))
  unfold scanNumber
  rw [List.takeWhile_append, if_neg hshort, List.dropWhile_append, hparse,
    if_neg (by simpa using hr)]
  rfl

/-- Whatever the scanners read with the bound `f`, they read with `f'` where `t`
follows.  Only a value at the very end, which may be a number, is in doubt. -/
structure Extends (f f' : Nat) : Prop where
  once : ∀ {l r v}, scanOnce f l = some (v, r) → (r ≠ [] ∨ l.head? = some '\x7b') →
    scanOnce f' (l ++ t) = some (v, r ++ t)
  items : ∀ {l r vs}, scanItems f l = some (vs, r) → scanItems f' (l ++ t) = some (vs, r ++ t)
  pairs : ∀ {l r kvs}, scanPairs f l = some (kvs, r) → scanPairs f' (l ++ t) = some (kvs, r ++ t)

variable {t : List Char}

omit [Runtime] in
/-- The character after the blanks is there whatever follows. -/
theorem skipBlank_head {c : Char} (h : (skipBlank l).head? = some c) :
    (skipBlank (l ++ t)).head? = some c ∧ (skipBlank (l ++ t)).tail = (skipBlank l).tail ++ t := by
  have hne : skipBlank l ≠ [] := by
    intro hnil
    rw [hnil] at h
    cases h
  rw [skipBlank_append t hne]
  cases hl : skipBlank l with
  | nil => exact absurd hl hne
  | cons c' l' =>
    rw [hl] at h
    exact ⟨h, rfl⟩

theorem scanItems_nil (f : Nat) : scanItems f [] = none := by
  match f with
  | 0 => rfl
  | 1 => rfl
  | f + 2 => rfl

theorem scanPairs_nil (f : Nat) : scanPairs f [] = none := by
  match f with
  | 0 => rfl
  | f + 1 => simp [scanPairs, Text.dropPrefix?]

theorem ne_nil_of_scanItems {f : Nat} {vs : List Value} (h : scanItems f l = some (vs, r)) :
    l ≠ [] := by
  intro hnil
  rw [hnil, scanItems_nil] at h
  cases h

theorem ne_nil_of_scanPairs {f : Nat} {kvs : List (String × Value)}
    (h : scanPairs f l = some (kvs, r)) : l ≠ [] := by
  intro hnil
  rw [hnil, scanPairs_nil] at h
  cases h

theorem Extends.succ_items {f f' : Nat} (h : Extends t f f') {vs : List Value}
    (hl : scanItems (f + 1) l = some (vs, r)) : scanItems (f' + 1) (l ++ t) = some (vs, r ++ t) := by
  rw [scanItems] at hl ⊢
  simp only [bind, pure, Option.bind_eq_some_iff, Prod.exists] at hl ⊢
  obtain ⟨v, r₁, honce, hl⟩ := hl
  have hne : r₁ ≠ [] := by
    intro hnil
    subst hnil
    cases hl
  refine ⟨v, r₁ ++ t, h.once honce (.inl hne), ?_⟩
  by_cases hclose : (skipBlank r₁).head? = some ']'
  · rw [if_pos hclose] at hl
    cases hl
    rw [if_pos (skipBlank_head hclose).1, (skipBlank_head hclose).2]
  · by_cases hcomma : (skipBlank r₁).head? = some ','
    · rw [if_neg hclose, if_pos hcomma] at hl
      simp only [Option.bind_eq_some_iff, Prod.exists] at hl
      obtain ⟨vs', r₂, hitems, hl⟩ := hl
      cases hl
      have hitems' := h.items hitems
      rw [← skipBlank_append t (ne_nil_of_scanItems hitems), ← (skipBlank_head hcomma).2] at hitems'
      rw [if_neg (by rw [(skipBlank_head hcomma).1]; decide), if_pos (skipBlank_head hcomma).1, hitems']
      rfl
    · rw [if_neg hclose, if_neg hcomma] at hl
      cases hl

theorem Extends.succ_pairs {f f' : Nat} (hf : f ≤ f') (h : Extends t f f')
    {kvs : List (String × Value)} (hl : scanPairs (f + 1) l = some (kvs, r)) :
    scanPairs (f' + 1) (l ++ t) = some (kvs, r ++ t) := by
  rw [scanPairs] at hl ⊢
  simp only [bind, pure, Option.bind_eq_some_iff, Prod.exists] at hl ⊢
  obtain ⟨l₁, hquote, k, l₂, hkey, l₃, hcolon, v, l₄, honce, hl⟩ := hl
  have hne₂ : skipBlank l₂ ≠ [] := by
    intro hnil
    rw [hnil] at hcolon
    cases (Text.dropPrefix?_eq_some_iff.mp hcolon)
  have hne₃ : skipBlank l₃ ≠ [] := by
    intro hnil
    rw [hnil] at honce
    cases f <;> cases honce
  have hne₄ : l₄ ≠ [] := by
    intro hnil
    subst hnil
    cases hl
  refine ⟨l₁ ++ t, dropPrefix?_append t hquote, k, l₂ ++ t, scanString_append t hf hkey, l₃ ++ t, ?_,
    v, l₄ ++ t, ?_, ?_⟩
  · rw [skipBlank_append t hne₂]
    exact dropPrefix?_append t hcolon
  · rw [skipBlank_append t hne₃]
    exact h.once honce (.inl hne₄)
  · by_cases hclose : (skipBlank l₄).head? = some '\x7d'
    · rw [if_pos hclose] at hl
      cases hl
      rw [if_pos (skipBlank_head hclose).1, (skipBlank_head hclose).2]
    · by_cases hcomma : (skipBlank l₄).head? = some ','
      · rw [if_neg hclose, if_pos hcomma] at hl
        simp only [Option.bind_eq_some_iff, Prod.exists] at hl
        obtain ⟨kvs', l₅, hpairs, hl⟩ := hl
        cases hl
        have hpairs' := h.pairs hpairs
        rw [← skipBlank_append t (ne_nil_of_scanPairs hpairs), ← (skipBlank_head hcomma).2] at hpairs'
        rw [if_neg (by rw [(skipBlank_head hcomma).1]; decide), if_pos (skipBlank_head hcomma).1,
          hpairs']
        rfl
      · rw [if_neg hclose, if_neg hcomma] at hl
        cases hl

theorem Extends.array {f f' : Nat} (h : Extends t f f') {v : Value}
    (hl : (if (skipBlank l).head? = some ']' then some (.list [], (skipBlank l).tail)
      else (scanItems f (skipBlank l)).map fun p => (.list p.1, p.2)) = some (v, r)) :
    (if (skipBlank (l ++ t)).head? = some ']' then some (.list [], (skipBlank (l ++ t)).tail)
      else (scanItems f' (skipBlank (l ++ t))).map fun p => (.list p.1, p.2)) =
        some (v, r ++ t) := by
  by_cases hclose : (skipBlank l).head? = some ']'
  · rw [if_pos hclose] at hl
    cases hl
    rw [if_pos (skipBlank_head hclose).1, (skipBlank_head hclose).2]
  · rw [if_neg hclose] at hl
    obtain ⟨⟨vs, l₁⟩, hitems, heq⟩ := Option.map_eq_some_iff.mp hl
    cases heq
    rw [skipBlank_append t (ne_nil_of_scanItems hitems),
      List.head?_append_of_ne_nil _ (ne_nil_of_scanItems hitems), if_neg hclose, h.items hitems]
    rfl

theorem Extends.object {f f' : Nat} (h : Extends t f f') {v : Value}
    (hl : (if (skipBlank l).head? = some '\x7d' then some (.dict [], (skipBlank l).tail)
      else (scanPairs f (skipBlank l)).map fun p => (.dict (Dict.ofList p.1).entries, p.2)) =
        some (v, r)) :
    (if (skipBlank (l ++ t)).head? = some '\x7d' then some (.dict [], (skipBlank (l ++ t)).tail)
      else (scanPairs f' (skipBlank (l ++ t))).map fun p =>
        (.dict (Dict.ofList p.1).entries, p.2)) = some (v, r ++ t) := by
  by_cases hclose : (skipBlank l).head? = some '\x7d'
  · rw [if_pos hclose] at hl
    cases hl
    rw [if_pos (skipBlank_head hclose).1, (skipBlank_head hclose).2]
  · rw [if_neg hclose] at hl
    obtain ⟨⟨kvs, l₁⟩, hpairs, heq⟩ := Option.map_eq_some_iff.mp hl
    cases heq
    rw [skipBlank_append t (ne_nil_of_scanPairs hpairs),
      List.head?_append_of_ne_nil _ (ne_nil_of_scanPairs hpairs), if_neg hclose, h.pairs hpairs]
    rfl

theorem scanNumber_minus : scanNumber ['-'] = none := by
  rw [scanNumber, show ['-'].takeWhile inNumber = ['-'] from by decide]
  rfl

theorem Extends.succ_once {f f' : Nat} (hf : f ≤ f') (h : Extends t f f') {v : Value}
    (hl : scanOnce (f + 1) l = some (v, r)) (hr : r ≠ [] ∨ l.head? = some '\x7b') :
    scanOnce (f' + 1) (l ++ t) = some (v, r ++ t) := by
  cases l with
  | nil => cases hl
  | cons c l =>
    rw [List.cons_append]
    rw [scanOnce] at hl ⊢
    by_cases hquote : c = '"'
    · rw [if_pos hquote] at hl ⊢
      obtain ⟨⟨s, l₁⟩, hs, heq⟩ := Option.map_eq_some_iff.mp hl
      cases heq
      rw [scanString_append t hf hs]
      rfl
    rw [if_neg hquote] at hl ⊢
    by_cases harray : c = '['
    · rw [if_pos harray] at hl ⊢
      exact h.array hl
    rw [if_neg harray] at hl ⊢
    by_cases hobject : c = '\x7b'
    · rw [if_pos hobject] at hl ⊢
      exact h.object hl
    have hne : r ≠ [] := hr.resolve_right fun hhead => hobject (Option.some.inj hhead)
    rw [if_neg hobject] at hl ⊢
    by_cases hn : c = 'n'
    · rw [if_pos hn] at hl ⊢
      exact scanWord_append t hl
    rw [if_neg hn] at hl ⊢
    by_cases ht : c = 't'
    · rw [if_pos ht] at hl ⊢
      exact scanWord_append t hl
    rw [if_neg ht] at hl ⊢
    by_cases hfalse : c = 'f'
    · rw [if_pos hfalse] at hl ⊢
      exact scanWord_append t hl
    rw [if_neg hfalse] at hl ⊢
    by_cases hnan : c = 'N'
    · rw [if_pos hnan] at hl ⊢
      exact scanWord_append t hl
    rw [if_neg hnan] at hl ⊢
    by_cases hinf : c = 'I'
    · rw [if_pos hinf] at hl ⊢
      exact scanWord_append t hl
    rw [if_neg hinf] at hl ⊢
    by_cases hminus : c = '-' ∧ l.head? = some 'I'
    · rw [if_pos hminus] at hl
      rw [if_pos ⟨hminus.1, by rw [List.head?_append, hminus.2]; rfl⟩]
      exact scanWord_append t hl
    · rw [if_neg hminus] at hl
      -- a lone minus sign is no number, so what follows it is there already
      have hlonger : ¬ (c = '-' ∧ (l ++ t).head? = some 'I') := by
        intro hboth
        have hnil : l ≠ [] := by
          intro hnil
          rw [hnil, hboth.1, scanNumber_minus] at hl
          cases hl
        rw [List.head?_append_of_ne_nil _ hnil] at hboth
        exact hminus hboth
      rw [if_neg hlonger]
      exact scanNumber_append t hl hne

/-- A larger bound and a longer text lose nothing. -/
theorem extends_of_le (t : List Char) (f : Nat) : ∀ f', f ≤ f' → Extends t f f' := by
  induction f with
  | zero =>
    intro f' _
    exact ⟨nofun, nofun, nofun⟩
  | succ f ih =>
    intro f' hf
    obtain ⟨g, rfl⟩ : ∃ g, f' = g + 1 := ⟨f' - 1, by omega⟩
    have hle : f ≤ g := by omega
    have h := ih g hle
    exact ⟨h.succ_once hle, h.succ_items, h.succ_pairs hle⟩

end Longer

end Json
end Py
