import Mathlib.Data.List.TakeWhile
import DotRunner.Py.JsonScan

/-!
# What is written is read

The scanner reads back every text the encoder writes, and of a proper part of an
object's text it makes nothing.
-/

namespace Py
namespace Json

/-! ## Quoted texts -/

theorem hexDigit?_digitChar : ∀ d < 16, hexDigit? (Nat.digitChar d) = some d := by
  decide

theorem scanHex4_hex4 {n : Nat} (h : n < 0x10000) (r : List Char) :
    scanHex4 (hex4 n ++ r) = some (n, r) := by
  have h₁ := hexDigit?_digitChar (n / 4096 % 16) (by omega)
  have h₂ := hexDigit?_digitChar (n / 256 % 16) (by omega)
  have h₃ := hexDigit?_digitChar (n / 16 % 16) (by omega)
  have h₄ := hexDigit?_digitChar (n % 16) (by omega)
  have hsum : n / 4096 % 16 * 4096 + n / 256 % 16 * 256 + n / 16 % 16 * 16 + n % 16 = n := by omega
  simp only [hex4, List.cons_append, List.nil_append, scanHex4, h₁, h₂, h₃, h₄, bind, pure,
    Option.bind_some, hsum]

/-- No character is a surrogate. -/
theorem isHigh_or_isLow (c : Char) : isHigh c.toNat = false ∧ isLow c.toNat = false := by
  have hvalid : c.toNat < 0xd800 ∨ 0xdfff < c.toNat ∧ c.toNat < 0x110000 := c.valid
  unfold isHigh isLow
  constructor
  · simp only [Bool.and_eq_false_iff, decide_eq_false_iff_not]
    omega
  · simp only [Bool.and_eq_false_iff, decide_eq_false_iff_not]
    omega

theorem scanString_slash {c : Char} {l r : List Char} (h : scanEscape l = some (c, r)) (f : Nat) :
    scanString (f + 1) ('\\' :: l) = (scanString f r).map fun p => (c :: p.1, p.2) := by
  rw [scanString, if_neg (by decide), if_pos rfl, h]
  show (scanString f r).bind _ = _
  cases scanString f r <;> rfl

theorem scanString_plain {c : Char} (hquote : c ≠ '"') (hslash : c ≠ '\\')
    (hcontrol : ¬ c.toNat < 0x20) (f : Nat) (r : List Char) :
    scanString (f + 1) (c :: r) = (scanString f r).map fun p => (c :: p.1, p.2) := by
  rw [scanString, if_neg hquote, if_neg hslash, if_neg hcontrol]
  show (scanString f r).bind _ = _
  cases scanString f r <;> rfl

/-- A short escape stands for the character it was chosen for. -/
theorem scanEscape_short {c e : Char} (h : shortEscapes.lookup c = some e) (r : List Char) :
    scanEscape (e :: r) = some (c, r) := by
  have hall : ∀ p ∈ shortEscapes, p.2 ≠ 'u' ∧ unescapes.lookup p.2 = some p.1 := by decide
  obtain ⟨hu, hback⟩ := hall (c, e) (by
    obtain ⟨l₁, l₂, heq, -⟩ := List.lookup_eq_some_iff.mp h
    rw [heq]
    simp)
  rw [scanEscape_of_ne hu, hback]
  rfl

theorem scanEscape_plane {c : Char} (h : c.toNat < 0x10000) (r : List Char) :
    scanEscape ('u' :: (hex4 c.toNat ++ r)) = some (c, r) := by
  rw [scanEscape, scanHex4_hex4 h]
  simp only [bind, pure, Option.bind_some, (isHigh_or_isLow c).1, (isHigh_or_isLow c).2,
    Bool.false_eq_true, if_false, Char.ofNat_toNat]

/-- Two surrogates stand for one character. -/
theorem scanEscape_surrogates {n m : Nat} (hn : n < 0x10000) (hm : m < 0x10000)
    (hhigh : isHigh n = true) (hlow : isLow m = true) (r : List Char) :
    scanEscape ('u' :: (hex4 n ++ (uEscape m ++ r))) =
      some (Char.ofNat (0x10000 + (n - 0xd800) * 0x400 + (m - 0xdc00)), r) := by
  have hdrop : Text.dropPrefix? ['\\', 'u'] (uEscape m ++ r) = some (hex4 m ++ r) :=
    Text.dropPrefix?_eq_some_iff.mpr rfl
  rw [scanEscape, scanHex4_hex4 hn]
  simp only [bind, pure, Option.bind_some, hhigh, if_true, hdrop]
  rw [scanHex4_hex4 hm]
  simp only [Option.bind_some, hlow, if_true]

/-- A character beyond the first plane is read from its two surrogates. -/
theorem scanEscape_pair {c : Char} (h : ¬ c.toNat < 0x10000) (r : List Char) :
    scanEscape ('u' :: (hex4 (0xd800 + (c.toNat - 0x10000) / 0x400) ++
      (uEscape (0xdc00 + (c.toNat - 0x10000) % 0x400) ++ r))) = some (c, r) := by
  have hvalid : c.toNat < 0xd800 ∨ 0xdfff < c.toNat ∧ c.toNat < 0x110000 := c.valid
  obtain ⟨n, hn⟩ : ∃ n, n = 0xd800 + (c.toNat - 0x10000) / 0x400 := ⟨_, rfl⟩
  obtain ⟨m, hm⟩ : ∃ m, m = 0xdc00 + (c.toNat - 0x10000) % 0x400 := ⟨_, rfl⟩
  have hhigh : isHigh n = true := by
    simp only [isHigh, Bool.and_eq_true, decide_eq_true_eq]
    omega
  have hlow : isLow m = true := by
    simp only [isLow, Bool.and_eq_true, decide_eq_true_eq]
    omega
  have hback : 0x10000 + (n - 0xd800) * 0x400 + (m - 0xdc00) = c.toNat := by omega
  rw [← hn, ← hm, scanEscape_surrogates (by omega) (by omega) hhigh hlow, hback, Char.ofNat_toNat]

/-- The scanner takes one character of the text at a time. -/
theorem scanString_escapeChar (f : Nat) (c : Char) (r : List Char) :
    scanString (f + 1) (escapeChar c ++ r) = (scanString f r).map fun p => (c :: p.1, p.2) := by
  unfold escapeChar
  cases hlookup : shortEscapes.lookup c with
  | some e => exact scanString_slash (scanEscape_short hlookup r) f
  | none =>
    dsimp only
    by_cases hplain : 0x20 ≤ c.toNat ∧ c.toNat ≤ 0x7e
    · rw [if_pos hplain]
      have hquote : c ≠ '"' := fun h => absurd hlookup (by rw [h]; decide)
      have hslash : c ≠ '\\' := fun h => absurd hlookup (by rw [h]; decide)
      exact scanString_plain hquote hslash (by omega) f r
    rw [if_neg hplain]
    by_cases hplane : c.toNat < 0x10000
    · rw [if_pos hplane]
      exact scanString_slash (scanEscape_plane hplane r) f
    · rw [if_neg hplane, List.append_assoc]
      exact scanString_slash (scanEscape_pair hplane r) f

theorem escapeChar_ne_nil (c : Char) : escapeChar c ≠ [] := by
  unfold escapeChar
  split
  · nofun
  · split
    · nofun
    · split <;> nofun

/-- A quoted text is read to its closing quote. -/
theorem scanString_quoted (cs r : List Char) (f : Nat) (hf : (cs.flatMap escapeChar).length < f) :
    scanString f (cs.flatMap escapeChar ++ '"' :: r) = some (cs, r) := by
  induction cs generalizing f with
  | nil =>
    obtain ⟨g, rfl⟩ : ∃ g, f = g + 1 := ⟨f - 1, by rw [List.flatMap_nil] at hf; simp at hf; omega⟩
    rw [List.flatMap_nil, List.nil_append, scanString, if_pos rfl]
  | cons c cs ih =>
    have hpos := List.length_pos_of_ne_nil (escapeChar_ne_nil c)
    rw [List.flatMap_cons, List.length_append] at hf
    obtain ⟨g, rfl⟩ : ∃ g, f = g + 1 := ⟨f - 1, by omega⟩
    rw [List.flatMap_cons, List.append_assoc, scanString_escapeChar, ih g (by omega)]
    rfl

/-! ## Numbers -/

/-- No number goes on with the text. -/
def Delimited (r : List Char) : Prop := ∀ c, r.head? = some c → inNumber c = false

theorem delimited_cons {c : Char} (h : inNumber c = false) (r : List Char) : Delimited (c :: r) := by
  intro c' heq
  cases heq
  exact h

/-- A numeral starts with a zero only where it is a zero. -/
theorem head_toDigits {n : Nat} (hn : n ≠ 0) : (Nat.toDigits 10 n).head? ≠ some '0' := by
  induction n using Nat.strongRecOn with
  | ind n ih =>
    by_cases hlt : n < 10
    · rw [Nat.toDigits_of_lt_base hlt]
      have hall : ∀ d < 10, d ≠ 0 → [Nat.digitChar d].head? ≠ some '0' := by decide
      exact hall n hlt hn
    · rw [Nat.toDigits_of_base_le (by decide) (by omega),
        List.head?_append_of_ne_nil _ Nat.toDigits_ne_nil]
      exact ih (n / 10) (by omega) (by omega)

section Numbers

variable [Runtime]

theorem parseUnsigned_toDigits (negative : Bool) (n : Nat) :
    parseUnsigned negative (Nat.toDigits 10 n) = some (.int (if negative then -n else n)) := by
  have hdigits : ∀ c ∈ Nat.toDigits 10 n, c.isDigit = true := fun c hc =>
    Nat.isDigit_of_mem_toDigits (by decide) (by decide) hc
  have hzero : ¬ (Nat.toDigits 10 n = [] ∨
      (Nat.toDigits 10 n).head? = some '0' ∧ Nat.toDigits 10 n ≠ ['0']) := by
    rw [not_or, not_and]
    refine ⟨Nat.toDigits_ne_nil, fun hhead hne => ?_⟩
    by_cases hn : n = 0
    · exact hne (by rw [hn, Nat.toDigits_zero])
    · exact head_toDigits hn hhead
  rw [parseUnsigned, List.takeWhile_eq_self_iff.mpr hdigits, List.dropWhile_eq_nil_iff.mpr hdigits]
  dsimp only
  rw [if_neg hzero, if_pos rfl, Nat.ofDigitChars_ten_toDigits]

theorem parseNumber_of_ne {l : List Char} (h : l.head? ≠ some '-') :
    parseNumber l = parseUnsigned false l := by
  unfold parseNumber
  split
  · exact absurd rfl h
  · rfl

theorem parseNumber_int (i : Int) : parseNumber (toString i).toList = some (.int i) := by
  cases i with
  | ofNat n =>
    rw [show (toString (Int.ofNat n)).toList = Nat.toDigits 10 n from Nat.toList_repr,
      parseNumber_of_ne, parseUnsigned_toDigits]
    · rfl
    · intro h
      exact absurd (Nat.isDigit_of_mem_toDigits (by decide) (by decide) (List.mem_of_head? h))
        (by decide)
  | negSucc n =>
    have htext : (toString (Int.negSucc n)).toList = '-' :: Nat.toDigits 10 (n + 1) := by
      show ("-" ++ Nat.repr (n + 1)).toList = _
      rw [String.toList_append, Nat.toList_repr]
      rfl
    rw [htext, parseNumber, parseUnsigned_toDigits]
    rfl

/-- A number starts with a digit, after a sign perhaps. -/
theorem head_of_parseUnsigned {negative : Bool} {l : List Char} {v : Value}
    (h : parseUnsigned negative l = some v) : ∃ d, l.head? = some d ∧ d.isDigit = true := by
  cases l with
  | nil => cases h
  | cons c l =>
    refine ⟨c, rfl, ?_⟩
    by_contra hdigit
    rw [parseUnsigned, List.takeWhile_cons_of_neg hdigit] at h
    cases h

theorem head_of_parseNumber {t : List Char} {v : Value} (h : parseNumber t = some v) :
    ∃ c r, t = c :: r ∧ (c.isDigit = true ∨ c = '-' ∧ r.head? ≠ some 'I') := by
  unfold parseNumber at h
  split at h
  · obtain ⟨d, hhead, hdigit⟩ := head_of_parseUnsigned h
    refine ⟨_, _, rfl, .inr ⟨rfl, fun hI => ?_⟩⟩
    rw [hhead, Option.some.injEq] at hI
    subst hI
    exact absurd hdigit (by decide)
  · obtain ⟨d, hhead, hdigit⟩ := head_of_parseUnsigned h
    obtain ⟨r, rfl⟩ := List.head?_eq_some_iff.mp hhead
    exact ⟨d, r, rfl, .inl hdigit⟩

/-- A number is read up to where its characters end. -/
theorem scanNumber_reads {t r : List Char} {v : Value} (h : parseNumber t = some v)
    (hall : ∀ c ∈ t, inNumber c = true) (hr : Delimited r) :
    scanNumber (t ++ r) = some (v, r) := by
  have htake : r.takeWhile inNumber = [] := by
    cases r with
    | nil => rfl
    | cons c r => exact List.takeWhile_cons_of_neg (by rw [hr c rfl]; decide)
  have hdrop : r.dropWhile inNumber = r := by
    cases r with
    | nil => rfl
    | cons c r => exact List.dropWhile_cons_of_neg (by rw [hr c rfl]; decide)
  rw [scanNumber, List.takeWhile_append_of_pos hall, List.dropWhile_append_of_pos hall, htake, hdrop,
    List.append_nil, h]
  rfl

theorem scanOnce_number {t r : List Char} {v : Value} (h : parseNumber t = some v)
    (hall : ∀ c ∈ t, inNumber c = true) (hr : Delimited r) (f : Nat) :
    scanOnce (f + 1) (t ++ r) = some (v, r) := by
  have hread := scanNumber_reads h hall hr
  obtain ⟨c, l, rfl, hc⟩ := head_of_parseNumber h
  have hother : ∀ c' : Char, c'.isDigit = false → c' ≠ '-' → c ≠ c' := by
    intro c' hdigit hminus heq
    subst heq
    rcases hc with hc | hc
    · rw [hdigit] at hc
      cases hc
    · exact hminus hc.1
  -- the word `-Infinity` is tried before a number is
  have hinfinity : ¬ (c = '-' ∧ (l ++ r).head? = some 'I') := by
    intro ⟨hminus, hhead⟩
    rcases hc with hdigit | ⟨-, hl⟩
    · rw [hminus] at hdigit
      cases hdigit
    · cases l with
      | nil =>
        rw [hminus] at h
        cases h
      | cons d l => exact hl hhead
  rw [List.cons_append, scanOnce, if_neg (hother _ (by decide) (by decide)),
    if_neg (hother _ (by decide) (by decide)), if_neg (hother _ (by decide) (by decide)),
    if_neg (hother _ (by decide) (by decide)), if_neg (hother _ (by decide) (by decide)),
    if_neg (hother _ (by decide) (by decide)), if_neg (hother _ (by decide) (by decide)),
    if_neg (hother _ (by decide) (by decide)), if_neg hinfinity]
  exact hread

/-! ## Values -/

/-- A float is written as a number, which `float` takes back to it. -/
structure ReadsBack (q : ℚ) : Prop where
  spelled : ∀ c ∈ (Runtime.reprFloat q).toList, inNumber c = true
  read : parseNumber (Runtime.reprFloat q).toList = some (.float (.finite q))

mutual

/-- The keys of every object are distinct, and every float reads back. -/
def Exact : Value → Prop
  | .float (.finite q) => ReadsBack q
  | .list xs => ExactAll xs
  | .tuple xs => ExactAll xs
  | .dict kvs => (kvs.map Prod.fst).Nodup ∧ ExactPairs kvs
  | .keyed _ kvs => ExactPairs kvs
  | _ => True

def ExactAll : List Value → Prop
  | [] => True
  | v :: vs => Exact v ∧ ExactAll vs

def ExactPairs : List (String × Value) → Prop
  | [] => True
  | (_, v) :: kvs => Exact v ∧ ExactPairs kvs

end

mutual

/-- A value without floats, its keys distinct texts. -/
def floatless : Value → Bool
  | .float _ => false
  | .list xs => floatlessAll xs
  | .tuple xs => floatlessAll xs
  | .dict kvs => decide (kvs.map Prod.fst).Nodup && floatlessPairs kvs
  | .keyed _ _ => false
  | _ => true

def floatlessAll : List Value → Bool
  | [] => true
  | v :: vs => floatless v && floatlessAll vs

def floatlessPairs : List (String × Value) → Bool
  | [] => true
  | (_, v) :: kvs => floatless v && floatlessPairs kvs

end

mutual

theorem exact_of_floatless : ∀ v : Value, floatless v = true → Exact v
  | .none, _ | .bool _, _ | .int _, _ | .str _, _ | .other _ _, _ => trivial
  | .list xs, h => exactAll_of_floatless xs h
  | .tuple xs, h => exactAll_of_floatless xs h
  | .dict kvs, h => by
    rw [floatless, Bool.and_eq_true, decide_eq_true_eq] at h
    exact ⟨h.1, exactPairs_of_floatless kvs h.2⟩
  | .keyed _ kvs, h => nomatch h

theorem exactAll_of_floatless : ∀ vs : List Value, floatlessAll vs = true → ExactAll vs
  | [], _ => trivial
  | v :: vs, h => by
    rw [floatlessAll, Bool.and_eq_true] at h
    exact ⟨exact_of_floatless v h.1, exactAll_of_floatless vs h.2⟩

theorem exactPairs_of_floatless : ∀ kvs : List (String × Value), floatlessPairs kvs = true →
    ExactPairs kvs
  | [], _ => trivial
  | (_, v) :: kvs, h => by
    rw [floatlessPairs, Bool.and_eq_true] at h
    exact ⟨exact_of_floatless v h.1, exactPairs_of_floatless kvs h.2⟩

end

omit [Runtime] in
theorem skipBlank_cons {c : Char} (h : isBlank c = false) (r : List Char) :
    skipBlank (c :: r) = c :: r := List.dropWhile_cons_of_neg (by rw [h]; decide)

omit [Runtime] in
theorem skipBlank_newline (indent : Nat) (l : List Char) :
    skipBlank (newline indent ++ l) = skipBlank l := by
  have hblank : ∀ c ∈ newline indent, isBlank c = true := by
    intro c hc
    rcases List.mem_cons.mp hc with rfl | hc
    · decide
    · rw [(List.mem_replicate.mp hc).2]
      decide
  exact List.dropWhile_append_of_pos hblank

omit [Runtime] in
theorem skipBlank_separator (indent : Nat) (l : List Char) :
    skipBlank (separator indent ++ l) = ',' :: (newline indent ++ l) := skipBlank_cons (by decide) _

omit [Runtime] in
theorem int_inNumber (i : Int) : ∀ c ∈ (toString i).toList, inNumber c = true := by
  intro c hc
  unfold inNumber
  rcases Text.digits_of_int i c hc with hdigit | rfl
  · rw [hdigit]
    rfl
  · decide

/-- A value starts with a character of its own. -/
theorem text_head (indent : Nat) {v : Value} (h : Exact v) :
    ∃ c r, text indent v = c :: r ∧ isBlank c = false ∧ c ≠ ']' := by
  have hnumber : ∀ {t : List Char} {w : Value}, parseNumber t = some w →
      ∃ c r, t = c :: r ∧ isBlank c = false ∧ c ≠ ']' := by
    intro t w hw
    obtain ⟨c, r, rfl, hc⟩ := head_of_parseNumber hw
    have hplain : ∀ c' : Char, c'.isDigit = false → c' ≠ '-' → c ≠ c' := by
      intro c' hdigit hminus heq
      subst heq
      rcases hc with hc | hc
      · rw [hdigit] at hc
        cases hc
      · exact hminus hc.1
    refine ⟨c, r, rfl, ?_, hplain _ (by decide) (by decide)⟩
    simp [isBlank, hplain ' ' (by decide) (by decide), hplain '\t' (by decide) (by decide),
      hplain '\n' (by decide) (by decide), hplain '\r' (by decide) (by decide)]
  cases v with
  | none => exact ⟨_, _, rfl, by decide, by decide⟩
  | bool b => cases b <;> exact ⟨_, _, rfl, by decide, by decide⟩
  | int i => exact hnumber (parseNumber_int i)
  | float x =>
    cases x with
    | finite q => exact hnumber (ReadsBack.read h)
    | inf negative => cases negative <;> exact ⟨_, _, rfl, by decide, by decide⟩
    | nan shared => exact ⟨_, _, rfl, by decide, by decide⟩
  | str s => exact ⟨_, _, rfl, by decide, by decide⟩
  | list xs => cases xs <;> exact ⟨_, _, rfl, by decide, by decide⟩
  | tuple xs => cases xs <;> exact ⟨_, _, rfl, by decide, by decide⟩
  | dict kvs => cases kvs <;> exact ⟨_, _, rfl, by decide, by decide⟩
  | keyed kinds kvs => cases kvs <;> exact ⟨_, _, rfl, by decide, by decide⟩
  | other s r => exact ⟨_, _, rfl, by decide, by decide⟩

omit [Runtime] in
theorem scanWord_reads (word : String) (v : Value) (r : List Char) :
    scanWord word v (word.toList ++ r) = some (v, r) := by
  rw [scanWord, Text.dropPrefix?_eq_some_iff.mpr rfl]
  rfl

omit [Runtime] in
theorem itemsText_cons (indent : Nat) (before : List Char) (v : Value) (vs : List Value) [Runtime] :
    itemsText indent before (v :: vs) = before ++ itemsText indent [] (v :: vs) := by
  rw [itemsText, itemsText, List.nil_append, List.append_assoc]

theorem pairsText_cons (indent : Nat) (before : List Char) (p : String × Value)
    (kvs : List (String × Value)) :
    pairsText indent before (p :: kvs) = before ++ pairsText indent [] (p :: kvs) := by
  obtain ⟨k, v⟩ := p
  rw [pairsText, pairsText, List.nil_append]
  simp only [List.append_assoc]

theorem scanOnce_quote (s : String) (r : List Char) {f : Nat} (hf : (quote s).length ≤ f) :
    scanOnce f (quote s ++ r) = some (.str s, r) := by
  have hlen : (quote s).length = (s.toList.flatMap escapeChar).length + 2 := by
    rw [quote, List.length_cons, List.length_append]
    rfl
  obtain ⟨g, rfl⟩ : ∃ g, f = g + 1 := ⟨f - 1, by omega⟩
  rw [quote, List.cons_append, List.append_assoc, scanOnce, if_pos rfl, List.singleton_append,
    scanString_quoted _ _ _ (by omega), Option.map_some, String.ofList_toList]

/-- The blanks before a value are skipped. -/
theorem skipBlank_text (indent : Nat) {v : Value} (h : Exact v) (l : List Char) :
    skipBlank (text indent v ++ l) = text indent v ++ l := by
  obtain ⟨c, r, htext, hblank, -⟩ := text_head indent h
  rw [htext]
  exact skipBlank_cons hblank _

omit [Runtime] in
theorem delimited_newline (depth : Nat) (l : List Char) : Delimited (newline depth ++ l) :=
  delimited_cons (by decide) _

omit [Runtime] in
theorem delimited_separator (indent : Nat) (l : List Char) : Delimited (separator indent ++ l) :=
  delimited_cons (by decide) _

/-- One item read, the array ends. -/
theorem scanItems_last {f : Nat} {l l₁ r : List Char} {v : Value} (h : scanOnce f l = some (v, l₁))
    (hclose : skipBlank l₁ = ']' :: r) : scanItems (f + 1) l = some ([v], r) := by
  rw [scanItems, h]
  simp only [bind, pure, Option.bind_some, hclose, List.head?_cons, List.tail_cons, if_true]

/-- One item read, the array goes on. -/
theorem scanItems_more {f : Nat} {l l₁ l₂ r : List Char} {v : Value} {vs : List Value}
    (h : scanOnce f l = some (v, l₁)) (hcomma : skipBlank l₁ = ',' :: l₂)
    (hrest : scanItems f (skipBlank l₂) = some (vs, r)) :
    scanItems (f + 1) l = some (v :: vs, r) := by
  rw [scanItems, h]
  simp only [bind, pure, Option.bind_some, hcomma, List.head?_cons, List.tail_cons, hrest,
    Option.some.injEq, if_true, show (',' = ']') = False from by decide, if_false]

/-- A member of an object, and what its value is followed by. -/
theorem scanPairs_member {f : Nat} {k : String} {l₁ l₂ : List Char} {v : Value}
    (hk : (quote k).length ≤ f + 1) (hskip : skipBlank l₁ = l₁)
    (hv : scanOnce f l₁ = some (v, l₂)) :
    scanPairs (f + 1) (quote k ++ ([':', ' '] ++ l₁)) =
      if (skipBlank l₂).head? = some '\x7d' then some ([(k, v)], (skipBlank l₂).tail)
      else if (skipBlank l₂).head? = some ',' then
        (scanPairs f (skipBlank (skipBlank l₂).tail)).map fun p => ((k, v) :: p.1, p.2)
      else none := by
  have hlen : (quote k).length = (k.toList.flatMap escapeChar).length + 2 := by
    rw [quote, List.length_cons, List.length_append]
    rfl
  have hquote : Text.dropPrefix? ['"'] (quote k ++ ([':', ' '] ++ l₁)) =
      some (k.toList.flatMap escapeChar ++ '"' :: ([':', ' '] ++ l₁)) := by
    rw [Text.dropPrefix?_eq_some_iff, quote, List.cons_append, List.append_assoc]
    rfl
  have hcolon : Text.dropPrefix? [':'] (skipBlank ([':', ' '] ++ l₁)) = some (' ' :: l₁) := by
    rw [Text.dropPrefix?_eq_some_iff]
    exact skipBlank_cons (by decide) _
  have hspace : skipBlank (' ' :: l₁) = skipBlank l₁ := List.dropWhile_cons_of_pos (by decide)
  rw [scanPairs]
  simp only [hquote, scanString_quoted k.toList ([':', ' '] ++ l₁) f (by omega), hcolon, hspace, hskip, hv,
    bind, pure, Option.bind_some, String.ofList_toList]
  cases scanPairs f (skipBlank (skipBlank l₂).tail) <;> rfl

theorem scanOnce_array {f : Nat} {l r : List Char} {vs : List Value}
    (hhead : (skipBlank l).head? ≠ some ']') (h : scanItems f (skipBlank l) = some (vs, r)) :
    scanOnce (f + 1) ('[' :: l) = some (.list vs, r) := by
  rw [scanOnce, if_neg (by decide), if_pos rfl, if_neg hhead, h]
  rfl

theorem scanOnce_object {f : Nat} {l r : List Char} {kvs : List (String × Value)}
    (hhead : (skipBlank l).head? ≠ some '\x7d') (h : scanPairs f (skipBlank l) = some (kvs, r)) :
    scanOnce (f + 1) ('\x7b' :: l) = some (.dict (Dict.ofList kvs).entries, r) := by
  rw [scanOnce, if_neg (by decide), if_neg (by decide), if_pos rfl, if_neg hhead, h, Option.map_some]

/-- An array whose items are read is read. -/
theorem scanOnce_items {indent f : Nat} {v : Value} {vs : List Value} {r : List Char} (h : Exact v)
    (hitems : ∀ {g : Nat}, 2 * (itemsText (indent + 1) [] (v :: vs)).length + 1 ≤ g →
      scanItems g (itemsText (indent + 1) [] (v :: vs) ++ (newline indent ++ ']' :: r)) =
        some (Value.viaJsonAll (v :: vs), r))
    (hf : 2 * (text indent (.list (v :: vs))).length ≤ f) :
    scanOnce f (text indent (.list (v :: vs)) ++ r) = some ((Value.list (v :: vs)).viaJson, r) := by
  have htext : text indent (.list (v :: vs)) = '[' :: (newline (indent + 1) ++
      (itemsText (indent + 1) [] (v :: vs) ++ (newline indent ++ [']']))) := by
    rw [text, if_neg (by simp), itemsText_cons]
    simp only [List.cons_append, List.append_assoc]
  have hhead : ∃ l, itemsText (indent + 1) [] (v :: vs) = text (indent + 1) v ++ l := ⟨_, rfl⟩
  rw [htext, List.length_cons, List.length_append, List.length_append] at hf
  obtain ⟨g, rfl⟩ : ∃ g, f = g + 1 := ⟨f - 1, by omega⟩
  have hread := hitems (g := g) (by omega)
  rw [htext]
  simp only [List.cons_append, List.append_assoc, List.nil_append]
  apply scanOnce_array
  · obtain ⟨l, hl⟩ := hhead
    obtain ⟨c, l', hc, -, hbracket⟩ := text_head (indent + 1) h
    rw [skipBlank_newline, hl, List.append_assoc, skipBlank_text _ h, hc, List.cons_append,
      List.head?_cons]
    exact fun heq => hbracket (Option.some.inj heq)
  · obtain ⟨l, hl⟩ := hhead
    rw [hl, List.append_assoc] at hread ⊢
    rw [skipBlank_newline, skipBlank_text _ h]
    exact hread

/-- An object whose members are read is read, the last of two equal keys to win. -/
theorem scanOnce_members {indent f : Nat} {p : String × Value} {kvs : List (String × Value)}
    {r : List Char}
    (hpairs : ∀ {g : Nat}, 2 * (pairsText (indent + 1) [] (p :: kvs)).length + 1 ≤ g →
      scanPairs g (pairsText (indent + 1) [] (p :: kvs) ++ (newline indent ++ '\x7d' :: r)) =
        some (Value.viaJsonPairs (p :: kvs), r))
    (hf : 2 * (text indent (.dict (p :: kvs))).length ≤ f) :
    scanOnce f (text indent (.dict (p :: kvs)) ++ r) =
      some (.dict (Dict.ofList (Value.viaJsonPairs (p :: kvs))).entries, r) := by
  have htext : text indent (.dict (p :: kvs)) = '\x7b' :: (newline (indent + 1) ++
      (pairsText (indent + 1) [] (p :: kvs) ++ (newline indent ++ ['\x7d']))) := by
    rw [text, if_neg (by simp), pairsText_cons]
    simp only [List.cons_append, List.append_assoc]
  have hhead : ∃ l, pairsText (indent + 1) [] (p :: kvs) = '"' :: l := ⟨_, rfl⟩
  rw [htext, List.length_cons, List.length_append, List.length_append] at hf
  obtain ⟨g, rfl⟩ : ∃ g, f = g + 1 := ⟨f - 1, by omega⟩
  have hread := hpairs (g := g) (by omega)
  obtain ⟨l, hl⟩ := hhead
  rw [htext]
  simp only [List.cons_append, List.append_assoc, List.nil_append]
  rw [hl, List.cons_append] at hread ⊢
  apply scanOnce_object
  · rw [skipBlank_newline, skipBlank_cons (by decide), List.head?_cons]
    decide
  · rw [skipBlank_newline, skipBlank_cons (by decide)]
    exact hread

theorem text_keyed (indent : Nat) (kinds : List KeyKind) (p : String × Value)
    (kvs : List (String × Value)) :
    text indent (.keyed kinds (p :: kvs)) = text indent (.dict (p :: kvs)) := by
  rw [text, text, if_neg (by simp), if_neg (by simp), pairsText_cons _ ('\x7b' :: _)]

omit [Runtime] in
theorem entries_viaJsonPairs {kvs : List (String × Value)} (hkeys : (kvs.map Prod.fst).Nodup) :
    (Dict.ofList (Value.viaJsonPairs kvs)).entries = Value.viaJsonPairs kvs := by
  apply Dict.entries_ofList
  rw [Value.viaJsonPairs_eq_map, List.map_map]
  exact hkeys

mutual

/-- A value is read where its text stands. -/
theorem scanOnce_text (indent : Nat) : ∀ v : Value, Exact v → ∀ {f : Nat} {r : List Char},
    2 * (text indent v).length ≤ f → Delimited r →
      scanOnce f (text indent v ++ r) = some (v.viaJson, r)
  | .none, _, f + 1, r, _, _ => scanWord_reads "null" .none r
  | .bool true, _, f + 1, r, _, _ => scanWord_reads "true" (.bool true) r
  | .bool false, _, f + 1, r, _, _ => scanWord_reads "false" (.bool false) r
  | .int i, _, f + 1, r, _, hr => scanOnce_number (parseNumber_int i) (int_inNumber i) hr f
  | .float (.finite q), h, f + 1, r, _, hr =>
    scanOnce_number (ReadsBack.read h) (ReadsBack.spelled h) hr f
  | .float (.inf false), _, f + 1, r, _, _ => scanWord_reads "Infinity" (.float (.inf false)) r
  | .float (.inf true), _, f + 1, r, _, _ => scanWord_reads "-Infinity" (.float (.inf true)) r
  | .float (.nan _), _, f + 1, r, _, _ => scanWord_reads "NaN" (.float (.nan true)) r
  | .str s, _, f, r, hf, _ => by
    have hlen : 2 * (quote s).length ≤ f := hf
    exact scanOnce_quote s r (by omega)
  | .other s _, _, f, r, hf, _ => by
    have hlen : 2 * (quote s).length ≤ f := hf
    exact scanOnce_quote s r (by omega)
  | .list [], _, f + 1, r, _, _ => rfl
  | .list (v :: vs), h, f, r, hf, _ =>
    scanOnce_items h.1 (fun hg => scanItems_text (indent + 1) indent v vs h hg) hf
  | .tuple [], _, f + 1, r, _, _ => rfl
  | .tuple (v :: vs), h, f, r, hf, _ =>
    scanOnce_items h.1 (fun hg => scanItems_text (indent + 1) indent v vs h hg) hf
  | .dict [], _, f + 1, r, _, _ => rfl
  | .dict ((k, v) :: kvs), h, f, r, hf, _ => by
    rw [Value.viaJson, ← entries_viaJsonPairs h.1]
    exact scanOnce_members (fun hg => scanPairs_text (indent + 1) indent k v kvs h.2 hg) hf
  | .keyed _ [], _, f + 1, r, _, _ => rfl
  | .keyed kinds ((k, v) :: kvs), h, f, r, hf, _ => by
    rw [text_keyed] at hf ⊢
    exact scanOnce_members (fun hg => scanPairs_text (indent + 1) indent k v kvs h hg) hf
  | v, h, 0, _, hf, _ => by
    obtain ⟨c, r, htext, -⟩ := text_head indent h
    rw [htext, List.length_cons] at hf
    omega
termination_by v => sizeOf v

theorem scanItems_text (indent depth : Nat) : ∀ v vs, ExactAll (v :: vs) → ∀ {f : Nat} {r : List Char},
    2 * (itemsText indent [] (v :: vs)).length + 1 ≤ f →
      scanItems f (itemsText indent [] (v :: vs) ++ (newline depth ++ ']' :: r)) =
        some (Value.viaJsonAll (v :: vs), r)
  | v, [], h, f + 1, r, hf => by
    have htext : itemsText indent [] [v] = text indent v := by
      rw [itemsText, itemsText, List.nil_append, List.append_nil]
    rw [htext] at hf ⊢
    apply scanItems_last (scanOnce_text indent v h.1 (by omega) (delimited_newline depth _))
    rw [skipBlank_newline, skipBlank_cons (by decide)]
  | v, w :: ws, h, f + 1, r, hf => by
    have htext : itemsText indent [] (v :: w :: ws) =
        text indent v ++ (separator indent ++ itemsText indent [] (w :: ws)) := by
      rw [itemsText, List.nil_append, itemsText_cons]
    have hhead : ∃ l, itemsText indent [] (w :: ws) = text indent w ++ l := ⟨_, rfl⟩
    have hlen : 0 < (separator indent).length := by simp [separator]
    rw [htext] at hf ⊢
    rw [List.length_append, List.length_append] at hf
    rw [List.append_assoc, List.append_assoc]
    apply scanItems_more (scanOnce_text indent v h.1 (by omega) (delimited_separator indent _))
    · exact skipBlank_separator indent _
    · have hrest := scanItems_text indent depth w ws h.2 (f := f) (r := r) (by omega)
      obtain ⟨l, hl⟩ := hhead
      rw [hl, List.append_assoc] at hrest ⊢
      rw [skipBlank_newline, skipBlank_text indent h.2.1]
      exact hrest
termination_by v vs => sizeOf v + sizeOf vs + 1

theorem scanPairs_text (indent depth : Nat) : ∀ k v kvs, ExactPairs ((k, v) :: kvs) →
    ∀ {f : Nat} {r : List Char}, 2 * (pairsText indent [] ((k, v) :: kvs)).length + 1 ≤ f →
      scanPairs f (pairsText indent [] ((k, v) :: kvs) ++ (newline depth ++ '\x7d' :: r)) =
        some (Value.viaJsonPairs ((k, v) :: kvs), r)
  | k, v, [], h, f + 1, r, hf => by
    have htext : pairsText indent [] [(k, v)] = quote k ++ ([':', ' '] ++ text indent v) := by
      rw [pairsText, pairsText, List.nil_append, List.append_nil, List.append_assoc]
    rw [htext] at hf ⊢
    rw [List.length_append, List.length_append] at hf
    rw [List.append_assoc, List.append_assoc, scanPairs_member (by omega) (skipBlank_text indent h.1 _)
      (scanOnce_text indent v h.1 (by omega) (delimited_newline depth _)), skipBlank_newline,
      skipBlank_cons (by decide), List.head?_cons, if_pos rfl]
    rfl
  | k, v, (k', w) :: ws, h, f + 1, r, hf => by
    have htext : pairsText indent [] ((k, v) :: (k', w) :: ws) = quote k ++ ([':', ' '] ++
        (text indent v ++ (separator indent ++ pairsText indent [] ((k', w) :: ws)))) := by
      rw [pairsText, List.nil_append, pairsText_cons]
      simp only [List.append_assoc]
    have hhead : ∃ l, pairsText indent [] ((k', w) :: ws) = '"' :: l := ⟨_, rfl⟩
    have hlen : 0 < (separator indent).length := by simp [separator]
    rw [htext] at hf ⊢
    simp only [List.length_append] at hf
    simp only [List.append_assoc]
    rw [scanPairs_member (by omega) (skipBlank_text indent h.1 _)
      (scanOnce_text indent v h.1 (by omega) (delimited_separator indent _)), skipBlank_separator]
    have hrest := scanPairs_text indent depth k' w ws h.2 (f := f) (r := r) (by omega)
    obtain ⟨l, hl⟩ := hhead
    rw [hl, List.cons_append] at hrest ⊢
    rw [List.tail_cons, skipBlank_newline, skipBlank_cons (by decide), hrest]
    rfl
termination_by k v kvs => sizeOf k + sizeOf v + sizeOf kvs + 1

end

/-! ## Whole texts -/

/-- The text of an object reads back. -/
theorem loads_text {kvs : List (String × Value)} (h : Exact (.dict kvs)) :
    loads (text 0 (.dict kvs)) = some (Value.dict kvs).viaJson := by
  have hskip := skipBlank_text 0 h []
  have hread := scanOnce_text 0 _ h (f := 2 * (text 0 (.dict kvs)).length + 1) (r := []) (by omega) nofun
  rw [List.append_nil] at hskip hread
  rw [loads, hskip, hread]
  rfl

/-- A proper part of it does not. -/
theorem loads_part {kvs : List (String × Value)} (h : Exact (.dict kvs)) {l t : List Char}
    (hsplit : text 0 (.dict kvs) = l ++ t) (ht : t ≠ []) : loads l = none := by
  have hbrace : ∃ r, text 0 (.dict kvs) = '\x7b' :: r := by
    cases kvs <;> exact ⟨_, rfl⟩
  have hread := scanOnce_text 0 _ h (f := 2 * (text 0 (.dict kvs)).length + 1) (r := []) (by omega) nofun
  rw [List.append_nil] at hread
  cases hl : loads l with
  | none => rfl
  | some v =>
    exfalso
    simp only [loads, bind, Option.bind_eq_some_iff, Prod.exists] at hl
    obtain ⟨w, r, hscan, -⟩ := hl
    obtain ⟨r', hr'⟩ := hbrace
    cases l with
    | nil => cases hscan
    | cons c l =>
      have hc : c = '\x7b' := by
        rw [hr', List.cons_append, List.cons.injEq] at hsplit
        exact hsplit.1.symm
      subst hc
      rw [skipBlank_cons (by decide)] at hscan
      have hlen : 2 * ('\x7b' :: l).length + 1 ≤ 2 * (text 0 (.dict kvs)).length + 1 := by
        rw [hsplit, List.length_append]
        omega
      have hlonger := (extends_of_le t _ _ hlen).once hscan (.inr rfl)
      rw [← hsplit, hread, Option.some.injEq, Prod.mk.injEq] at hlonger
      exact ht (List.append_eq_nil_iff.mp hlonger.2.symm).2

end Numbers

end Json
end Py
