import DotRunner.Dot.Layout
import DotRunner.Dot.Pieces
import DotRunner.Dot.QuotedTokens
import DotRunner.Dot.Source

/-!
# Comments as white space

The linter blanks the comments that the parser cuts out.  Both are read from one scan
of the source, which keeps a character or puts white space in its place.
-/

namespace DotRunner
namespace Dot

open Py

/-- What a character of a comment is blanked to. -/
def blankChar (c : Char) : Char := if c = '\n' then '\n' else ' '

/-- `_blank_comments`, from a place on. -/
def blankFrom : ScanMode → List Char → List Char
  | .slash, [] => ['/']
  | _, [] => []
  | .code, c :: r => if c = '/' then blankFrom .slash r else c :: blankFrom (codeMode c) r
  | .slash, c :: r =>
    if c = '/' then ' ' :: ' ' :: blankFrom .line r
    else if c = '*' then ' ' :: ' ' :: blankFrom .block r
    else '/' :: c :: blankFrom (codeMode c) r
  | .quoted, c :: r =>
    c :: blankFrom (if c = '\\' then .escaped else if c = '"' then .code else .quoted) r
  | .escaped, c :: r => c :: blankFrom .quoted r
  | .line, c :: r => if c = '\n' then c :: blankFrom .code r else ' ' :: blankFrom .line r
  | .block, c :: r => blankChar c :: blankFrom (if c = '*' then .star else .block) r
  | .star, c :: r =>
    blankChar c :: blankFrom (if c = '/' then .code else if c = '*' then .star else .block) r

def blankComments (source : List Char) : List Char := blankFrom .code source

/-- A character, and whether it is kept or stands for one of a comment. -/
abbrev Spot := Char × Bool

def keep (t : List Char) : List Spot := t.map fun c => (c, true)

def gone : List Spot := [(' ', false), (' ', false)]

/-- The source with its comments marked, from a place on. -/
def spotsFrom : ScanMode → List Char → List Spot
  | .slash, [] => [('/', true)]
  | _, [] => []
  | .code, c :: r => if c = '/' then spotsFrom .slash r else (c, true) :: spotsFrom (codeMode c) r
  | .slash, c :: r =>
    if c = '/' then gone ++ spotsFrom .line r
    else if c = '*' then gone ++ spotsFrom .block r
    else ('/', true) :: (c, true) :: spotsFrom (codeMode c) r
  | .quoted, c :: r =>
    (c, true) :: spotsFrom (if c = '\\' then .escaped else if c = '"' then .code else .quoted) r
  | .escaped, c :: r => (c, true) :: spotsFrom .quoted r
  | .line, c :: r =>
    if c = '\n' then (c, true) :: spotsFrom .code r else (' ', false) :: spotsFrom .line r
  | .block, c :: r => (blankChar c, false) :: spotsFrom (if c = '*' then .star else .block) r
  | .star, c :: r =>
    (blankChar c, false) ::
      spotsFrom (if c = '/' then .code else if c = '*' then .star else .block) r

/-- What is left when the comments are cut out. -/
def kept (x : List Spot) : List Char := (x.filter Prod.snd).map Prod.fst

/-- The text with white space for the comments. -/
def whole (x : List Spot) : List Char := x.map Prod.fst

/-- The guard against a backslash in front of a quote finds the same behind both gaps. -/
def GuardAlike (gap gap' text : List Char) : Prop :=
  (strayQuote gap text).isSome = (strayQuote gap' text).isSome

/-- Of the text without its comments, read from its beginning, every token stands in one
piece.  The first gap is what no token was read in; the second is its part behind the
last comment, and the guard must find the same in both.  A quote that nothing closes
stays open with white space for the comments. -/
inductive CommentsApart : List Char → List Char → List Spot → Prop
  | nil (gap gap' : List Char) : CommentsApart gap gap' []
  | comment {gap gap' : List Char} {c : Char} {x : List Spot} (hc : Text.isSpace c = true)
      (hguard : strayQuote gap' [c] = none) (rest : CommentsApart gap [] x) :
      CommentsApart gap gap' ((c, false) :: x)
  | skipped {gap gap' : List Char} {c : Char} {x : List Spot} (h : scanToken (c :: kept x) = none)
      (hquote : c = '"' → scanQuoted (whole x) = none)
      (rest : CommentsApart (gap ++ [c]) (gap' ++ [c]) x) : CommentsApart gap gap' ((c, true) :: x)
  | space {gap gap' : List Char} {c : Char} {x : List Spot} (hc : Text.isSpace c = true)
      (hguard : GuardAlike gap gap' [c]) (rest : CommentsApart [] [] x) :
      CommentsApart gap gap' ((c, true) :: x)
  | token {gap gap' t : List Char} {k : Kind} {x : List Spot}
      (h : scanToken (t ++ kept x) = some (k, t, kept x)) (hk : k ≠ .ws)
      (hguard : GuardAlike gap gap' t) (rest : CommentsApart [] [] x) :
      CommentsApart gap gap' (keep t ++ x)

/-! ## One scan for both -/

theorem kept_spots (mode : ScanMode) (l : List Char) : kept (spotsFrom mode l) = stripFrom mode l := by
  fun_induction stripFrom mode l <;> simp_all [spotsFrom, kept, gone]

theorem whole_spots (mode : ScanMode) (l : List Char) :
    whole (spotsFrom mode l) = blankFrom mode l := by
  fun_induction blankFrom mode l <;> simp_all [spotsFrom, whole, gone]

/-- White space stands for the comments. -/
def Blanked (x : List Spot) : Prop := ∀ p ∈ x, p.2 = false → Text.isSpace p.1 = true

theorem Blanked.tail {p : Spot} {x : List Spot} (h : Blanked (p :: x)) : Blanked x :=
  fun q hq => h q (List.mem_cons_of_mem p hq)

theorem Blanked.keep {x : List Spot} (h : Blanked x) (t : List Char) : Blanked (keep t ++ x) := by
  intro p hp hfalse
  rcases List.mem_append.mp hp with hp | hp
  · obtain ⟨c, -, rfl⟩ := List.mem_map.mp hp
    cases hfalse
  · exact h p hp hfalse

theorem CommentsApart.blanked {gap gap' : List Char} {x : List Spot}
    (h : CommentsApart gap gap' x) : Blanked x := by
  induction h with
  | nil => exact fun p hp => absurd hp List.not_mem_nil
  | comment hc _ _ ih =>
    intro p hp hfalse
    rcases List.mem_cons.mp hp with rfl | hp
    · exact hc
    · exact ih p hp hfalse
  | @skipped _ _ c _ _ _ _ ih => exact ih.keep [c]
  | @space _ _ c _ _ _ _ ih => exact ih.keep [c]
  | token _ _ _ _ ih => exact ih.keep _

theorem kept_keep (t : List Char) (x : List Spot) : kept (keep t ++ x) = t ++ kept x := by
  induction t with
  | nil => rfl
  | cons c t ih => exact congrArg (c :: ·) ih

theorem whole_keep (t : List Char) (x : List Spot) : whole (keep t ++ x) = t ++ whole x := by
  induction t with
  | nil => rfl
  | cons c t ih => exact congrArg (c :: ·) ih

/-! ## A token in front of a comment -/

section Ahead

variable {x : List Spot}

/-- What follows a token ends it as well with the comments blanked. -/
theorem head_whole {p : Char → Bool} (hp : ∀ c, Text.isSpace c = true → p c = false)
    (hx : Blanked x) (h : (kept x).head?.any p = false) : (whole x).head?.any p = false := by
  cases x with
  | nil => rfl
  | cons y x =>
    obtain ⟨c, b⟩ := y
    cases b with
    | true => exact h
    | false => exact hp c (hx (c, false) List.mem_cons_self rfl)

theorem head_whole_ne (hx : Blanked x) {d : Char} (hd : Text.isSpace d = false)
    (h : (kept x).head? ≠ some d) : (whole x).head? ≠ some d := by
  have hspace : ∀ c, Text.isSpace c = true → (c == d) = false := by
    intro c hc
    rw [beq_eq_false_iff_ne]
    rintro rfl
    rw [hd] at hc
    cases hc
  have hno : (kept x).head?.any (· == d) = false := by
    cases hk : (kept x).head? with
    | none => rfl
    | some c =>
      rw [hk] at h
      simpa using h
  intro hw
  have hhead := head_whole hspace hx hno
  rw [hw] at hhead
  simp at hhead

theorem span_whole {p : Char → Bool} (hp : ∀ c, Text.isSpace c = true → p c = false)
    (hx : Blanked x) {s q : List Char} (h : s.dropWhile p = q ++ kept x) :
    (s.takeWhile p ++ (q ++ whole x)).takeWhile p = s.takeWhile p ∧
      (s.takeWhile p ++ (q ++ whole x)).dropWhile p = q ++ whole x := by
  have hall : ∀ c ∈ s.takeWhile p, p c = true := fun c hc => List.mem_takeWhile_imp hc
  have hhead := head_dropWhile p s
  have hends : (q ++ whole x).head?.any p = false := by
    rw [h] at hhead
    cases q with
    | nil => exact head_whole hp hx hhead
    | cons c q => exact hhead
  rw [List.takeWhile_append_of_pos hall, List.dropWhile_append_of_pos hall]
  cases hq : q ++ whole x with
  | nil => simp
  | cons c l =>
    rw [hq] at hends
    have hc : p c = false := by simpa using hends
    simp [hc]

theorem range_of_isSpace {c : Char} (h : Text.isSpace c = true) : c.toNat ≤ 32 ∨ 127 < c.toNat := by
  simp only [Text.isSpace, Bool.or_eq_true, Bool.and_eq_true, decide_eq_true_eq, beq_iff_eq] at h
  omega

/-- A letter is in one of two ranges. -/
theorem isAlpha_eq (c : Char) : c.isAlpha = (decide (c.val ≥ 'A'.val ∧ c.val ≤ 'Z'.val) ||
    (decide (c.val ≥ 'a'.val) && decide (c.val ≤ 'z'.val))) := rfl

theorem range_of_isIdentChar {c : Char} (h : isIdentChar c = true) : 48 ≤ c.toNat ∧ c.toNat ≤ 122 := by
  by_cases hunder : c = '_'
  · subst hunder
    decide
  · simp only [isIdentChar, Char.isAlphanum, isAlpha_eq, Char.isDigit, Bool.or_eq_true,
      Bool.and_eq_true, decide_eq_true_eq, beq_iff_eq, hunder, or_false, ge_iff_le,
      UInt32.le_iff_toNat_le] at h
    have hval : c.val.toNat = c.toNat := rfl
    have hbounds : ('A' : Char).val.toNat = 65 ∧ ('Z' : Char).val.toNat = 90 ∧
        ('a' : Char).val.toNat = 97 ∧ ('z' : Char).val.toNat = 122 ∧
        ('0' : Char).val.toNat = 48 ∧ ('9' : Char).val.toNat = 57 := by decide
    omega

theorem isIdentChar_of_space {c : Char} (h : Text.isSpace c = true) : isIdentChar c = false := by
  by_contra hident
  have hspace := range_of_isSpace h
  have hrange := range_of_isIdentChar (Bool.not_eq_false _ ▸ hident)
  omega

theorem isIdentStart_of_space {c : Char} (h : Text.isSpace c = true) : isIdentStart c = false := by
  have hident := isIdentChar_of_space h
  simp only [isIdentChar, isIdentStart, Char.isAlphanum, Bool.or_eq_false_iff] at hident ⊢
  exact ⟨hident.1.1, hident.2⟩

theorem isDigit_of_space {c : Char} (h : Text.isSpace c = true) : c.isDigit = false := by
  have hident := isIdentChar_of_space h
  simp only [isIdentChar, Char.isAlphanum, Bool.or_eq_false_iff] at hident
  exact hident.1.2

theorem scanQualifiers_stop {l : List Char} (h : ∀ c r, l = '.' :: c :: r → isIdentStart c = false)
    (fuel : Nat) : scanQualifiers fuel l = ([], l) := by
  cases fuel with
  | zero => rfl
  | succ fuel =>
    rw [scanQualifiers.eq_def]
    dsimp only
    split
    · rename_i c r
      rw [if_neg (by rw [h c r rfl]; decide)]
    · rfl

/-- No qualifier goes on behind a comment. -/
theorem stop_whole (hx : Blanked x) (h : ∀ c r, kept x = '.' :: c :: r → isIdentStart c = false) :
    ∀ c r, whole x = '.' :: c :: r → isIdentStart c = false := by
  intro c r hw
  match x, hw with
  | (d, false) :: y, hw =>
    have hd : Text.isSpace d = true := hx (d, false) List.mem_cons_self rfl
    obtain rfl : d = '.' := (List.cons.inj hw).1
    exact absurd hd (by decide)
  | [(d, true)], hw => exact absurd (List.cons.inj hw).2 (by simp)
  | (d, true) :: (e, false) :: y, hw =>
    have he : Text.isSpace e = true := hx (e, false) (by simp) rfl
    obtain rfl : e = c := (List.cons.inj (List.cons.inj hw).2).1
    exact isIdentStart_of_space he
  | (d, true) :: (e, true) :: y, hw =>
    obtain rfl : d = '.' := (List.cons.inj hw).1
    obtain rfl : e = c := (List.cons.inj (List.cons.inj hw).2).1
    exact h e (kept y) rfl

theorem scanQualifiers_whole (hx : Blanked x) {f f' : Nat} {l q : List Char} (hl : l.length ≤ f)
    (h : scanQualifiers f l = (q, kept x)) (hf' : (q ++ whole x).length ≤ f') :
    scanQualifiers f' (q ++ whole x) = (q, whole x) := by
  induction f generalizing f' l q with
  | zero =>
    obtain rfl := List.length_eq_zero_iff.mp (Nat.le_zero.mp hl)
    obtain ⟨rfl, hk⟩ := Prod.mk.inj h
    exact scanQualifiers_stop (stop_whole hx fun c r hc => by rw [← hk] at hc; cases hc) f'
  | succ f ih =>
    by_cases hgo : ∃ c r, l = '.' :: c :: r ∧ isIdentStart c = true
    · obtain ⟨c, r, rfl, hc⟩ := hgo
      rw [scanQualifiers_dot hc] at h
      obtain ⟨rfl, hrest⟩ := Prod.mk.inj h
      have hdrop : r.dropWhile isIdentChar =
          (scanQualifiers f (r.dropWhile isIdentChar)).1 ++ kept x := by
        rw [← hrest, scanQualifiers_append]
      obtain ⟨htake, hdrop'⟩ := span_whole (fun _ => isIdentChar_of_space) hx hdrop
      have hlen := List.length_dropWhile_le isIdentChar r
      have hshort : (r.dropWhile isIdentChar).length ≤ f := by
        rw [List.length_cons, List.length_cons] at hl
        omega
      cases f' with
      | zero => simp at hf'
      | succ f' =>
        generalize hm : scanQualifiers f (r.dropWhile isIdentChar) = m at *
        have hm' : scanQualifiers f (r.dropWhile isIdentChar) = (m.1, kept x) :=
          hm.trans (Prod.ext rfl hrest)
        have hlong : (m.1 ++ whole x).length ≤ f' := by
          simp only [List.cons_append, List.length_cons, List.length_append] at hf' ⊢
          omega
        simp only [List.cons_append, List.append_assoc]
        rw [scanQualifiers_dot hc, htake, hdrop', ih hshort hm' hlong]
        simp
    · have hstop : ∀ c r, l = '.' :: c :: r → isIdentStart c = false := fun c r heq =>
        Bool.eq_false_iff.mpr fun hc => hgo ⟨c, r, heq, hc⟩
      rw [scanQualifiers_stop hstop] at h
      obtain ⟨rfl, rfl⟩ := Prod.mk.inj h
      exact scanQualifiers_stop (stop_whole hx hstop) f'

theorem scanIdent_whole (hx : Blanked x) {t : List Char}
    (h : scanIdent (t ++ kept x) = some (t, kept x)) :
    scanIdent (t ++ whole x) = some (t, whole x) := by
  cases t with
  | nil => exact absurd rfl (scanIdent_reads _ _ _ h).2
  | cons c s =>
    rw [List.cons_append, scanIdent] at h ⊢
    by_cases hc : isIdentStart c = true
    · rw [if_pos hc] at h ⊢
      dsimp only at h ⊢
      obtain ⟨htext, hrest⟩ := Prod.mk.inj (Option.some.inj h)
      generalize hm : scanQualifiers (s ++ kept x).length ((s ++ kept x).dropWhile isIdentChar) = m at *
      have hs : s = (s ++ kept x).takeWhile isIdentChar ++ m.1 := (List.cons.inj htext).2.symm
      have hdrop : (s ++ kept x).dropWhile isIdentChar = m.1 ++ kept x := by
        have hsplit := scanQualifiers_append (s ++ kept x).length ((s ++ kept x).dropWhile isIdentChar)
        rw [hm, hrest] at hsplit
        exact hsplit.symm
      obtain ⟨htake, hdrop'⟩ := span_whole (fun _ => isIdentChar_of_space) hx hdrop
      have hwhole : s ++ whole x = (s ++ kept x).takeWhile isIdentChar ++ (m.1 ++ whole x) := by
        rw [← List.append_assoc, ← hs]
      have hlong : (m.1 ++ whole x).length ≤ (s ++ whole x).length := by
        rw [hwhole]
        simp only [List.length_append]
        omega
      have hmore := scanQualifiers_whole hx (List.length_dropWhile_le isIdentChar _)
        (hm.trans (Prod.ext rfl hrest)) hlong
      rw [hwhole] at hmore ⊢
      rw [htake, hdrop', hmore]
      show some (c :: ((s ++ kept x).takeWhile isIdentChar ++ m.1), whole x) = _
      rw [← hs]
    · rw [if_neg hc] at h
      cases h

/-- What a number starts with. -/
theorem scanUnsigned_head {l t r : List Char} (h : scanUnsigned l = some (t, r)) :
    ∃ c l', l = c :: l' ∧ (c.isDigit = true ∨ c = '.') := by
  cases l with
  | nil => cases h
  | cons c l' =>
    refine ⟨c, l', rfl, ?_⟩
    by_contra hno
    rw [not_or, Bool.not_eq_true] at hno
    rw [scanUnsigned_eq_none.mpr ⟨hno.1, fun hdot => absurd hdot hno.2⟩] at h
    cases h

theorem scanUnsigned_fraction {s : List Char} (h : s.takeWhile Char.isDigit ≠ []) :
    scanUnsigned ('.' :: s) = some ('.' :: s.takeWhile Char.isDigit, s.dropWhile Char.isDigit) := by
  have hnone : ('.' :: s).takeWhile Char.isDigit = [] := rfl
  have hsome : (s.takeWhile Char.isDigit).isEmpty = false := by simpa using h
  rw [scanUnsigned, hnone]
  simp only [List.isEmpty_nil, if_true, hsome, Bool.false_eq_true, if_false]

theorem scanUnsigned_decimal {ds : List Char} (hne : ds ≠ []) (hall : ∀ c ∈ ds, c.isDigit = true)
    (s : List Char) : scanUnsigned (ds ++ '.' :: s) =
      some (ds ++ '.' :: s.takeWhile Char.isDigit, s.dropWhile Char.isDigit) := by
  have hsome : ds.isEmpty = false := by simpa using hne
  have hdot : ('.' :: s).takeWhile Char.isDigit = [] ∧ ('.' :: s).dropWhile Char.isDigit = '.' :: s :=
    ⟨rfl, rfl⟩
  unfold scanUnsigned
  dsimp only
  rw [List.takeWhile_append_of_pos hall, List.dropWhile_append_of_pos hall, hdot.1, hdot.2,
    List.append_nil, hsome]
  rfl

theorem scanUnsigned_digits {ds r : List Char} (hne : ds ≠ []) (hall : ∀ c ∈ ds, c.isDigit = true)
    (hends : r.head?.any Char.isDigit = false) (hdot : r.head? ≠ some '.') :
    scanUnsigned (ds ++ r) = some (ds, r) := by
  have hsome : ds.isEmpty = false := by simpa using hne
  have hnone : r.takeWhile Char.isDigit = [] ∧ r.dropWhile Char.isDigit = r := by
    cases r with
    | nil => exact ⟨rfl, rfl⟩
    | cons c r =>
      have hc : c.isDigit = false := by simpa using hends
      simp [hc]
  unfold scanUnsigned
  dsimp only
  rw [List.takeWhile_append_of_pos hall, List.dropWhile_append_of_pos hall, hnone.1, hnone.2,
    List.append_nil, hsome, if_neg Bool.false_ne_true]
  split
  · exact absurd rfl hdot
  · rfl

theorem scanUnsigned_whole (hx : Blanked x) {t : List Char}
    (h : scanUnsigned (t ++ kept x) = some (t, kept x)) :
    scanUnsigned (t ++ whole x) = some (t, whole x) := by
  have hspace : ∀ c, Text.isSpace c = true → c.isDigit = false := fun _ => isDigit_of_space
  by_cases hempty : (t ++ kept x).takeWhile Char.isDigit = []
  · obtain ⟨c, l, hl, hc⟩ := scanUnsigned_head h
    have hdot : c = '.' := by
      refine hc.resolve_left fun hdigit => ?_
      rw [hl, List.takeWhile_cons_of_pos hdigit] at hempty
      cases hempty
    subst hdot
    by_cases hfrac : l.takeWhile Char.isDigit = []
    · rw [hl, scanUnsigned_eq_none.mpr ⟨rfl, fun _ => hfrac⟩] at h
      cases h
    · rw [hl, scanUnsigned_fraction hfrac] at h
      obtain ⟨rfl, hrest⟩ := Prod.mk.inj (Option.some.inj h)
      obtain ⟨htake, hdrop⟩ := span_whole (q := []) hspace hx hrest
      rw [List.nil_append] at htake hdrop
      rw [List.cons_append, scanUnsigned_fraction (by rw [htake]; exact hfrac), htake, hdrop]
  · have hall : ∀ c ∈ (t ++ kept x).takeWhile Char.isDigit, c.isDigit = true :=
      fun c hc => List.mem_takeWhile_imp hc
    have hsplit := List.takeWhile_append_dropWhile (p := Char.isDigit) (l := t ++ kept x)
    have hends := head_dropWhile Char.isDigit (t ++ kept x)
    generalize (t ++ kept x).takeWhile Char.isDigit = ds at *
    generalize (t ++ kept x).dropWhile Char.isDigit = r at *
    by_cases hdot : r.head? = some '.'
    · obtain ⟨s, rfl⟩ : ∃ s, r = '.' :: s := List.head?_eq_some_iff.mp hdot
      rw [← hsplit, scanUnsigned_decimal hempty hall] at h
      obtain ⟨rfl, hrest⟩ := Prod.mk.inj (Option.some.inj h)
      obtain ⟨htake, hdrop⟩ := span_whole (q := []) hspace hx hrest
      rw [List.nil_append] at htake hdrop
      rw [List.append_assoc, List.cons_append, scanUnsigned_decimal hempty hall, htake, hdrop]
    · rw [← hsplit, scanUnsigned_digits hempty hall hends hdot] at h
      obtain ⟨rfl, rfl⟩ := Prod.mk.inj (Option.some.inj h)
      exact scanUnsigned_digits hempty hall (head_whole hspace hx hends)
        (head_whole_ne hx (by decide) hdot)

theorem scanNumber_other {c : Char} (hc : c ≠ '-') (l : List Char) :
    scanNumber (c :: l) = scanUnsigned (c :: l) := by
  rw [scanNumber]
  exact fun r heq => hc (List.cons.inj heq).1

theorem scanNumber_whole (hx : Blanked x) {t : List Char}
    (h : scanNumber (t ++ kept x) = some (t, kept x)) :
    scanNumber (t ++ whole x) = some (t, whole x) := by
  cases t with
  | nil => exact absurd rfl (scanNumber_reads _ _ _ h).2
  | cons c s =>
    rw [List.cons_append] at h ⊢
    by_cases hc : c = '-'
    · subst hc
      rw [scanNumber] at h ⊢
      obtain ⟨p, hp, heq⟩ := Option.map_eq_some_iff.mp h
      obtain ⟨htext, hrest⟩ := Prod.mk.inj heq
      have hp' : scanUnsigned (s ++ kept x) = some (s, kept x) := by
        rw [hp, ← hrest, ← (List.cons.inj htext).2]
      rw [scanUnsigned_whole hx hp']
      rfl
    · rw [scanNumber_other hc] at h ⊢
      exact scanUnsigned_whole (t := c :: s) hx h

theorem isIdentStart_of_isDigit {c : Char} (h : c.isDigit = true) : isIdentStart c = false := by
  by_contra hstart
  rw [Bool.not_eq_false] at hstart
  have hval : c.val.toNat = c.toNat := rfl
  have hbounds : ('A' : Char).val.toNat = 65 ∧ ('Z' : Char).val.toNat = 90 ∧
      ('a' : Char).val.toNat = 97 ∧ ('z' : Char).val.toNat = 122 ∧
      ('0' : Char).val.toNat = 48 ∧ ('9' : Char).val.toNat = 57 := by decide
  simp only [isIdentStart, isAlpha_eq, Char.isDigit, Bool.or_eq_true,
    Bool.and_eq_true, decide_eq_true_eq, beq_iff_eq, ge_iff_le, UInt32.le_iff_toNat_le] at h hstart
  rcases hstart with hletter | hunder
  · omega
  · subst hunder
    exact absurd h (by decide)

/-- A number is nothing that the alternatives in front of it read. -/
theorem scanToken_number {l t r : List Char} (h : scanNumber l = some (t, r)) :
    scanToken l = some (.number, t, r) := by
  cases l with
  | nil => cases h
  | cons c l' =>
    have hsigned : ∀ d, Char.isDigit d = true ∨ d = '.' ∨ d = '-' → d ≠ '"' ∧ isPunct d = false ∧
        isIdentStart d = false := by
      rintro d (hd | rfl | rfl)
      · refine ⟨fun heq => ?_, ?_, isIdentStart_of_isDigit hd⟩
        · subst heq
          exact absurd hd (by decide)
        · rw [isPunct, ← Bool.not_eq_true, List.contains_iff_mem]
          intro hmem
          simp only [List.mem_cons, List.not_mem_nil, or_false] at hmem
          rcases hmem with rfl | rfl | rfl | rfl | rfl | rfl | rfl <;> exact absurd hd (by decide)
      · decide
      · decide
    have hhead : (Char.isDigit c = true ∨ c = '.' ∨ c = '-') ∧ (c = '-' → l'.head? ≠ some '>') := by
      by_cases hc : c = '-'
      · subst hc
        refine ⟨.inr (.inr rfl), fun _ hgt => ?_⟩
        obtain ⟨s, rfl⟩ := List.head?_eq_some_iff.mp hgt
        cases h
      · rw [scanNumber_other hc] at h
        obtain ⟨d, s, heq, hd⟩ := scanUnsigned_head h
        obtain rfl : c = d := (List.cons.inj heq).1
        exact ⟨hd.imp_right .inl, fun hdash => absurd hdash hc⟩
    obtain ⟨hquote, hpunct, hident⟩ := hsigned c hhead.1
    rw [scanToken, scanString_eq_none.mpr fun hc => absurd hc hquote, scanArrow_eq_none.mpr hhead.2,
      scanPunct_eq_none.mpr hpunct, scanIdent_eq_none.mpr hident, h]
    rfl

theorem scanQuoted_rest {l t r : List Char} (h : scanQuoted l = some (t, r)) (r' : List Char) :
    scanQuoted (t ++ r') = some (t, r') := by
  fun_induction scanQuoted l generalizing t r with
  | case1 => cases h
  | case2 r =>
    cases h
    rw [List.cons_append, scanQuoted.eq_def]
    rfl
  | case3 => cases h
  | case4 => cases h
  | case5 d r₀ hd _ ih =>
    obtain ⟨p, hp, heq⟩ := Option.map_eq_some_iff.mp h
    cases heq
    have hmore : scanQuoted ('\\' :: d :: (p.1 ++ r')) =
        (scanQuoted (p.1 ++ r')).map fun q => ('\\' :: d :: q.1, q.2) := by
      rw [scanQuoted.eq_def]
      simp [hd]
    rw [List.cons_append, List.cons_append, hmore, ih hp]
    rfl
  | case6 c r₀ hc hb ih =>
    obtain ⟨p, hp, heq⟩ := Option.map_eq_some_iff.mp h
    cases heq
    rw [List.cons_append, scanQuoted.eq_def]
    dsimp only
    rw [if_neg hc, if_neg hb, ih hp]
    rfl

/-- A token is read as well in front of white space for a comment. -/
theorem scanToken_whole (hx : Blanked x) {t : List Char} {k : Kind} (hk : k ≠ .ws)
    (h : scanToken (t ++ kept x) = some (k, t, kept x)) :
    scanToken (t ++ whole x) = some (k, t, whole x) := by
  rcases scanToken_cases h with ⟨hm, rfl⟩ | ⟨hm, rfl⟩ | ⟨hm, rfl⟩ | ⟨hm, rfl⟩ | ⟨hm, rfl⟩ | ⟨-, rfl⟩
  · unfold scanString at hm
    split at hm
    · rename_i l heq
      obtain ⟨p, hp, hpair⟩ := Option.map_eq_some_iff.mp hm
      obtain ⟨rfl, -⟩ := Prod.mk.inj hpair
      exact scanToken_string (scanQuoted_rest hp (whole x))
    · cases hm
  · unfold scanArrow at hm
    split at hm
    · obtain ⟨rfl, -⟩ := Prod.mk.inj (Option.some.inj hm)
      exact scanToken_arrow _
    · cases hm
  · unfold scanPunct at hm
    split at hm
    · split at hm
      · rename_i hc
        obtain ⟨rfl, -⟩ := Prod.mk.inj (Option.some.inj hm)
        exact scanToken_punct hc _
      · cases hm
    · cases hm
  · have hw := scanIdent_whole hx hm
    cases t with
    | nil => exact absurd rfl (scanIdent_reads _ _ _ hw).2
    | cons c s =>
      refine scanToken_ident ?_ hw
      by_contra hc
      rw [List.cons_append, scanIdent_eq_none.mpr (Bool.not_eq_true _ ▸ hc)] at hw
      cases hw
  · exact scanToken_number (scanNumber_whole hx hm)
  · exact absurd rfl hk

theorem no_digits_whole (hx : Blanked x) (h : (kept x).takeWhile Char.isDigit = []) :
    (whole x).takeWhile Char.isDigit = [] := by
  have hdrop : (kept x).dropWhile Char.isDigit = [] ++ kept x := by
    have hsplit := List.takeWhile_append_dropWhile (p := Char.isDigit) (l := kept x)
    rw [h] at hsplit
    exact hsplit
  have hspan := (span_whole (fun _ => isDigit_of_space) hx hdrop).1
  rw [h] at hspan
  exact hspan

theorem no_number_whole (hx : Blanked x) (h : scanUnsigned (kept x) = none) :
    scanUnsigned (whole x) = none := by
  match x, hx, h with
  | [], _, h => exact h
  | (c, false) :: y, hx, _ =>
    have hc : Text.isSpace c = true := hx (c, false) List.mem_cons_self rfl
    refine scanUnsigned_eq_none.mpr ⟨isDigit_of_space hc, fun hdot => ?_⟩
    subst hdot
    exact absurd hc (by decide)
  | (c, true) :: y, hx, h =>
    obtain ⟨hdigit, hfrac⟩ := scanUnsigned_eq_none.mp (show scanUnsigned (c :: kept y) = none from h)
    exact scanUnsigned_eq_none.mpr ⟨hdigit, fun hdot => no_digits_whole hx.tail (hfrac hdot)⟩

/-- Where no token begins, none begins in front of white space for a comment. -/
theorem scanToken_skipped {c : Char} (hx : Blanked x) (h : scanToken (c :: kept x) = none)
    (hquote : c = '"' → scanQuoted (whole x) = none) : scanToken (c :: whole x) = none := by
  rw [scanToken_eq_none] at h ⊢
  rcases h with ⟨hc, -⟩ | ⟨hc, hgt, hnum⟩ | ⟨hc, hfrac⟩ | hother
  · exact .inl ⟨hc, hquote hc⟩
  · exact .inr (.inl ⟨hc, head_whole_ne hx (by decide) hgt, no_number_whole hx hnum⟩)
  · exact .inr (.inr (.inl ⟨hc, no_digits_whole hx hfrac⟩))
  · exact .inr (.inr (.inr hother))

end Ahead

/-! ## Both readings -/

/-- `Lexes gap l o`: behind the gap `gap`, `l` has the tokens `o`, or is refused.  White
space is read one character at a time. -/
inductive Lexes : List Char → List Char → Option (List String) → Prop
  | done (gap : List Char) : Lexes gap [] (some [])
  | skip {gap r : List Char} {c : Char} {o : Option (List String)} (h : scanToken (c :: r) = none)
      (rest : Lexes (gap ++ [c]) r o) : Lexes gap (c :: r) o
  | refused {gap l : List Char} (h : scanToken l ≠ none) (hguard : strayQuote gap l ≠ none) :
      Lexes gap l none
  | space {gap r : List Char} {c : Char} {o : Option (List String)} (hc : Text.isSpace c = true)
      (hguard : strayQuote gap (c :: r) = none) (rest : Lexes [] r o) : Lexes gap (c :: r) o
  | token {gap l t r : List Char} {k : Kind} {o : Option (List String)}
      (h : scanToken l = some (k, t, r)) (hk : k ≠ .ws) (hguard : strayQuote gap l = none)
      (rest : Lexes [] r o) : Lexes gap l (o.map (String.ofList t :: ·))

theorem scanToken_space {c : Char} (hc : Text.isSpace c = true) (r : List Char) :
    scanToken (c :: r) =
      some (.ws, (c :: r).takeWhile Text.isSpace, (c :: r).dropWhile Text.isSpace) := by
  have hne : ∀ d, Text.isSpace d = false → c ≠ d := by
    rintro d hd rfl
    rw [hd] at hc
    cases hc
  have hpunct : isPunct c = false := by
    rw [isPunct, ← Bool.not_eq_true, List.contains_iff_mem]
    intro hmem
    simp only [List.mem_cons, List.not_mem_nil, or_false] at hmem
    rcases hmem with rfl | rfl | rfl | rfl | rfl | rfl | rfl <;> exact absurd hc (by decide)
  have hnumber : scanNumber (c :: r) = none := by
    rw [scanNumber_other (hne '-' (by decide))]
    exact scanUnsigned_eq_none.mpr ⟨isDigit_of_space hc, fun hdot => absurd hdot (hne '.' (by decide))⟩
  have hspace : scanSpace (c :: r) =
      some ((c :: r).takeWhile Text.isSpace, (c :: r).dropWhile Text.isSpace) := by
    simp [scanSpace, hc]
  rw [scanToken, scanString_eq_none.mpr fun heq => absurd heq (hne '"' (by decide)),
    scanArrow_eq_none.mpr fun heq => absurd heq (hne '-' (by decide)), scanPunct_eq_none.mpr hpunct,
    scanIdent_eq_none.mpr (isIdentStart_of_space hc), hnumber, hspace]
  rfl

theorem Lexes.unique {gap l : List Char} {o o' : Option (List String)} (h : Lexes gap l o)
    (h' : Lexes gap l o') : o' = o := by
  have hnil : scanToken [] = none := tokenRe.run_nil
  induction h generalizing o' with
  | done gap =>
    cases h' with
    | done => rfl
    | refused h _ => exact absurd hnil h
    | token h _ _ _ =>
      rw [hnil] at h
      cases h
  | skip hm _ ih =>
    cases h' with
    | skip _ rest => exact ih rest
    | refused h _ => exact absurd hm h
    | space hc _ _ =>
      rw [scanToken_space hc] at hm
      cases hm
    | token h _ _ _ =>
      rw [hm] at h
      cases h
  | refused hm hguard =>
    cases h' with
    | done => exact absurd hnil hm
    | skip h _ => exact absurd h hm
    | refused => rfl
    | space _ h _ => exact absurd h hguard
    | token _ _ h _ => exact absurd h hguard
  | space hc hguard _ ih =>
    cases h' with
    | skip h _ =>
      rw [scanToken_space hc] at h
      cases h
    | refused _ h => exact absurd hguard h
    | space _ _ rest => exact ih rest
    | token h hk _ _ =>
      rw [scanToken_space hc] at h
      cases h
      exact absurd rfl hk
  | token hm hk hguard _ ih =>
    cases h' with
    | done =>
      rw [hnil] at hm
      cases hm
    | skip h _ =>
      rw [hm] at h
      cases h
    | refused _ h => exact absurd hguard h
    | space hc _ _ =>
      rw [scanToken_space hc] at hm
      cases hm
      exact absurd rfl hk
    | token h _ _ rest =>
      rw [hm] at h
      cases h
      rw [ih rest]

/-- A run of white space, one character after the other. -/
theorem Lexes.spaces {t r : List Char} {o : Option (List String)}
    (ht : ∀ c ∈ t, Text.isSpace c = true) (h : Lexes [] r o) : Lexes [] (t ++ r) o := by
  induction t with
  | nil => exact h
  | cons c t ih =>
    exact .space (ht c List.mem_cons_self) rfl (ih fun d hd => ht d (List.mem_cons_of_mem c hd))

theorem strayQuote_append {t : List Char} (ht : t ≠ []) (gap r : List Char) :
    strayQuote gap (t ++ r) = strayQuote gap t := by
  refine strayQuote_congr ?_ gap
  cases t with
  | nil => exact absurd rfl ht
  | cons c t => rfl

/-- The loop over the matches reads so. -/
theorem Scans.lexes {gap l tail : List Char} {ms : List (Match Kind)}
    (h : tokenRe.Scans gap l ms tail) (pos : Nat) : Lexes gap l (tokensOf pos ms).toOption := by
  induction h generalizing pos with
  | done gap => exact .done gap
  | skip hm _ ih => exact .skip hm (ih pos)
  | @found gap l t r tail k ms hm _ ih =>
    have hread : scanToken l = some (k, t, r) := hm
    obtain ⟨hl, hne⟩ := tokenRe.splits hm
    have hguard : strayQuote gap l = strayQuote gap t := by
      rw [hl]
      exact strayQuote_append hne gap r
    rw [tokensOf]
    cases hs : strayQuote gap t with
    | some i =>
      refine .refused (by rw [hread]; exact Option.some_ne_none _) ?_
      rw [hguard, hs]
      exact Option.some_ne_none _
    | none =>
      have hrest := ih (pos + gap.length + t.length)
      dsimp only
      by_cases hk : k = .ws
      · subst hk
        have hspaces := space_of_scanToken hread
        have hsame : Except.toOption (do
            let tokens ← tokensOf (pos + gap.length + t.length) ms
            return if Kind.ws = .ws then tokens else String.ofList t :: tokens) =
              (tokensOf (pos + gap.length + t.length) ms).toOption := by
          cases tokensOf (pos + gap.length + t.length) ms <;> rfl
        rw [hsame]
        cases t with
        | nil => exact absurd rfl hne
        | cons c t =>
          rw [hl] at hguard ⊢
          exact .space (hspaces c List.mem_cons_self) (hguard.trans hs)
            (.spaces (fun d hd => hspaces d (List.mem_cons_of_mem c hd)) hrest)
      · have hsame : Except.toOption (do
            let tokens ← tokensOf (pos + gap.length + t.length) ms
            return if k = .ws then tokens else String.ofList t :: tokens) =
              (tokensOf (pos + gap.length + t.length) ms).toOption.map (String.ofList t :: ·) := by
          simp only [if_neg hk]
          cases tokensOf (pos + gap.length + t.length) ms <;> rfl
        rw [hsame]
        exact .token hread hk (hguard.trans hs) hrest

theorem GuardAlike.cases {gap gap' text : List Char} (h : GuardAlike gap gap' text) :
    (strayQuote gap text = none ∧ strayQuote gap' text = none) ∨
      (strayQuote gap text ≠ none ∧ strayQuote gap' text ≠ none) := by
  unfold GuardAlike at h
  cases hs : strayQuote gap text with
  | none => exact .inl ⟨rfl, by simpa [hs] using h.symm⟩
  | some i =>
    refine .inr ⟨Option.some_ne_none i, fun hnone => ?_⟩
    rw [hs, hnone] at h
    cases h

theorem CommentsApart.lexes {gap gap' : List Char} {x : List Spot} (h : CommentsApart gap gap' x) :
    ∃ o, Lexes gap (kept x) o ∧ Lexes gap' (whole x) o := by
  induction h with
  | nil gap gap' => exact ⟨some [], .done gap, .done gap'⟩
  | @comment gap gap' c x hc hguard rest ih =>
    obtain ⟨o, hkept, hwhole⟩ := ih
    have hpass : strayQuote gap' (c :: whole x) = none :=
      (strayQuote_append (List.cons_ne_nil c []) gap' (whole x)).trans hguard
    exact ⟨o, hkept, .space hc hpass hwhole⟩
  | skipped hm hquote rest ih =>
    obtain ⟨o, hkept, hwhole⟩ := ih
    exact ⟨o, .skip hm hkept, .skip (scanToken_skipped rest.blanked hm hquote) hwhole⟩
  | @space gap gap' c x hc hguard rest ih =>
    obtain ⟨o, hkept, hwhole⟩ := ih
    have hread : ∀ r, scanToken (c :: r) ≠ none := fun r => by rw [scanToken_space hc]; simp
    have hgap : ∀ g r, strayQuote g (c :: r) = strayQuote g [c] :=
      fun g r => strayQuote_append (List.cons_ne_nil c []) g r
    rcases hguard.cases with ⟨hs, hs'⟩ | ⟨hs, hs'⟩
    · exact ⟨o, .space hc ((hgap gap _).trans hs) hkept, .space hc ((hgap gap' _).trans hs') hwhole⟩
    · exact ⟨none, .refused (hread _) fun hnone => hs ((hgap gap _).symm.trans hnone),
        .refused (hread _) fun hnone => hs' ((hgap gap' _).symm.trans hnone)⟩
  | @token gap gap' t k x hm hk hguard rest ih =>
    obtain ⟨o, hkept, hwhole⟩ := ih
    have hm' := scanToken_whole rest.blanked hk hm
    have hne : t ≠ [] := (tokenRe.splits hm).2
    have hgap : ∀ g r, strayQuote g (t ++ r) = strayQuote g t := fun g r => strayQuote_append hne g r
    rw [kept_keep, whole_keep]
    rcases hguard.cases with ⟨hs, hs'⟩ | ⟨hs, hs'⟩
    · exact ⟨_, .token hm hk ((hgap gap _).trans hs) hkept, .token hm' hk ((hgap gap' _).trans hs') hwhole⟩
    · exact ⟨none, .refused (by rw [hm]; simp) fun hnone => hs ((hgap gap _).symm.trans hnone),
        .refused (by rw [hm']; simp) fun hnone => hs' ((hgap gap' _).symm.trans hnone)⟩

theorem tokenize_lexes (l : List Char) : Lexes [] l (tokenize l).toOption :=
  Scans.lexes (Pattern.finditer_eq_iff.mp rfl) 0

/-- The linter's tokens are the parser's, where no comment stands within a token, nor
between a backslash and a quote of no token. -/
theorem comments_agree (source : List Char) (h : CommentsApart [] [] (spotsFrom .code source)) :
    EndAlike Eq (tokenize (stripComments source)) (tokenize (blankComments source)) := by
  obtain ⟨o, hkept, hwhole⟩ := h.lexes
  rw [kept_spots] at hkept
  rw [whole_spots] at hwhole
  have hstrip := hkept.unique (tokenize_lexes (stripComments source))
  have hblank := hwhole.unique (tokenize_lexes (blankComments source))
  rw [← hblank] at hstrip
  cases hs : tokenize (stripComments source) with
  | error e =>
    cases hb : tokenize (blankComments source) with
    | error e' => exact .error e e'
    | ok ts => simp [hs, hb, Except.toOption] at hstrip
  | ok ts =>
    cases hb : tokenize (blankComments source) with
    | error e' => simp [hs, hb, Except.toOption] at hstrip
    | ok ts' =>
      rw [hs, hb] at hstrip
      exact .ok (Option.some.inj hstrip)

/-- A comment behind a name, in front of a semicolon. -/
theorem comments_agree_behind : EndAlike Eq (tokenize (stripComments "a/*x*/;".toList))
    (tokenize (blankComments "a/*x*/;".toList)) :=
  comments_agree "a/*x*/;".toList <|
    have hblank : Text.isSpace ' ' = true := by decide
    have hend : CommentsApart [] [] [(';', true)] :=
      .token (t := [';']) (k := .punct) (x := []) (by decide) (by decide) rfl (.nil [] [])
    .token (t := ['a']) (k := .ident) (by decide) (by decide) rfl <|
      .comment hblank rfl <| .comment hblank rfl <| .comment hblank rfl <| .comment hblank rfl <|
      .comment hblank rfl hend

/-- The parser joins what stands on both sides of a comment; for the linter it is two
tokens. -/
theorem comment_joins_names : ¬ ∀ source : List Char,
    EndAlike Eq (tokenize (stripComments source)) (tokenize (blankComments source)) := by
  intro h
  have hstrip : tokenize (stripComments "a/**/b".toList) = .ok ["ab"] := by decide +kernel
  have hblank : tokenize (blankComments "a/**/b".toList) = .ok ["a", "b"] := by decide +kernel
  have hsame := h "a/**/b".toList
  rw [hstrip, hblank] at hsame
  cases hsame with
  | ok hsame => exact absurd hsame (by decide)

end Dot
end DotRunner
