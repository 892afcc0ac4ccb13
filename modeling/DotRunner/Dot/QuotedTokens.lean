import DotRunner.Dot.Layout
import DotRunner.Dot.Pieces
import DotRunner.Dot.Quotes

/-!
# Tokens of texts that differ inside quotes

The tokens of two such texts are the same but for literals in the same places.
-/

namespace DotRunner
namespace Dot

open Py

/-- A quoted text with its quotes. -/
def IsLiteral (t : List Char) : Prop := ∃ q, QuotedBody q ∧ t = '"' :: (q ++ ['"'])

/-- The same text, or a literal in both. -/
def TextAlike (t t' : List Char) : Prop := t' = t ∨ IsLiteral t ∧ IsLiteral t'

/-- Two readings of the head of a text end alike. -/
inductive ReadAlike {κ : Type} : Option (κ × List Char × List Char) →
    Option (κ × List Char × List Char) → Prop
  | none : ReadAlike none none
  | some {k : κ} {t t' r r' : List Char} (ht : TextAlike t t') (hr : Plain r r') :
      ReadAlike (some (k, t, r)) (some (k, t', r'))

theorem ReadAlike.refl {κ : Type} (m : Option (κ × List Char × List Char)) : ReadAlike m m := by
  cases m with
  | none => exact .none
  | some p => exact .some (.inl rfl) (.same _)

theorem ReadAlike.or {κ : Type} {m m' n n' : Option (κ × List Char × List Char)} (h : ReadAlike m m')
    (h' : ReadAlike n n') : ReadAlike (m.or n) (m'.or n') := by
  cases h with
  | none => exact h'
  | some ht hr => exact .some ht hr

/-! ## The alternatives -/

theorem scanQuoted_body {q : List Char} (hq : QuotedBody q) (r : List Char) :
    scanQuoted (q ++ '"' :: r) = some (q ++ ['"'], r) := by
  induction hq with
  | nil =>
    show scanQuoted ('"' :: r) = _
    rw [scanQuoted.eq_def]
    rfl
  | char hquote hslash _ ih =>
    rw [List.cons_append, scanQuoted.eq_def]
    dsimp only
    rw [if_neg hquote, if_neg hslash, ih]
    rfl
  | escape hfeed _ ih =>
    rw [List.cons_append, List.cons_append, scanQuoted.eq_def]
    dsimp only
    rw [if_neg (by decide), if_pos rfl, if_neg hfeed, ih]
    rfl

theorem scanString_alike {l l' : List Char} (h : Plain l l') :
    ReadAlike (tagged .string (scanString l)) (tagged .string (scanString l')) := by
  cases h with
  | same => exact .refl _
  | char hquote =>
    rw [scanString_eq_none.mpr fun hc => absurd hc hquote, scanString_eq_none.mpr fun hc => absurd hc hquote]
    exact .none
  | quoted hq hq' hr =>
    rw [scanString, scanString, scanQuoted_body hq, scanQuoted_body hq']
    exact .some (.inr ⟨⟨_, hq, rfl⟩, ⟨_, hq', rfl⟩⟩) hr

theorem scanArrow_alike {l l' : List Char} (h : Plain l l') :
    ReadAlike (tagged .arrow (scanArrow l)) (tagged .arrow (scanArrow l')) := by
  cases h with
  | same => exact .refl _
  | @char c r r' hquote hr =>
    by_cases hc : c = '-' ∧ r.head? = some '>'
    · obtain ⟨rfl, hhead⟩ := hc
      cases r with
      | nil => cases hhead
      | cons d r =>
        cases hhead
        obtain ⟨r'', rfl, hr'⟩ := hr.of_cons (by decide)
        exact .some (.inl rfl) hr'
    · rw [scanArrow_eq_none.mpr fun h₁ h₂ => hc ⟨h₁, h₂⟩,
        scanArrow_eq_none.mpr fun h₁ h₂ => hc ⟨h₁, by rw [← hr.head]; exact h₂⟩]
      exact .none
  | quoted => exact .none

theorem scanPunct_alike {l l' : List Char} (h : Plain l l') :
    ReadAlike (tagged .punct (scanPunct l)) (tagged .punct (scanPunct l')) := by
  cases h with
  | same => exact .refl _
  | @char c r r' _ hr =>
    rw [scanPunct, scanPunct]
    by_cases hc : isPunct c = true
    · rw [if_pos hc, if_pos hc]
      exact .some (.inl rfl) hr
    · rw [if_neg hc, if_neg hc]
      exact .none
  | quoted => exact .none

theorem scanQualifiers_dot {c : Char} (hc : isIdentStart c = true) (f : Nat) (r : List Char) :
    scanQualifiers (f + 1) ('.' :: c :: r) =
      ('.' :: c :: r.takeWhile isIdentChar ++ (scanQualifiers f (r.dropWhile isIdentChar)).1,
        (scanQualifiers f (r.dropWhile isIdentChar)).2) := by
  rw [scanQualifiers.eq_def]
  exact if_pos hc

/-- The bound of the qualifiers is not reached. -/
theorem scanQualifiers_alike {f f' : Nat} {l l' : List Char} (h : Plain l l') (hf : l.length ≤ f)
    (hf' : l'.length ≤ f') : (scanQualifiers f' l').1 = (scanQualifiers f l).1 ∧
      Plain (scanQualifiers f l).2 (scanQualifiers f' l').2 := by
  induction f generalizing f' l l' with
  | zero =>
    obtain rfl := List.length_eq_zero_iff.mp (Nat.le_zero.mp hf)
    obtain rfl := h.of_nil
    cases f' <;> exact ⟨rfl, .same []⟩
  | succ f ih =>
    have hstop : ∀ (f : Nat) (l : List Char),
        (∀ c r, l = '.' :: c :: r → isIdentStart c = false) → scanQualifiers f l = ([], l) := by
      intro f l hl
      cases f with
      | zero => rfl
      | succ f =>
        rw [scanQualifiers.eq_def]
        dsimp only
        split
        · rename_i c r
          rw [if_neg (by rw [hl c r rfl]; decide)]
        · rfl
    by_cases hgo : ∃ c r, l = '.' :: c :: r ∧ isIdentStart c = true
    · obtain ⟨c, r, rfl, hc⟩ := hgo
      have hquote : c ≠ '"' := by
        rintro rfl
        exact absurd hc (by decide)
      obtain ⟨l₁, rfl, h₁⟩ := h.of_cons (by decide)
      obtain ⟨r', rfl, hr⟩ := h₁.of_cons hquote
      cases f' with
      | zero => exact absurd hf' (by simp)
      | succ f' =>
        obtain ⟨htake, hdrop⟩ := hr.span (p := isIdentChar) (by decide)
        have hlen := List.length_dropWhile_le isIdentChar r
        have hlen' := List.length_dropWhile_le isIdentChar r'
        simp only [List.length_cons] at hf hf'
        obtain ⟨htext, hrest⟩ := @ih f' _ _ hdrop (by omega) (by omega)
        rw [scanQualifiers_dot hc, scanQualifiers_dot hc, htake, htext]
        exact ⟨rfl, hrest⟩
    · have hl : ∀ c r, l = '.' :: c :: r → isIdentStart c = false := fun c r heq =>
        Bool.eq_false_iff.mpr fun hc => hgo ⟨c, r, heq, hc⟩
      have hl' : ∀ c r, l' = '.' :: c :: r → isIdentStart c = false := by
        rintro c r rfl
        obtain ⟨l₁, rfl, h₁⟩ := h.symm.of_cons (by decide)
        cases l₁ with
        | nil => cases h₁.symm.of_nil
        | cons d l₁ =>
          have hd := h₁.head
          cases hd
          exact hl _ _ rfl
      rw [hstop _ l hl, hstop _ l' hl']
      exact ⟨rfl, h⟩

theorem scanIdent_alike {l l' : List Char} (h : Plain l l') :
    ReadAlike (tagged .ident (scanIdent l)) (tagged .ident (scanIdent l')) := by
  cases h with
  | same => exact .refl _
  | @char c r r' _ hr =>
    rw [scanIdent, scanIdent]
    by_cases hc : isIdentStart c = true
    · rw [if_pos hc, if_pos hc]
      obtain ⟨htake, hdrop⟩ := hr.span (p := isIdentChar) (by decide)
      obtain ⟨htext, hrest⟩ := scanQualifiers_alike hdrop
        (List.length_dropWhile_le isIdentChar r) (List.length_dropWhile_le isIdentChar r')
      dsimp only
      rw [htake, htext]
      exact .some (.inl rfl) hrest
    · rw [if_neg hc, if_neg hc]
      exact .none
  | quoted => exact .none

/-- Two readings of one text. -/
inductive SameText : Option (List Char × List Char) → Option (List Char × List Char) → Prop
  | none : SameText none none
  | some {t r r' : List Char} (hr : Plain r r') : SameText (some (t, r)) (some (t, r'))

theorem SameText.tagged {k : Kind} {m m' : Option (List Char × List Char)} (h : SameText m m') :
    ReadAlike (tagged k m) (tagged k m') := by
  cases h with
  | none => exact .none
  | some hr => exact .some (.inl rfl) hr

theorem dot_cases {l l' : List Char} (h : Plain l l') :
    (∃ r r', l = '.' :: r ∧ l' = '.' :: r' ∧ Plain r r') ∨
      (∀ r, l ≠ '.' :: r) ∧ ∀ r, l' ≠ '.' :: r := by
  by_cases hdot : ∃ r, l = '.' :: r
  · obtain ⟨r, rfl⟩ := hdot
    obtain ⟨r', rfl, hr⟩ := h.of_cons (by decide)
    exact .inl ⟨r, r', rfl, rfl, hr⟩
  · refine .inr ⟨fun r heq => hdot ⟨r, heq⟩, ?_⟩
    rintro r rfl
    obtain ⟨r', rfl, -⟩ := h.symm.of_cons (by decide)
    exact hdot ⟨r', rfl⟩

theorem scanUnsigned_alike {l l' : List Char} (h : Plain l l') :
    SameText (scanUnsigned l) (scanUnsigned l') := by
  have hdigit : Char.isDigit '"' = false := by decide
  obtain ⟨htake, hdrop⟩ := h.span hdigit
  unfold scanUnsigned
  dsimp only
  rw [htake]
  by_cases hempty : (l.takeWhile Char.isDigit).isEmpty = true
  · rw [if_pos hempty, if_pos hempty]
    rcases dot_cases h with ⟨r, r', rfl, rfl, hr⟩ | ⟨hl, hl'⟩
    · obtain ⟨hfrac, hrest⟩ := hr.span hdigit
      simp only [hfrac]
      by_cases hnone : (r.takeWhile Char.isDigit).isEmpty = true
      · rw [if_pos hnone, if_pos hnone]
        exact .none
      · rw [if_neg hnone, if_neg hnone]
        exact .some hrest
    · split
      · exact absurd rfl (hl _)
      · exact .none
  · rw [if_neg hempty, if_neg hempty]
    rcases dot_cases hdrop with ⟨r, r', hr₁, hr₂, hr⟩ | ⟨hl, hl'⟩
    · obtain ⟨hfrac, hrest⟩ := hr.span hdigit
      simp only [hr₁, hr₂, hfrac]
      exact .some hrest
    · split
      · exact absurd ‹_› (hl _)
      · exact .some hdrop

theorem scanNumber_alike {l l' : List Char} (h : Plain l l') :
    SameText (scanNumber l) (scanNumber l') := by
  by_cases hdash : ∃ r, l = '-' :: r
  · obtain ⟨r, rfl⟩ := hdash
    obtain ⟨r', rfl, hr⟩ := h.of_cons (by decide)
    rw [scanNumber, scanNumber]
    generalize hm : scanUnsigned r = m
    generalize hm' : scanUnsigned r' = m'
    have hsame := scanUnsigned_alike hr
    rw [hm, hm'] at hsame
    cases hsame with
    | none => exact .none
    | some hr => exact .some hr
  · have hl : ∀ r, l ≠ '-' :: r := fun r heq => hdash ⟨r, heq⟩
    have hl' : ∀ r, l' ≠ '-' :: r := by
      rintro r rfl
      obtain ⟨r', rfl, -⟩ := h.symm.of_cons (by decide)
      exact hl _ rfl
    rw [scanNumber, scanNumber]
    · exact scanUnsigned_alike h
    · exact hl'
    · exact hl

theorem scanSpace_alike {l l' : List Char} (h : Plain l l') :
    SameText (scanSpace l) (scanSpace l') := by
  obtain ⟨htake, hdrop⟩ := h.span Plain.space_quote
  unfold scanSpace
  rw [htake]
  by_cases hempty : (l.takeWhile Text.isSpace).isEmpty = true
  · rw [if_pos hempty, if_pos hempty]
    exact .none
  · rw [if_neg hempty, if_neg hempty]
    exact .some hdrop

/-- The pattern reads both alike. -/
theorem scanToken_alike {l l' : List Char} (h : Plain l l') :
    ReadAlike (scanToken l) (scanToken l') :=
  (scanString_alike h).or <| (scanArrow_alike h).or <| (scanPunct_alike h).or <|
    (scanIdent_alike h).or <| (scanNumber_alike h).tagged.or (scanSpace_alike h).tagged

/-! ## The matches -/

/-- The same match, or a literal in both. -/
structure MatchAlike (m m' : Match Kind) : Prop where
  gap : m'.gap = m.gap
  kind : m'.kind = m.kind
  text : TextAlike m.text m'.text

theorem Scans.alike {gap l l' tail : List Char} {ms : List (Match Kind)}
    (hs : tokenRe.Scans gap l ms tail) (h : Plain l l') :
    ∃ ms' tail', tokenRe.Scans gap l' ms' tail' ∧ List.Forall₂ MatchAlike ms ms' := by
  induction hs generalizing l' with
  | done gap =>
    rw [h.of_nil]
    exact ⟨[], gap, .done gap, .nil⟩
  | @skip gap r tail c ms hr _ ih =>
    have hread : ReadAlike (tokenRe.run (c :: r)) (tokenRe.run l') := scanToken_alike h
    rw [hr] at hread
    have hr' : tokenRe.run l' = none := by
      cases hm : tokenRe.run l' with
      | none => rfl
      | some m =>
        rw [hm] at hread
        cases hread
    have hrest : ∃ r', l' = c :: r' ∧ Plain r r' := by
      by_cases hc : c = '"'
      · subst hc
        cases h with
        | same => exact ⟨r, rfl, .same r⟩
        | char hquote => exact absurd rfl hquote
        | @quoted _ _ r₁ _ hq _ _ =>
          have hsome := scanToken_string (scanQuoted_body hq r₁)
          exact absurd (hsome.symm.trans hr) (by simp)
      · exact h.of_cons hc
    obtain ⟨r', rfl, hplain⟩ := hrest
    obtain ⟨ms', tail', hscans, hall⟩ := ih hplain
    exact ⟨ms', tail', .skip hr' hscans, hall⟩
  | @found gap l t r tail k ms hr _ ih =>
    have hread : ReadAlike (tokenRe.run l) (tokenRe.run l') := scanToken_alike h
    rw [hr] at hread
    generalize hm : tokenRe.run l' = m at hread
    cases hread with
    | some ht hplain =>
      obtain ⟨ms', tail', hscans, hall⟩ := ih hplain
      exact ⟨_, tail', .found hm hscans, .cons ⟨rfl, rfl, ht⟩ hall⟩

/-! ## The tokens -/

/-- The same token, or a literal in both. -/
def TokenAlike (t t' : String) : Prop := t' = t ∨ IsLiteral t.toList ∧ IsLiteral t'.toList

/-- Both fail, or both end in results that are related. -/
inductive EndAlike {α : Type} (R : α → α → Prop) : Except PyExc α → Except PyExc α → Prop
  | error (e e' : PyExc) : EndAlike R (.error e) (.error e')
  | ok {a a' : α} (h : R a a') : EndAlike R (.ok a) (.ok a')

theorem TextAlike.head {t t' : List Char} (h : TextAlike t t') : t'.head? = t.head? := by
  rcases h with rfl | ⟨⟨q, -, rfl⟩, ⟨q', -, rfl⟩⟩
  · rfl
  · rfl

theorem strayQuote_congr {text text' : List Char} (h : text'.head? = text.head?) (gap : List Char) :
    strayQuote gap text' = strayQuote gap text := by
  unfold strayQuote
  split
  · rfl
  · rw [List.head?_append, List.head?_append, h]

theorem tokensOf_alike {ms ms' : List (Match Kind)} (h : List.Forall₂ MatchAlike ms ms')
    (pos pos' : Nat) : EndAlike (List.Forall₂ TokenAlike) (tokensOf pos ms) (tokensOf pos' ms') := by
  induction h generalizing pos pos' with
  | nil => exact .ok .nil
  | @cons m m' ms ms' hm _ ih =>
    rw [tokensOf, tokensOf, hm.gap, strayQuote_congr hm.text.head]
    cases strayQuote m.gap m.text with
    | some i => exact .error _ _
    | none =>
      dsimp only
      have hrest := ih (pos + m.gap.length + m.text.length) (pos' + m.gap.length + m'.text.length)
      generalize tokensOf (pos + m.gap.length + m.text.length) ms = x at hrest
      generalize tokensOf (pos' + m.gap.length + m'.text.length) ms' = x' at hrest
      cases hrest with
      | error e e' => exact .error e e'
      | ok hts =>
        refine .ok ?_
        rw [hm.kind]
        by_cases hk : m.kind = .ws
        · rw [if_pos hk, if_pos hk]
          exact hts
        · rw [if_neg hk, if_neg hk]
          refine .cons ?_ hts
          rcases hm.text with heq | ⟨hlit, hlit'⟩
          · exact .inl (by rw [heq])
          · exact .inr (by rw [String.toList_ofList, String.toList_ofList]; exact ⟨hlit, hlit'⟩)

/-- Texts that differ inside quotes tokenize to the same tokens but for literals in the
same places, or neither tokenizes. -/
theorem tokenize_alike {l l' : List Char} (h : Plain l l') :
    EndAlike (List.Forall₂ TokenAlike) (tokenize l) (tokenize l') := by
  have hscans : tokenRe.Scans [] l (tokenRe.finditer l).1 (tokenRe.finditer l).2 :=
    Pattern.finditer_eq_iff.mp rfl
  obtain ⟨ms', tail', hscans', hall⟩ := Scans.alike hscans h
  unfold tokenize
  rw [Pattern.finditer_eq_iff.mpr hscans']
  exact tokensOf_alike hall 0 0

end Dot
end DotRunner
