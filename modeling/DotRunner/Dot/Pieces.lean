import DotRunner.Dot.Lexer
import Mathlib.Data.List.TakeWhile

/-!
# What becomes of each character

A body falls into the texts of its tokens, white space, and characters at which
nothing in the pattern matches.
-/

namespace DotRunner
namespace Dot

open Py

/-- No alternative matches at `c` in front of `r`: a quote that nothing closes, a
dash that no arrow or number starts with, a dot without digits, or a character of
no token. -/
def Unlexable (c : Char) (r : List Char) : Prop :=
  (c = '"' ∧ scanQuoted r = none) ∨
  (c = '-' ∧ r.head? ≠ some '>' ∧ scanUnsigned r = none) ∨
  (c = '.' ∧ r.takeWhile Char.isDigit = []) ∨
  (c ∉ ['"', '-', '.'] ∧ isPunct c = false ∧ isIdentStart c = false ∧ c.isDigit = false ∧
    Text.isSpace c = false)

section Alternatives

variable {c : Char} {r : List Char}

theorem scanString_eq_none : scanString (c :: r) = none ↔ (c = '"' → scanQuoted r = none) := by
  by_cases hc : c = '"'
  · subst hc
    simp [scanString]
  · simp [scanString, hc]

theorem scanArrow_eq_none : scanArrow (c :: r) = none ↔ (c = '-' → r.head? ≠ some '>') := by
  by_cases hc : c = '-'
  · subst hc
    cases r with
    | nil => simp [scanArrow]
    | cons d r =>
      by_cases hd : d = '>'
      · simp [scanArrow, hd]
      · simp [scanArrow, hd]
  · simp [scanArrow, hc]

theorem scanPunct_eq_none : scanPunct (c :: r) = none ↔ isPunct c = false := by
  cases hc : isPunct c <;> simp [scanPunct, hc]

theorem scanIdent_eq_none : scanIdent (c :: r) = none ↔ isIdentStart c = false := by
  cases hc : isIdentStart c <;> simp [scanIdent, hc]

theorem scanSpace_eq_none : scanSpace (c :: r) = none ↔ Text.isSpace c = false := by
  cases hc : Text.isSpace c <;> simp [scanSpace, hc]

theorem scanUnsigned_eq_none : scanUnsigned (c :: r) = none ↔
    c.isDigit = false ∧ (c = '.' → r.takeWhile Char.isDigit = []) := by
  cases hc : c.isDigit with
  | true =>
    have hdot : c ≠ '.' := by
      rintro rfl
      exact absurd hc (by decide)
    simp only [scanUnsigned, List.takeWhile_cons, hc, if_true, List.isEmpty_cons, Bool.false_eq_true,
      if_false, false_and, iff_false, reduceCtorEq]
    split <;> exact Option.some_ne_none _
  | false =>
    by_cases hdot : c = '.'
    · subst hdot
      simp [scanUnsigned]
    · simp [scanUnsigned, hc, hdot]

theorem scanNumber_eq_none : scanNumber (c :: r) = none ↔
    if c = '-' then scanUnsigned r = none else scanUnsigned (c :: r) = none := by
  by_cases hc : c = '-'
  · subst hc
    simp [scanNumber]
  · simp [scanNumber, hc]

theorem tagged_eq_none {k : Kind} {m : Option (List Char × List Char)} :
    tagged k m = none ↔ m = none := Option.map_eq_none_iff

theorem scanToken_eq_none : scanToken (c :: r) = none ↔ Unlexable c r := by
  simp only [scanToken, Option.or_eq_none_iff, tagged_eq_none, scanString_eq_none,
    scanArrow_eq_none, scanPunct_eq_none, scanIdent_eq_none, scanNumber_eq_none,
    scanSpace_eq_none, Unlexable]
  by_cases hquote : c = '"'
  · subst hquote
    have hbare : isPunct '"' = false ∧ isIdentStart '"' = false ∧ Char.isDigit '"' = false ∧
        Text.isSpace '"' = false := by decide
    simp [hbare, scanUnsigned_eq_none]
  by_cases hdash : c = '-'
  · subst hdash
    have hbare : isPunct '-' = false ∧ isIdentStart '-' = false ∧ Text.isSpace '-' = false := by
      decide
    simp [hbare]
  by_cases hdot : c = '.'
  · subst hdot
    have hbare : isPunct '.' = false ∧ isIdentStart '.' = false ∧ Char.isDigit '.' = false ∧
        Text.isSpace '.' = false := by decide
    simp [hbare, scanUnsigned_eq_none]
  simp [hquote, hdash, hdot, scanUnsigned_eq_none]

end Alternatives

/-! ## Pieces -/

inductive Piece where
  | token (text : List Char)
  | blank (text : List Char)
  | skipped (c : Char)

namespace Piece

def text : Piece → List Char
  | token t => t
  | blank t => t
  | skipped c => [c]

def token? : Piece → Option String
  | token t => some (String.ofList t)
  | _ => none

def ofMatch (m : Match Kind) : Piece := if m.kind = .ws then blank m.text else token m.text

theorem ofMatch_text (m : Match Kind) : (ofMatch m).text = m.text := by
  unfold ofMatch
  split <;> rfl

/-- The pieces of the matches, of the gaps and of the tail. -/
def ofMatches (ms : List (Match Kind)) (tail : List Char) : List Piece :=
  (ms.flatMap fun m => m.gap.map skipped ++ [ofMatch m]) ++ tail.map skipped

theorem flatMap_skipped (l : List Char) : (l.map skipped).flatMap text = l := by
  induction l with
  | nil => rfl
  | cons c l ih => rw [List.map_cons, List.flatMap_cons, ih]; rfl

theorem filterMap_skipped (l : List Char) : (l.map skipped).filterMap token? = [] := by
  rw [List.filterMap_map]
  exact List.filterMap_eq_nil_iff.mpr fun _ _ => rfl

end Piece

/-- `pieces` are what the scan makes of `l`: a token or white space where the
pattern matches, and one lost character where it does not. -/
inductive Lexed : List Char → List Piece → Prop
  | nil : Lexed [] []
  | token {l t r : List Char} {k : Kind} {ps : List Piece} (h : scanToken l = some (k, t, r))
      (hk : k ≠ .ws) (rest : Lexed r ps) : Lexed l (.token t :: ps)
  | blank {l t r : List Char} {ps : List Piece} (h : scanToken l = some (.ws, t, r))
      (space : ∀ c ∈ t, Text.isSpace c = true) (rest : Lexed r ps) : Lexed l (.blank t :: ps)
  | skipped {c : Char} {r : List Char} {ps : List Piece} (h : Unlexable c r) (rest : Lexed r ps) :
      Lexed (c :: r) (.skipped c :: ps)

/-- The pieces, end to end, are the body. -/
theorem Lexed.text {l : List Char} {ps : List Piece} (h : Lexed l ps) : ps.flatMap Piece.text = l := by
  induction h with
  | nil => rfl
  | token h _ _ ih =>
    obtain ⟨rfl, -⟩ := tokenRe.splits h
    rw [List.flatMap_cons, ih]
    rfl
  | blank h _ _ ih =>
    obtain ⟨rfl, -⟩ := tokenRe.splits h
    rw [List.flatMap_cons, ih]
    rfl
  | skipped _ _ ih =>
    rw [List.flatMap_cons, ih]
    rfl

/-- White space is read as white space only. -/
theorem space_of_scanToken {l t r : List Char} (h : scanToken l = some (.ws, t, r)) :
    ∀ c ∈ t, Text.isSpace c = true := by
  rcases scanToken_cases h with ⟨-, hk⟩ | ⟨-, hk⟩ | ⟨-, hk⟩ | ⟨-, hk⟩ | ⟨-, hk⟩ | ⟨hspace, -⟩
  · cases hk
  · cases hk
  · cases hk
  · cases hk
  · cases hk
  · unfold scanSpace at hspace
    split at hspace
    · cases hspace
    · cases hspace
      exact fun c hc => List.mem_takeWhile_imp hc

theorem Scans.lexed {gap l tail : List Char} {ms : List (Match Kind)}
    (h : tokenRe.Scans gap l ms tail) :
    ∃ ps, Piece.ofMatches ms tail = gap.map Piece.skipped ++ ps ∧ Lexed l ps := by
  induction h with
  | done gap => exact ⟨[], by simp [Piece.ofMatches], .nil⟩
  | @skip gap r tail c ms hr _ ih =>
    obtain ⟨ps, hps, hlexed⟩ := ih
    refine ⟨.skipped c :: ps, ?_, .skipped (scanToken_eq_none.mp hr) hlexed⟩
    rw [hps]
    simp
  | @found gap l t r tail k ms hr _ ih =>
    obtain ⟨ps, hps, hlexed⟩ := ih
    refine ⟨Piece.ofMatch ⟨gap, k, t⟩ :: ps, ?_, ?_⟩
    · have hrest : Piece.ofMatches ms tail = ps := hps
      rw [← hrest]
      simp [Piece.ofMatches]
    · unfold Piece.ofMatch
      by_cases hk : k = .ws
      · subst hk
        exact .blank hr (space_of_scanToken hr) hlexed
      · rw [if_neg hk]
        exact .token hr hk hlexed

/-! ## The guard -/

/-- The guard stops at a backslash that a quote follows. -/
theorem strayQuote_some {gap text : List Char} {i : Nat} (h : strayQuote gap text = some i) :
    ∃ before after, gap = before ++ '\\' :: after ∧ (after ++ text).head? = some '"' := by
  unfold strayQuote at h
  have hsplit := List.takeWhile_append_dropWhile (p := (· != '\\')) (l := gap)
  split at h
  · cases h
  · rename_i b after hdrop
    split at h
    · rename_i hhead
      have hb : (b != '\\') = false := by
        have hfirst := List.head_dropWhile_not (l := gap) (· != '\\') (by rw [hdrop]; simp)
        simpa [hdrop] using hfirst
      have hbs : b = '\\' := by simpa using hb
      subst hbs
      exact ⟨_, after, by rw [← hdrop, hsplit], hhead⟩
    · cases h

/-- Of a list of matches the tokens come out in order, unless the guard stops. -/
theorem tokensOf_cases (pos : Nat) (ms : List (Match Kind)) (tail : List Char) :
    tokensOf pos ms = .ok ((Piece.ofMatches ms tail).filterMap Piece.token?) ∨
      (∃ text, tokensOf pos ms = .error (.valueError text)) ∧
        ∃ before after, Piece.ofMatches ms tail = before ++ .skipped '\\' :: after ∧
          (after.flatMap Piece.text).head? = some '"' := by
  induction ms generalizing pos with
  | nil =>
    refine .inl ?_
    rw [tokensOf, Piece.ofMatches, List.flatMap_nil, List.nil_append, Piece.filterMap_skipped]
  | cons m ms ih =>
    have hcons : Piece.ofMatches (m :: ms) tail =
        m.gap.map Piece.skipped ++ Piece.ofMatch m :: Piece.ofMatches ms tail := by
      simp [Piece.ofMatches]
    rw [hcons]
    cases hstray : strayQuote m.gap m.text with
    | some i =>
      refine .inr ⟨⟨_, by rw [tokensOf, hstray]; rfl⟩, ?_⟩
      obtain ⟨before, after, hgap, hhead⟩ := strayQuote_some hstray
      refine ⟨before.map .skipped,
        after.map .skipped ++ Piece.ofMatch m :: Piece.ofMatches ms tail, ?_, ?_⟩
      · rw [hgap]
        simp
      · rw [List.flatMap_append, List.flatMap_cons, Piece.flatMap_skipped, Piece.ofMatch_text,
          ← List.append_assoc, List.head?_append, hhead]
        rfl
    | none =>
      rcases ih (pos + m.gap.length + m.text.length) with hok | ⟨⟨text, herror⟩, before, after, hps, hhead⟩
      · refine .inl ?_
        rw [tokensOf, hstray]
        simp only [hok, List.filterMap_append, Piece.filterMap_skipped, List.nil_append]
        show Except.ok _ = Except.ok _
        unfold Piece.ofMatch
        by_cases hk : m.kind = .ws
        · rw [if_pos hk, if_pos hk]
          rfl
        · rw [if_neg hk, if_neg hk]
          rfl
      · refine .inr ⟨⟨text, ?_⟩, m.gap.map .skipped ++ Piece.ofMatch m :: before, after, ?_, hhead⟩
        · rw [tokensOf, hstray]
          simp only [herror]
          rfl
        · rw [hps]
          simp

/-- Every character of a body belongs to one token, to white space, or to what
nothing in the pattern matches at; the last is lost, and refused only for a
backslash in front of a quote. -/
theorem tokenize_accounts (body : List Char) :
    ∃ pieces, Lexed body pieces ∧ pieces.flatMap Piece.text = body ∧
      (tokenize body = .ok (pieces.filterMap Piece.token?) ∨
        (∃ text, tokenize body = .error (.valueError text)) ∧
          ∃ before after, pieces = before ++ .skipped '\\' :: after ∧
            (after.flatMap Piece.text).head? = some '"') := by
  have hscans : tokenRe.Scans [] body (tokenRe.finditer body).1 (tokenRe.finditer body).2 :=
    Pattern.finditer_eq_iff.mp rfl
  obtain ⟨ps, hps, hlexed⟩ := Scans.lexed hscans
  have hpieces : Piece.ofMatches (tokenRe.finditer body).1 (tokenRe.finditer body).2 = ps := hps
  refine ⟨ps, hlexed, hlexed.text, ?_⟩
  rw [← hpieces]
  exact tokensOf_cases 0 _ _

/-- A hyphen in a name is dropped: `a-b` is read as two names. -/
theorem hyphen_dropped :
    ¬ ∀ body : List Char, (∃ text, tokenize body = .error (.valueError text)) ∨
      ∃ pieces : List Piece, pieces.flatMap Piece.text = body ∧
        (∀ p ∈ pieces, ∀ c, p ≠ .skipped c) ∧
        (∀ t, .blank t ∈ pieces → ∀ c ∈ t, Text.isSpace c = true) ∧
        tokenize body = .ok (pieces.filterMap Piece.token?) := by
  intro h
  have hread : tokenize "a-b".toList = .ok ["a", "b"] := by decide +kernel
  rcases h "a-b".toList with ⟨text, herror⟩ | ⟨pieces, htext, hkept, hblank, hok⟩
  · rw [hread] at herror
    cases herror
  · rw [hread] at hok
    have htokens : pieces.filterMap Piece.token? = ["a", "b"] := (Except.ok.inj hok).symm
    have hmem : '-' ∈ pieces.flatMap Piece.text := by
      rw [htext]
      decide
    obtain ⟨p, hp, hc⟩ := List.mem_flatMap.mp hmem
    cases p with
    | token t =>
      have ht : String.ofList t ∈ ["a", "b"] := by
        rw [← htokens]
        exact List.mem_filterMap.mpr ⟨.token t, hp, rfl⟩
      have hlist : t = ['a'] ∨ t = ['b'] := by
        simp only [List.mem_cons, List.not_mem_nil, or_false] at ht
        rcases ht with ht | ht
        · exact .inl (by simpa using congrArg String.toList ht)
        · exact .inr (by simpa using congrArg String.toList ht)
      rcases hlist with rfl | rfl
      · exact absurd hc (by decide)
      · exact absurd hc (by decide)
    | blank t => exact absurd (hblank t hp '-' hc) (by decide)
    | skipped c => exact hkept _ hp c rfl

end Dot
end DotRunner
