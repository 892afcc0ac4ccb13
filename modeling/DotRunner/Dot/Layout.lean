import DotRunner.Dot.Lexer
import Mathlib.Data.List.TakeWhile

/-!
# Texts the tokenizer reads whole

A text laid out from tokens, with white space between them, tokenizes to those
tokens.
-/

namespace DotRunner
namespace Dot

open Py

/-- `l` is made of the tokens `ts`, with white space between them. -/
inductive Laid : List Char → List String → Prop
  | nil : Laid [] []
  | space {l t r : List Char} {ts : List String} (h : scanToken l = some (.ws, t, r))
      (rest : Laid r ts) : Laid l ts
  | token {l t r : List Char} {k : Kind} {ts : List String} (h : scanToken l = some (k, t, r))
      (hk : k ≠ .ws) (rest : Laid r ts) : Laid l (String.ofList t :: ts)

theorem Laid.scans {l : List Char} {ts : List String} (h : Laid l ts) :
    ∃ ms, tokenRe.Scans [] l ms [] ∧ ∀ pos, tokensOf pos ms = .ok ts := by
  induction h with
  | nil => exact ⟨[], .done [], fun _ => rfl⟩
  | space h _ ih =>
    obtain ⟨ms, hscans, htokens⟩ := ih
    refine ⟨⟨[], .ws, _⟩ :: ms, .found h hscans, fun pos => ?_⟩
    rw [tokensOf]
    show (tokensOf _ ms >>= fun tokens => _) = _
    rw [htokens]
    rfl
  | token h hk _ ih =>
    obtain ⟨ms, hscans, htokens⟩ := ih
    refine ⟨⟨[], _, _⟩ :: ms, .found h hscans, fun pos => ?_⟩
    rw [tokensOf]
    show (tokensOf _ ms >>= fun tokens => _) = _
    rw [htokens]
    show Except.ok (if _ = _ then _ else _) = _
    rw [if_neg hk]

theorem Laid.tokenize {l : List Char} {ts : List String} (h : Laid l ts) : tokenize l = .ok ts := by
  obtain ⟨ms, hscans, htokens⟩ := h.scans
  unfold Dot.tokenize
  rw [Pattern.finditer_eq_iff.mpr hscans]
  exact htokens 0

/-! ## One token -/

theorem isIdentStart_ne {c d : Char} (hd : isIdentStart d = false) (h : isIdentStart c = true) :
    c ≠ d := by
  rintro rfl
  rw [hd] at h
  cases h

theorem isPunct_of_isIdentStart {c : Char} (h : isIdentStart c = true) : isPunct c = false := by
  rw [isPunct, ← Bool.not_eq_true, List.contains_iff_mem]
  intro hmem
  simp only [List.mem_cons, List.not_mem_nil, or_false] at hmem
  rcases hmem with rfl | rfl | rfl | rfl | rfl | rfl | rfl <;> exact absurd h (by decide)

theorem scanToken_string {l t r : List Char} (h : scanQuoted l = some (t, r)) :
    scanToken ('"' :: l) = some (.string, '"' :: t, r) := by
  have hstring : scanString ('"' :: l) = some ('"' :: t, r) := by
    rw [scanString, h]
    rfl
  rw [scanToken, hstring]
  rfl

theorem scanToken_arrow (r : List Char) :
    scanToken ('-' :: '>' :: r) = some (.arrow, ['-', '>'], r) := rfl

theorem scanToken_punct {c : Char} (h : isPunct c = true) (r : List Char) :
    scanToken (c :: r) = some (.punct, [c], r) := by
  have hquote : c ≠ '"' := by
    rintro rfl
    exact absurd h (by decide)
  have hdash : c ≠ '-' := by
    rintro rfl
    exact absurd h (by decide)
  have hstring : scanString (c :: r) = none := by simp [scanString, hquote]
  have harrow : scanArrow (c :: r) = none := by simp [scanArrow, hdash]
  have hpunct : scanPunct (c :: r) = some ([c], r) := by simp [scanPunct, h]
  rw [scanToken, hstring, harrow, hpunct]
  rfl

theorem scanToken_ident {c : Char} {l t r : List Char} (hc : isIdentStart c = true)
    (h : scanIdent (c :: l) = some (t, r)) : scanToken (c :: l) = some (.ident, t, r) := by
  have hstring : scanString (c :: l) = none := by
    simp [scanString, isIdentStart_ne (d := '"') (by decide) hc]
  have harrow : scanArrow (c :: l) = none := by
    simp [scanArrow, isIdentStart_ne (d := '-') (by decide) hc]
  have hpunct : scanPunct (c :: l) = none := by simp [scanPunct, isPunct_of_isIdentStart hc]
  rw [scanToken, hstring, harrow, hpunct, h]
  rfl

/-- A character that no name goes on with. -/
def EndsWord (r : List Char) : Prop := ∀ c, r.head? = some c → isIdentChar c = false ∧ c ≠ '.'

theorem scanQualifiers_of_endsWord {r : List Char} (h : EndsWord r) (fuel : Nat) :
    scanQualifiers fuel r = ([], r) := by
  cases fuel with
  | zero => rfl
  | succ fuel =>
    unfold scanQualifiers
    split
    · exact absurd rfl (h '.' rfl).2
    · rfl

theorem takeWhile_of_endsWord {w r : List Char} (hw : w.all isIdentChar = true) (h : EndsWord r) :
    (w ++ r).takeWhile isIdentChar = w ∧ (w ++ r).dropWhile isIdentChar = r := by
  have hall : ∀ c ∈ w, isIdentChar c = true := List.all_eq_true.mp hw
  rw [List.takeWhile_append_of_pos hall, List.dropWhile_append_of_pos hall]
  cases r with
  | nil => simp
  | cons c r => simp [(h c rfl).1]

/-- A name is read to its end. -/
theorem scanToken_word {c : Char} {w r : List Char} (hc : isIdentStart c = true)
    (hw : w.all isIdentChar = true) (h : EndsWord r) :
    scanToken (c :: w ++ r) = some (.ident, c :: w, r) := by
  refine scanToken_ident hc ?_
  obtain ⟨htake, hdrop⟩ := takeWhile_of_endsWord hw h
  rw [List.append_eq, scanIdent, if_pos hc]
  dsimp only
  rw [htake, hdrop, scanQualifiers_of_endsWord h]
  simp

end Dot
end DotRunner
