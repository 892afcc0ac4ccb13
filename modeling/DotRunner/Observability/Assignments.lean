import Mathlib.Data.List.Infix
import Mathlib.Data.List.TakeWhile
import DotRunner.Py.Strip
import DotRunner.Observability.Redaction

/-!
# Assignments in a redacted text

Where the value of an assignment was replaced, an assignment is found once more only
if it runs over the marker: what matches in front of a marker is told from the text in
front of it, and a marker behind a name and its quote is no value.
-/

namespace DotRunner
namespace Observability

open Py Py.Pattern

/-! ## The parts of an assignment -/

/-- A name, the signs around `=` and what the value begins. -/
structure Parts where
  name : List Char
  before : List Char
  after : List Char
  value : List Char
  name_chars : ∀ c ∈ name, isNameChar c = true
  before_spaces : ∀ c ∈ before, Text.isSpace c = true
  after_spaces : ∀ c ∈ after, Text.isSpace c = true
  value_starts : value.dropWhile Text.isSpace = value

namespace Parts

def text (p : Parts) : List Char := p.name ++ (p.before ++ '=' :: (p.after ++ p.value))

end Parts

theorem not_nameChar_of_isSpace {c : Char} (h : Text.isSpace c = true) : isNameChar c = false := by
  have hrange : ∀ first count, (∀ d < count, isNameChar (Char.ofNat (first + d)) = false) →
      first ≤ c.toNat → c.toNat < first + count → isNameChar c = false := by
    intro first count hall hle hlt
    have hc := hall (c.toNat - first) (by omega)
    rwa [Nat.add_sub_cancel' hle, Char.ofNat_toNat] at hc
  have hcode : ∀ code, isNameChar (Char.ofNat code) = false → c.toNat = code →
      isNameChar c = false := by
    intro code hfalse heq
    rwa [← heq, Char.ofNat_toNat] at hfalse
  simp only [Text.isSpace, Bool.or_eq_true, Bool.and_eq_true, decide_eq_true_eq, beq_iff_eq] at h
  rcases h with (((((((((h | h) | h) | h) | h) | h) | h) | h) | h) | h) | h
  · exact hrange 9 5 (by decide +kernel) h.1 (Nat.lt_succ_of_le h.2)
  · exact hrange 28 5 (by decide +kernel) h.1 (Nat.lt_succ_of_le h.2)
  · exact hcode _ (by decide +kernel) h
  · exact hcode _ (by decide +kernel) h
  · exact hcode _ (by decide +kernel) h
  · exact hrange 0x2000 11 (by decide +kernel) h.1 (Nat.lt_succ_of_le h.2)
  all_goals exact hcode _ (by decide +kernel) h

theorem takeWhile_stop {p : Char → Bool} {c : Char} (hc : p c = false) (a z y : List Char) :
    (a ++ c :: z).takeWhile p <+: (a ++ y).takeWhile p := by
  induction a with
  | nil =>
    rw [List.nil_append, List.takeWhile_cons_of_neg (by rw [hc]; simp)]
    exact List.nil_prefix
  | cons d a ih =>
    rw [List.cons_append, List.cons_append, List.takeWhile_cons, List.takeWhile_cons]
    split
    · exact List.cons_prefix_cons.mpr ⟨rfl, ih⟩
    · exact List.prefix_rfl

theorem dropWhile_append_of_all {p : Char → Bool} {a : List Char} (h : ∀ c ∈ a, p c = true)
    (l : List Char) : (a ++ l).dropWhile p = l.dropWhile p := by
  induction a with
  | nil => rfl
  | cons c a ih =>
    rw [List.cons_append, List.dropWhile_cons_of_pos (h c List.mem_cons_self)]
    exact ih fun d hd => h d (List.mem_cons_of_mem c hd)

theorem takeWhile_append_of_head {p : Char → Bool} {a l : List Char} (h : ∀ c ∈ a, p c = true)
    (hl : l.takeWhile p = []) : (a ++ l).takeWhile p = a := by
  rw [List.takeWhile_append_of_pos h, hl, List.append_nil]

theorem scanAssignment_text (p : Parts) : scanAssignment p.text =
    if isSensitive p.name then
      if alreadyRedacted p.value then none
      else (scanValue p.value).map fun (quote, rest) =>
        (⟨p.name, p.before ++ '=' :: p.after, quote⟩, consumed p.text rest, rest)
    else none := by
  have hrest : (p.before ++ '=' :: (p.after ++ p.value)).takeWhile isNameChar = [] := by
    cases hb : p.before with
    | nil => rfl
    | cons c b =>
      have hc := not_nameChar_of_isSpace (p.before_spaces c (by rw [hb]; exact List.mem_cons_self))
      rw [List.cons_append, List.takeWhile_cons_of_neg (by rw [hc]; simp)]
  have hname : p.text.takeWhile isNameChar = p.name :=
    takeWhile_append_of_head p.name_chars hrest
  have hbehind : p.text.dropWhile isNameChar = p.before ++ '=' :: (p.after ++ p.value) := by
    have hsplit := List.takeWhile_append_dropWhile (p := isNameChar) (l := p.text)
    rw [hname] at hsplit
    exact List.append_cancel_left hsplit
  have hspaces : (p.before ++ '=' :: (p.after ++ p.value)).dropWhile Text.isSpace =
      '=' :: (p.after ++ p.value) := by
    rw [dropWhile_append_of_all p.before_spaces]
    rfl
  have hbefore : (p.before ++ '=' :: (p.after ++ p.value)).takeWhile Text.isSpace = p.before :=
    takeWhile_append_of_head p.before_spaces rfl
  have hvalue : (p.after ++ p.value).dropWhile Text.isSpace = p.value := by
    rw [dropWhile_append_of_all p.after_spaces, p.value_starts]
  have hafter : (p.after ++ p.value).takeWhile Text.isSpace = p.after := by
    have hsplit := List.takeWhile_append_dropWhile (p := Text.isSpace) (l := p.after ++ p.value)
    rw [hvalue] at hsplit
    exact List.append_cancel_right hsplit
  simp only [scanAssignment, hname, hbehind, hspaces, hbefore, hvalue, hafter]

namespace Parts

variable (p : Parts)

theorem run_isSome : (assignmentPattern.run p.text).isSome = true ↔
    isSensitive p.name = true ∧ alreadyRedacted p.value = false ∧
      (scanValue p.value).isSome = true := by
  show (scanAssignment p.text).isSome = true ↔ _
  rw [scanAssignment_text]
  split
  · next hname =>
    split
    · next hred => simp [hred]
    · next hred => simp [hname, hred]
  · next hname => simp [hname]

theorem run_eq_some {a : Assignment} {t r : List Char}
    (h : assignmentPattern.run p.text = some (a, t, r)) : a.name = p.name ∧
      a.sep = p.before ++ '=' :: p.after ∧ scanValue p.value = some (a.quote, r) := by
  have hscan : scanAssignment p.text = some (a, t, r) := h
  rw [scanAssignment_text] at hscan
  split at hscan
  · split at hscan
    · cases hscan
    · obtain ⟨⟨quote, rest⟩, hvalue, heq⟩ := Option.map_eq_some_iff.mp hscan
      cases heq
      exact ⟨rfl, rfl, hvalue⟩
  · cases hscan

end Parts

/-- Every assignment has its parts. -/
theorem exists_parts {l t r : List Char} {a : Assignment}
    (h : assignmentPattern.run l = some (a, t, r)) : ∃ p : Parts, l = p.text ∧ a.name = p.name ∧
      a.sep = p.before ++ '=' :: p.after ∧ scanValue p.value = some (a.quote, r) ∧
      alreadyRedacted p.value = false ∧ isSensitive p.name = true := by
  have hscan : scanAssignment l = some (a, t, r) := h
  rw [scanAssignment] at hscan
  split at hscan
  · next hname =>
    split at hscan
    · next r' hsep =>
      dsimp only at hscan
      split at hscan
      · cases hscan
      · next hred =>
        obtain ⟨⟨quote, rest⟩, hvalue, heq⟩ := Option.map_eq_some_iff.mp hscan
        cases heq
        refine ⟨⟨l.takeWhile isNameChar, (l.dropWhile isNameChar).takeWhile Text.isSpace,
          r'.takeWhile Text.isSpace, r'.dropWhile Text.isSpace, fun c hc =>
          List.mem_takeWhile_imp hc, fun c hc => List.mem_takeWhile_imp hc,
          fun c hc => List.mem_takeWhile_imp hc,
          Text.dropWhile_of_startsBare (Text.startsBare_dropWhile r')⟩, ?_, rfl, rfl, hvalue,
          by simpa using hred, hname⟩
        rw [Parts.text, List.takeWhile_append_dropWhile, ← hsep, List.takeWhile_append_dropWhile,
          List.takeWhile_append_dropWhile]
    · cases hscan
  · cases hscan

/-! ## What a value depends on

A value in front of which `=` stands is told from what follows the marker only if it runs over the
marker. -/

theorem isPrefixOf_local {pat : List Char} (hpat : '=' ∉ pat) {g : List Char} (hg : '=' ∈ g)
    (x y : List Char) : pat.isPrefixOf ((g ++ x).map foldCase) =
      pat.isPrefixOf ((g ++ y).map foldCase) := by
  induction g generalizing pat with
  | nil => cases hg
  | cons c g ih =>
    cases pat with
    | nil => rfl
    | cons q pat =>
      obtain ⟨hq, hpat⟩ := not_or.mp (mt List.mem_cons.mpr hpat)
      show (q == foldCase c && pat.isPrefixOf ((g ++ x).map foldCase)) =
        (q == foldCase c && pat.isPrefixOf ((g ++ y).map foldCase))
      rcases List.mem_cons.mp hg with rfl | hg
      · have hne : (q == foldCase '=') = false := by
          rw [show foldCase '=' = '=' from by decide]
          exact beq_false_of_ne (Ne.symm hq)
        rw [hne, Bool.false_and, Bool.false_and]
      · rw [ih hpat hg]

def dropSlash : List Char → List Char
  | '\\' :: l => l
  | l => l

def dropQuote : List Char → List Char
  | '"' :: l => l
  | '\'' :: l => l
  | l => l

theorem alreadyRedacted_eq (l : List Char) : alreadyRedacted l =
    "[redacted:".toList.isPrefixOf ((dropQuote (dropSlash l)).map foldCase) := rfl

theorem dropSlash_local {g : List Char} (hg : '=' ∈ g) :
    ∃ g', '=' ∈ g' ∧ ∀ x, dropSlash (g ++ x) = g' ++ x := by
  cases g with
  | nil => cases hg
  | cons c g =>
    by_cases hc : c = '\\'
    · subst hc
      exact ⟨g, by simpa using hg, fun x => rfl⟩
    · refine ⟨c :: g, hg, fun x => ?_⟩
      rw [List.cons_append, dropSlash]
      rintro l ⟨⟩
      exact hc rfl

theorem dropQuote_local {g : List Char} (hg : '=' ∈ g) :
    ∃ g', '=' ∈ g' ∧ ∀ x, dropQuote (g ++ x) = g' ++ x := by
  cases g with
  | nil => cases hg
  | cons c g =>
    by_cases hc : c = '"'
    · subst hc
      exact ⟨g, by simpa using hg, fun x => rfl⟩
    · by_cases hc' : c = '\''
      · subst hc'
        exact ⟨g, by simpa using hg, fun x => rfl⟩
      · refine ⟨c :: g, hg, fun x => ?_⟩
        rw [List.cons_append, dropQuote]
        · rintro l ⟨⟩
          exact hc rfl
        · rintro l ⟨⟩
          exact hc' rfl

theorem alreadyRedacted_local {g : List Char} (hg : '=' ∈ g) (x y : List Char) :
    alreadyRedacted (g ++ x) = alreadyRedacted (g ++ y) := by
  obtain ⟨g₁, hg₁, hslash⟩ := dropSlash_local hg
  obtain ⟨g₂, hg₂, hquote⟩ := dropQuote_local hg₁
  simp only [alreadyRedacted_eq, hslash, hquote]
  exact isPrefixOf_local (by decide) hg₂ x y

theorem scanContent_through {stop : List Char → Bool} {inside : Char → Bool} {z m : List Char}
    (hstop : ∀ w, w <:+ m → w ≠ [] → stop (w ++ z) = false) {n : Nat} {slash : Bool} {r : List Char}
    (h : scanContent stop inside n slash (m ++ z) = some r) : r <:+ z := by
  induction m generalizing n slash with
  | nil => exact scanContent_suffix h
  | cons c m ih =>
    rw [List.cons_append, scanContent] at h
    split at h
    · next hdone =>
      have hnot := hstop _ (List.suffix_refl _) (List.cons_ne_nil c m)
      rw [List.cons_append, hdone.2.2] at hnot
      cases hnot
    · split at h
      · exact ih (fun w hw => hstop w (hw.trans (List.suffix_cons c m))) h
      · cases h

/-- The end of a content is found in front of the marker, whatever stands there instead, or behind
it. -/
theorem scanContent_local {stop : List Char → Bool} {inside : Char → Bool} {mark z : List Char}
    (hmark : ∀ w, w <:+ mark → w ≠ [] → stop (w ++ z) = false)
    (hstop : ∀ c a y, stop (c :: a ++ (mark ++ z)) = true → stop (c :: a ++ y) = true)
    {a : List Char} {n : Nat} {slash : Bool} {r : List Char}
    (h : scanContent stop inside n slash (a ++ (mark ++ z)) = some r) :
    r <:+ z ∨ ∀ y, (scanContent stop inside n slash (a ++ y)).isSome = true := by
  induction a generalizing n slash with
  | nil => exact .inl (scanContent_through hmark h)
  | cons c a ih =>
    rw [List.cons_append, scanContent] at h
    split at h
    · next hdone =>
      refine .inr fun y => ?_
      rw [List.cons_append, scanContent, if_pos ⟨hdone.1, hdone.2.1, hstop c a y hdone.2.2⟩]
      rfl
    · split at h
      · next hinside =>
        refine (ih h).imp_right fun hlater y => ?_
        rw [List.cons_append, scanContent]
        split
        · rfl
        · exact hlater y
      · cases h

section Tiles

variable {x : List Char}

/-- An item in front of a text that goes on with `[` ends before it, and depends on it only as the
last one. -/
theorem scanTile_local (hx : x.head? = some '[') {c : Char} {g : List Char} :
    (∀ y, scanTile (c :: g ++ y) = none) ∨ ∃ tile g', c :: g = tile ++ g' ∧ tile ≠ [] ∧
      scanTile (c :: g ++ x) = some (tile, g' ++ x) ∧
      (g' ≠ [] → ∀ y, scanTile (c :: g ++ y) = some (tile, g' ++ y)) := by
  obtain ⟨x', rfl⟩ : ∃ x', x = '[' :: x' := by
    cases x with
    | nil => cases hx
    | cons d x' => exact ⟨x', by rw [Option.some.inj hx]⟩
  by_cases hslash : c = '\\'
  · subst hslash
    cases g with
    | nil => exact .inr ⟨['\\'], [], rfl, List.cons_ne_nil _ _, rfl, fun h => absurd rfl h⟩
    | cons d g =>
      by_cases hd : d = '\\'
      · subst hd
        exact .inr ⟨['\\', '\\'], g, rfl, List.cons_ne_nil _ _, rfl, fun _ y => rfl⟩
      · have htile : ∀ y, scanTile ('\\' :: d :: g ++ y) =
            if joinsSlash (d :: g ++ y) then some (['\\'], d :: g ++ y) else none := by
          intro y
          rw [List.cons_append, scanTile]
          rintro l ⟨⟩
          exact hd rfl
        cases hjoin : joinsSlash [d]
        · refine .inl fun y => ?_
          rw [htile, if_neg]
          rw [show joinsSlash (d :: g ++ y) = joinsSlash [d] from rfl, hjoin]
          exact Bool.false_ne_true
        · have hjoins : ∀ y, joinsSlash (d :: g ++ y) = true := fun y => hjoin
          exact .inr ⟨['\\'], d :: g, rfl, List.cons_ne_nil _ _, by rw [htile, if_pos (hjoins _)],
            fun _ y => by rw [htile, if_pos (hjoins y)]⟩
  · have htile : ∀ l, scanTile (c :: l) = if c = '"' ∨ c = '\'' then
        (if goesOn l then some ([c], l) else none)
        else if Text.isSpace c then none else some ([c], l) := by
      intro l
      rw [scanTile]
      · exact fun _ h _ => hslash h
      · exact fun h => hslash h
    by_cases hquote : c = '"' ∨ c = '\''
    · cases g with
      | nil =>
        refine .inr ⟨[c], [], rfl, List.cons_ne_nil _ _, ?_, fun h => absurd rfl h⟩
        rw [List.cons_append, htile, if_pos hquote]
        rfl
      | cons d g =>
        cases hgo : goesOn [d]
        · refine .inl fun y => ?_
          rw [List.cons_append, htile, if_pos hquote, if_neg]
          rw [show goesOn (d :: g ++ y) = goesOn [d] from rfl, hgo]
          exact Bool.false_ne_true
        · have hgoes : ∀ y, goesOn (d :: g ++ y) = true := fun y => hgo
          refine .inr ⟨[c], d :: g, rfl, List.cons_ne_nil _ _, ?_, fun _ y => ?_⟩
          · rw [List.cons_append, htile, if_pos hquote, if_pos (hgoes _)]
          · rw [List.cons_append, htile, if_pos hquote, if_pos (hgoes y)]
    · by_cases hspace : Text.isSpace c = true
      · refine .inl fun y => ?_
        rw [List.cons_append, htile, if_neg hquote, if_pos hspace]
      · refine .inr ⟨[c], g, rfl, List.cons_ne_nil _ _, ?_, fun _ y => ?_⟩
        · rw [List.cons_append, htile, if_neg hquote, if_neg hspace]
        · rw [List.cons_append, htile, if_neg hquote, if_neg hspace]

/-- The items either run up to the end of the front or stop in it for good. -/
theorem scanTiles_local (hx : x.head? = some '[') (fuel : Nat) (g : List Char)
    (hfuel : (g ++ x).length ≤ fuel) :
    (∃ ts fuel', scanTiles fuel (g ++ x) = ts ++ scanTiles fuel' x ∧ ts.flatten = g ∧
      x.length ≤ fuel') ∨
    ∀ y fuel', (g ++ y).length ≤ fuel' → scanTiles fuel' (g ++ y) = scanTiles fuel (g ++ x) := by
  induction fuel generalizing g with
  | zero =>
    obtain ⟨rfl, rfl⟩ := List.append_eq_nil_iff.mp (List.length_eq_zero_iff.mp (Nat.le_zero.mp hfuel))
    cases hx
  | succ fuel ih =>
    cases g with
    | nil => exact .inl ⟨[], fuel + 1, rfl, rfl, hfuel⟩
    | cons c g =>
      rcases scanTile_local hx (c := c) (g := g) with hnone | ⟨tile, g', hg, hne, htile, hlater⟩
      · refine .inr fun y fuel' hfuel' => ?_
        cases fuel' with
        | zero => simp at hfuel'
        | succ fuel' => simp only [scanTiles, hnone]
      · have hlen : g'.length ≤ g.length := by
          have hsum := congrArg List.length hg
          have hpos := List.length_pos_iff.mpr hne
          simp only [List.length_append, List.length_cons] at hsum
          omega
        have hfits : (g' ++ x).length ≤ fuel := by
          simp only [List.length_append, List.length_cons] at hfuel ⊢
          omega
        have hstep : scanTiles (fuel + 1) (c :: g ++ x) = tile :: scanTiles fuel (g' ++ x) := by
          simp only [scanTiles, htile]
        by_cases hend : g' = []
        · subst hend
          exact .inl ⟨[tile], fuel, hstep, by rw [hg]; simp, hfits⟩
        · rcases ih g' hfits with ⟨ts, fuel', hts, hflat, hfuel'⟩ | hsame
          · refine .inl ⟨tile :: ts, fuel', ?_, ?_, hfuel'⟩
            · rw [hstep, hts, List.cons_append]
            · rw [List.flatten_cons, hflat, hg]
          · refine .inr fun y fuel' hfuel' => ?_
            cases fuel' with
            | zero => simp at hfuel'
            | succ fuel' =>
              have hstep' : scanTiles (fuel' + 1) (c :: g ++ y) =
                  tile :: scanTiles fuel' (g' ++ y) := by
                simp only [scanTiles, hlater hend y]
              rw [hstep', hstep, hsame y fuel']
              simp only [List.length_append, List.length_cons] at hfuel' ⊢
              omega

/-- Characters that are items by themselves. -/
theorem scanTiles_plain {m : List Char} (hm : ∀ c ∈ m, ∀ l, scanTile (c :: l) = some ([c], l))
    (z : List Char) {fuel : Nat} (hfuel : (m ++ z).length ≤ fuel) : ∃ fuel',
    scanTiles fuel (m ++ z) = m.map (fun c => [c]) ++ scanTiles fuel' z := by
  induction m generalizing fuel with
  | nil => exact ⟨fuel, rfl⟩
  | cons c m ih =>
    cases fuel with
    | zero => simp at hfuel
    | succ fuel =>
      obtain ⟨fuel', hrest⟩ := ih (fun d hd => hm d (List.mem_cons_of_mem c hd))
        (Nat.le_of_succ_le_succ hfuel)
      refine ⟨fuel', ?_⟩
      rw [List.cons_append, scanTiles, hm c List.mem_cons_self]
      exact congrArg ([c] :: ·) hrest

end Tiles

section Values

def assignmentMark : List Char := marker "assignment"

theorem assignmentMark_cons : assignmentMark = '[' :: "REDACTED:assignment]".toList := by
  decide +kernel

theorem assignmentMark_chars : ∀ c ∈ assignmentMark, c ≠ '"' ∧ c ≠ '\\' ∧ c ≠ '\'' ∧ c ≠ '=' ∧
    Text.isSpace c = false := by
  intro c hc
  have hall : assignmentMark.all (fun c => c != '"' && (c != '\\' && (c != '\'' && (c != '=' &&
      !Text.isSpace c)))) = true := by
    decide +kernel
  simpa only [Bool.and_eq_true, bne_iff_ne, Bool.not_eq_true'] using List.all_eq_true.mp hall c hc

theorem scanTile_plain {c : Char} (hdouble : c ≠ '"') (hslash : c ≠ '\\') (hsingle : c ≠ '\'')
    (hspace : Text.isSpace c = false) (l : List Char) : scanTile (c :: l) = some ([c], l) := by
  rw [scanTile]
  · rw [if_neg (by rintro (h | h); exacts [hdouble h, hsingle h]), if_neg (by rw [hspace]; simp)]
  · exact fun _ h _ => hslash h
  · exact fun h => hslash h

variable {g z r : List Char}

theorem not_closesDouble {w : List Char} (hw : w <:+ assignmentMark) (hne : w ≠ []) :
    closesDouble (w ++ z) = false := by
  cases w with
  | nil => exact absurd rfl hne
  | cons c w =>
    obtain ⟨hdouble, hslash, -⟩ := assignmentMark_chars c (hw.subset List.mem_cons_self)
    rw [List.cons_append, closesDouble]
    · exact fun l heq => hdouble (List.cons.inj heq).1
    · exact fun l heq => hslash (List.cons.inj heq).1

theorem not_closesSingle {w : List Char} (hw : w <:+ assignmentMark) (hne : w ≠ []) :
    closesSingle (w ++ z) = false := by
  cases w with
  | nil => exact absurd rfl hne
  | cons c w =>
    obtain ⟨-, -, hsingle, -⟩ := assignmentMark_chars c (hw.subset List.mem_cons_self)
    rw [closesSingle]
    exact beq_false_of_ne fun heq => hsingle (Option.some.inj heq)

theorem closesDouble_local {c : Char} {a : List Char}
    (h : closesDouble (c :: a ++ (assignmentMark ++ z)) = true) (y : List Char) :
    closesDouble (c :: a ++ y) = true := by
  by_cases hquote : c = '"'
  · subst hquote
    rfl
  · by_cases hslash : c = '\\'
    · subst hslash
      cases a with
      | nil =>
        rw [assignmentMark_cons] at h
        cases h
      | cons d a =>
        by_cases hd : d = '"'
        · subst hd
          rfl
        · rw [List.cons_append, List.cons_append, closesDouble] at h
          · cases h
          · rintro l ⟨⟩
          · exact fun l heq => hd (List.cons.inj (List.cons.inj heq).2).1
    · rw [List.cons_append, closesDouble] at h
      · cases h
      · exact fun l heq => hquote (List.cons.inj heq).1
      · exact fun l heq => hslash (List.cons.inj heq).1

theorem scanDouble_local {quote : ValueQuote} (hg : '=' ∈ g)
    (h : scanDouble (g ++ (assignmentMark ++ z)) = some (quote, r)) :
    r <:+ z ∨ ∀ y, (scanDouble (g ++ y)).isSome = true := by
  have hcontent : ∀ {a r}, scanContent closesDouble insideDouble minAssignmentValueLen false
      (a ++ (assignmentMark ++ z)) = some r → r <:+ z ∨ ∀ y, (scanContent closesDouble insideDouble
        minAssignmentValueLen false (a ++ y)).isSome = true := fun h =>
    scanContent_local (fun w => not_closesDouble) (fun c a y h => closesDouble_local h y) h
  cases g with
  | nil => cases hg
  | cons c g =>
    by_cases hquote : c = '"'
    · subst hquote
      obtain ⟨r', hr', heq⟩ := Option.map_eq_some_iff.mp
        (show (scanContent closesDouble insideDouble minAssignmentValueLen false
          (g ++ (assignmentMark ++ z))).map (fun r => (ValueQuote.bare, r)) = _ from h)
      cases heq
      exact (hcontent hr').imp_right fun hlater y => by
        simpa [scanDouble] using hlater y
    · by_cases hslash : ∃ g', c :: g = '\\' :: '"' :: g'
      · obtain ⟨g', hg'⟩ := hslash
        rw [hg'] at h ⊢
        obtain ⟨r', hr', heq⟩ := Option.map_eq_some_iff.mp
          (show (scanContent closesDouble insideDouble minAssignmentValueLen false
            (g' ++ (assignmentMark ++ z))).map (fun r => (ValueQuote.escaped, r)) = _ from h)
        cases heq
        exact (hcontent hr').imp_right fun hlater y => by
          simpa [scanDouble] using hlater y
      · exfalso
        rw [List.cons_append, scanDouble] at h
        · cases h
        · intro l heq
          obtain ⟨rfl, hrest⟩ := List.cons.inj heq
          cases g with
          | nil =>
            rw [List.nil_append, assignmentMark_cons] at hrest
            cases hrest
          | cons d g =>
            obtain ⟨rfl, -⟩ := List.cons.inj hrest
            exact hslash ⟨g, rfl⟩
        · exact fun l heq => hquote (List.cons.inj heq).1

theorem scanSingle_local {quote : ValueQuote} (hg : '=' ∈ g)
    (h : scanSingle (g ++ (assignmentMark ++ z)) = some (quote, r)) :
    r <:+ z ∨ ∀ y, (scanSingle (g ++ y)).isSome = true := by
  cases g with
  | nil => cases hg
  | cons c g =>
    by_cases hquote : c = '\''
    · subst hquote
      obtain ⟨r', hr', heq⟩ := Option.map_eq_some_iff.mp
        (show (scanContent closesSingle insideSingle minAssignmentValueLen false
          (g ++ (assignmentMark ++ z))).map (fun r => (ValueQuote.single, r)) = _ from h)
      cases heq
      refine (scanContent_local (fun w => not_closesSingle) (fun c a y h => h) hr').imp_right
        fun hlater y => ?_
      simpa [scanSingle] using hlater y
    · rw [List.cons_append, scanSingle] at h
      · cases h
      · exact fun l heq => hquote (List.cons.inj heq).1

/-- Behind an item that is kept, only the later ones are looked at. -/
theorem keptTiles_append {ts us : List (List Char)} {tile : List Char}
    (htile : endsOnSlash tile = false) : ((ts ++ tile :: us).reverse.dropWhile endsOnSlash).reverse =
      ts ++ tile :: (us.reverse.dropWhile endsOnSlash).reverse := by
  have hone : ∀ us : List (List Char), ((us ++ [tile] ++ ts.reverse).dropWhile endsOnSlash) =
      us.dropWhile endsOnSlash ++ [tile] ++ ts.reverse := by
    intro us
    induction us with
    | nil => rw [List.nil_append, List.singleton_append, List.dropWhile_cons_of_neg (by rw [htile]; simp)]; rfl
    | cons u us ih =>
      rw [List.cons_append, List.cons_append, List.dropWhile_cons, List.dropWhile_cons]
      split
      · exact ih
      · rfl
  rw [List.reverse_append, List.reverse_cons, hone]
  simp

theorem scanPlain_local {quote : ValueQuote}
    (h : scanPlain (g ++ (assignmentMark ++ z)) = some (quote, r)) :
    r <:+ z ∨ ∀ y, (scanPlain (g ++ y)).isSome = true := by
  have hx : (assignmentMark ++ z).head? = some '[' := by
    rw [assignmentMark_cons]
    rfl
  rw [scanPlain] at h
  split at h
  · next hlong =>
    rcases scanTiles_local hx _ g le_rfl with ⟨ts, fuel, hts, hflat, hfuel⟩ | hsame
    · left
      obtain ⟨fuel', hmark⟩ := scanTiles_plain (m := assignmentMark) (fun c hc => by
        obtain ⟨hdouble, hslash, hsingle, -, hspace⟩ := assignmentMark_chars c hc
        exact scanTile_plain hdouble hslash hsingle hspace) z hfuel
      have hsplit : assignmentMark.map (fun c => [c]) =
          ("[REDACTED:".toList ++ "assignment".toList).map (fun c => [c]) ++ [[']']] := by
        rw [show assignmentMark = ("[REDACTED:".toList ++ "assignment".toList) ++ [']'] from rfl,
          List.map_append]
        rfl
      have hkept : plainTiles (g ++ (assignmentMark ++ z)) = (ts ++ assignmentMark.map fun c => [c]) ++
          ((scanTiles fuel' z).reverse.dropWhile endsOnSlash).reverse := by
        rw [plainTiles, hts, hmark, hsplit, ← List.append_assoc, ← List.append_assoc,
          List.append_assoc (ts ++ _), List.singleton_append, keptTiles_append (by decide),
          List.append_assoc (ts ++ _), List.singleton_append]
      have hflatten : (ts ++ assignmentMark.map fun c => [c]).flatten = g ++ assignmentMark := by
        rw [List.flatten_append, hflat, ← List.flatMap_def, List.flatMap_singleton']
      cases h
      rw [hkept, List.flatten_append, hflatten, List.length_append, ← List.append_assoc,
        List.drop_append, List.drop_eq_nil_of_le (Nat.le_add_right _ _), List.nil_append]
      exact List.drop_suffix _ z
    · refine .inr fun y => ?_
      have hkept : plainTiles (g ++ y) = plainTiles (g ++ (assignmentMark ++ z)) := by
        rw [plainTiles, plainTiles, hsame y _ le_rfl]
      rw [scanPlain, hkept, if_pos hlong]
      rfl
  · cases h

theorem scanValue_local {quote : ValueQuote} (hg : '=' ∈ g)
    (h : scanValue (g ++ (assignmentMark ++ z)) = some (quote, r)) :
    r <:+ z ∨ ∀ y, (scanValue (g ++ y)).isSome = true := by
  rw [scanValue, Option.or_eq_some_iff, Option.or_eq_some_iff] at h
  simp only [scanValue, Option.isSome_or, Bool.or_eq_true]
  obtain h | ⟨-, h | ⟨-, h⟩⟩ := h
  · exact (scanDouble_local hg h).imp_right fun hlater y => .inl (hlater y)
  · exact (scanSingle_local hg h).imp_right fun hlater y => .inr (.inl (hlater y))
  · exact (scanPlain_local h).imp_right fun hlater y => .inr (.inr (hlater y))

end Values

/-! ## Assignments once more -/

theorem ValueQuote.text_chars (q : ValueQuote) : ∀ c ∈ q.text, isNameChar c = false ∧
    Text.isSpace c = false := by
  intro c hc
  have hall : q.text.all (fun c => !isNameChar c && !Text.isSpace c) = true := by
    cases q <;> decide
  simpa only [Bool.and_eq_true, Bool.not_eq_true'] using List.all_eq_true.mp hall c hc

/-- A value begins with its quote and goes on up to the rest. -/
theorem scanValue_splits {l r : List Char} {quote : ValueQuote}
    (h : scanValue l = some (quote, r)) : ∃ v, l = quote.text ++ (v ++ r) := by
  have hcontent : ∀ {q : ValueQuote} {a r stop inside}, (scanContent stop inside
      minAssignmentValueLen false a).map (fun r => (q, r)) = some (quote, r) →
        l = q.text ++ a → ∃ v, l = quote.text ++ (v ++ r) := by
    rintro q a r stop inside hmap rfl
    obtain ⟨r', hr', heq⟩ := Option.map_eq_some_iff.mp hmap
    cases heq
    obtain ⟨v, rfl⟩ := scanContent_suffix hr'
    exact ⟨v, rfl⟩
  rw [scanValue, Option.or_eq_some_iff, Option.or_eq_some_iff] at h
  obtain h | ⟨-, h | ⟨-, h⟩⟩ := h
  · unfold scanDouble at h
    split at h
    · exact hcontent h rfl
    · exact hcontent h rfl
    · cases h
  · unfold scanSingle at h
    split at h
    · exact hcontent h rfl
    · cases h
  · rw [scanPlain] at h
    split at h
    · cases h
      exact ⟨_, (List.take_append_drop _ l).symm⟩
    · cases h

def Assignment.head (a : Assignment) : List Char := a.name ++ a.sep ++ a.quote.text

/-- What stays of an assignment stands in front of what is replaced. -/
theorem head_prefix (s : List Char) (a : Assignment) (t r : List Char)
    (h : assignmentPattern.run s = some (a, t, r)) : a.head <+: t := by
  obtain ⟨p, hs, hname, hsep, hvalue, -⟩ := exists_parts h
  obtain ⟨v, hv⟩ := scanValue_splits hvalue
  have ht : s = t ++ r := (assignmentPattern.splits h).1
  refine ⟨v, (List.append_left_inj r).mp ?_⟩
  rw [← ht, hs, Parts.text, hv, Assignment.head, hname, hsep]
  simp

theorem run_none_of_head {c : Char} (hc : isNameChar c = false) (l : List Char) :
    assignmentPattern.run (c :: l) = none := by
  show scanAssignment (c :: l) = none
  rw [scanAssignment, List.takeWhile_cons_of_neg (by rw [hc]; simp)]
  rfl

/-- Behind a name and its quote a marker is recognised. -/
theorem alreadyRedacted_quoted (q : ValueQuote) (z : List Char) :
    alreadyRedacted (q.text ++ (assignmentMark ++ z)) = true := by
  have hmark : "[redacted:".toList <+: assignmentMark.map foldCase := by decide +kernel
  have hquoted : dropQuote (dropSlash (q.text ++ (assignmentMark ++ z))) = assignmentMark ++ z := by
    rw [assignmentMark_cons]
    cases q <;> rfl
  rw [alreadyRedacted_eq, hquoted, List.map_append]
  exact List.isPrefixOf_iff_prefix.mpr (hmark.trans (List.prefix_append _ _))

theorem Parts.run_none_of_redacted {p : Parts} (h : alreadyRedacted p.value = true) :
    assignmentPattern.run p.text = none := by
  by_contra hsome
  have hparts := (p.run_isSome).mp (Option.isSome_iff_ne_none.mpr hsome)
  rw [h] at hparts
  cases hparts.2.1

theorem dropWhile_append_of_stop {p : Char → Bool} {w : List Char} {c : Char} (hc : c ∈ w)
    (hstop : p c = false) (y : List Char) : (w ++ y).dropWhile p = w.dropWhile p ++ y := by
  induction w with
  | nil => cases hc
  | cons d w ih =>
    rw [List.cons_append, List.dropWhile_cons, List.dropWhile_cons]
    split
    · next hd =>
      rcases List.mem_cons.mp hc with rfl | hc
      · rw [hstop] at hd
        cases hd
      · exact ih hc
    · rfl

theorem mem_dropWhile_of_stop {p : Char → Bool} {w : List Char} {c : Char} (hc : c ∈ w)
    (hstop : p c = false) : c ∈ w.dropWhile p := by
  have hmem := hc
  rw [← List.takeWhile_append_dropWhile (p := p) (l := w), List.mem_append] at hmem
  rcases hmem with hmem | hmem
  · have hp := List.mem_takeWhile_imp hmem
    rw [hstop] at hp
    cases hp
  · exact hmem

/-- An `=` of the text is the one of the assignment or belongs to its value. -/
theorem Parts.of_text {p : Parts} {f₁ f₂ x : List Char} (h : p.text = f₁ ++ '=' :: (f₂ ++ x)) :
    p.after ++ p.value = f₂ ++ x ∨ ∃ g, '=' ∈ g ∧ p.value = g ++ x ∧
      ∀ y, ∃ p' : Parts, p'.text = f₁ ++ '=' :: (f₂ ++ y) ∧ p'.name = p.name ∧
        p'.value = g ++ y := by
  have hnot : '=' ∉ p.name ++ p.before := by
    intro hmem
    rcases List.mem_append.mp hmem with hmem | hmem
    · exact absurd (p.name_chars _ hmem) (by decide)
    · exact absurd (p.before_spaces _ hmem) (by decide)
  rw [Parts.text, ← List.append_assoc] at h
  rcases List.append_eq_append_iff.mp h with ⟨a, hf, ha⟩ | ⟨a, hf, ha⟩
  · cases a with
    | nil => exact .inl (List.cons.inj ha).2
    | cons d a =>
      obtain ⟨rfl, htail⟩ := List.cons.inj ha
      have hrest : p.after ++ p.value = a ++ '=' :: (f₂ ++ x) := htail
      have hmem : '=' ∈ a ++ '=' :: f₂ := by simp
      have hstop : Text.isSpace '=' = false := by decide
      have hvalue : p.value = (a ++ '=' :: f₂).dropWhile Text.isSpace ++ x := by
        rw [← dropWhile_append_of_stop hmem hstop, List.append_assoc, List.cons_append, ← hrest,
          dropWhile_append_of_all p.after_spaces, p.value_starts]
      refine .inr ⟨_, mem_dropWhile_of_stop hmem hstop, hvalue, fun y => ?_⟩
      refine ⟨⟨p.name, p.before, (a ++ '=' :: f₂).takeWhile Text.isSpace,
        (a ++ '=' :: f₂).dropWhile Text.isSpace ++ y, p.name_chars, p.before_spaces,
        fun c hc => List.mem_takeWhile_imp hc, ?_⟩, ?_, rfl, rfl⟩
      · rw [← dropWhile_append_of_stop hmem hstop]
        exact Text.dropWhile_of_startsBare (Text.startsBare_dropWhile _)
      · rw [Parts.text, ← List.append_assoc (List.takeWhile _ _), List.takeWhile_append_dropWhile, hf]
        simp
  · cases a with
    | nil => exact .inl (List.cons.inj ha).2.symm
    | cons d a =>
      obtain ⟨rfl, -⟩ := List.cons.inj ha
      exact absurd (hf ▸ List.mem_append_right f₁ List.mem_cons_self) hnot

section Once

variable {k : Assignment} {before after : List Char}

theorem starts_quoted (q : ValueQuote) (z : List Char) :
    (q.text ++ (assignmentMark ++ z)).dropWhile Text.isSpace = q.text ++ (assignmentMark ++ z) := by
  rw [assignmentMark_cons]
  cases q <;> rfl

/-- What would have matched before the replacement, or matches now, runs over the marker. -/
theorem over_marker (hsep : k.sep = before ++ '=' :: after)
    (hafter : ∀ c ∈ after, Text.isSpace c = true) {f y z t r : List Char} {a : Assignment}
    (hnone : assignmentPattern.run (f ++ (k.head ++ y)) = none)
    (hsome : assignmentPattern.run (f ++ (k.head ++ (assignmentMark ++ z))) = some (a, t, r)) :
    assignmentMark <:+: t := by
  have hline : ∀ x, f ++ (k.head ++ x) =
      (f ++ k.name ++ before) ++ '=' :: ((after ++ k.quote.text) ++ x) := by
    intro x
    simp [Assignment.head, hsep]
  obtain ⟨p, htext, -, -, hvalue, hred, hname⟩ := exists_parts hsome
  rw [hline] at htext
  rcases p.of_text htext.symm with hsame | ⟨g, hg, hpv, hother⟩
  · have hquoted : p.value = k.quote.text ++ (assignmentMark ++ z) := by
      rw [← p.value_starts, ← dropWhile_append_of_all p.after_spaces, hsame, List.append_assoc,
        dropWhile_append_of_all hafter, starts_quoted]
    rw [hquoted, alreadyRedacted_quoted] at hred
    cases hred
  · rw [hpv] at hvalue hred
    rcases scanValue_local hg hvalue with hsuffix | hlater
    · obtain ⟨z', rfl⟩ := hsuffix
      have hsplit := (assignmentPattern.splits hsome).1
      refine ⟨f ++ k.head, z', (List.append_left_inj r).mp ?_⟩
      rw [← hsplit]
      simp
    · obtain ⟨p', htext', hname', hvalue'⟩ := hother y
      have hfound : (assignmentPattern.run p'.text).isSome = true := by
        refine p'.run_isSome.mpr ⟨hname' ▸ hname, ?_, hvalue' ▸ hlater y⟩
        rw [hvalue', alreadyRedacted_local hg y (assignmentMark ++ z), hred]
      rw [htext', ← hline, hnone] at hfound
      cases hfound

/-- No assignment begins behind the name of another, up to the end of its quote. -/
theorem suffix_head (hsep : k.sep = before ++ '=' :: after)
    (hbefore : ∀ c ∈ before, Text.isSpace c = true) (hafter : ∀ c ∈ after, Text.isSpace c = true)
    {w : List Char} (hw : w <:+ k.head) (hne : w ≠ []) :
    (∀ l, assignmentPattern.run (w ++ l) = none) ∨
      ∃ v, v <:+ k.name ∧ w = v ++ k.sep ++ k.quote.text := by
  have hsigns : ∀ c ∈ k.sep, isNameChar c = false := by
    intro c hc
    rw [hsep] at hc
    rcases List.mem_append.mp hc with hc | hc
    · exact not_nameChar_of_isSpace (hbefore c hc)
    · rcases List.mem_cons.mp hc with rfl | hc
      · decide
      · exact not_nameChar_of_isSpace (hafter c hc)
  have hfirst : ∀ {w v : List Char}, w <:+ v → (∀ c ∈ v, isNameChar c = false) → w ≠ [] →
      ∀ l, assignmentPattern.run (w ++ l) = none := by
    intro w v hw hv hne l
    cases w with
    | nil => exact absurd rfl hne
    | cons c w => exact run_none_of_head (hv c (hw.subset List.mem_cons_self)) _
  rcases suffix_append_cases hw with hquote | ⟨u, hu, hne', rfl⟩
  · exact .inl (hfirst hquote (fun c hc => (k.quote.text_chars c hc).1) hne)
  · rcases suffix_append_cases hu with hsign | ⟨v, hv, -, rfl⟩
    · refine .inl fun l => ?_
      rw [List.append_assoc]
      exact hfirst hsign hsigns hne' _
    · exact .inr ⟨v, hv, rfl⟩

theorem run_head (hsep : k.sep = before ++ '=' :: after)
    (hname : ∀ c ∈ k.name, isNameChar c = true) (hbefore : ∀ c ∈ before, Text.isSpace c = true)
    (hafter : ∀ c ∈ after, Text.isSpace c = true) {w : List Char} (hw : w <:+ k.head) (hne : w ≠ [])
    (z : List Char) : assignmentPattern.run (w ++ (assignmentMark ++ z)) = none := by
  rcases suffix_head hsep hbefore hafter hw hne with hnone | ⟨v, hv, rfl⟩
  · exact hnone _
  · have hparts := Parts.run_none_of_redacted (p := ⟨v, before, after,
      k.quote.text ++ (assignmentMark ++ z), fun c hc => hname c (hv.subset hc), hbefore, hafter,
      starts_quoted _ z⟩) (alreadyRedacted_quoted _ z)
    simpa [Parts.text, hsep] using hparts

end Once

theorem run_mark {w : List Char} (hw : w <:+ assignmentMark) (hne : w ≠ []) (z : List Char) :
    assignmentPattern.run (w ++ z) = none := by
  have hnames : ∀ w ∈ assignmentMark.tails, isSensitive (w.takeWhile isNameChar) = false := by
    decide +kernel
  have hend : ']' ∈ w := by
    rcases suffix_append_cases hw with hw' | ⟨w', -, -, rfl⟩
    · rcases List.suffix_cons_iff.mp hw' with rfl | hw'
      · exact List.mem_cons_self
      · exact absurd (List.suffix_nil.mp hw') hne
    · exact List.mem_append_right w' List.mem_cons_self
  have hname : (w ++ z).takeWhile isNameChar = w.takeWhile isNameChar := by
    obtain ⟨u, v, rfl⟩ := List.append_of_mem hend
    have hstop := takeWhile_stop (p := isNameChar) (c := ']') (by decide) u
    rw [List.append_assoc]
    exact (hstop (v ++ z) (']' :: v)).eq_of_length_le (hstop v (']' :: (v ++ z))).length_le
  show scanAssignment (w ++ z) = none
  rw [scanAssignment, hname, hnames w ((List.mem_tails _ _).mpr hw)]
  rfl

/-- An assignment found once more runs over a marker. -/
theorem matches_over_marker (l : List Char) :
    ∀ s, s <:+ (assignmentPattern.sub Assignment.replacement l).1 → ∀ a t r,
      assignmentPattern.run s = some (a, t, r) → assignmentMark <:+: t := by
  have hrepl : ∀ k, Assignment.replacement k = k.head ++ assignmentMark := by
    intro k
    simp [Assignment.replacement, Assignment.head, assignmentMark]
  induction l using search_induction (p := assignmentPattern) with
  | nil =>
    intro s hs a t r h
    rw [List.suffix_nil.mp hs, run_nil] at h
    cases h
  | skip c l hnone ih =>
    intro s hs a t r h
    rw [sub_cons_of_none Assignment.replacement hnone] at hs
    rcases List.suffix_cons_iff.mp hs with rfl | hs
    · rcases sub_first Assignment.replacement (p := assignmentPattern) l with
        hsame | ⟨gap, t', r', k, hl, hmatch, hsub⟩
      · rw [hsame, hnone] at h
        cases h
      · obtain ⟨v, rfl⟩ := head_prefix _ _ _ _ hmatch
        obtain ⟨p, -, -, hsep, -⟩ := exists_parts hmatch
        rw [hsub, hrepl, List.append_assoc] at h
        refine over_marker hsep p.after_spaces (f := c :: gap) (y := v ++ r') ?_ h
        rw [hl] at hnone
        simpa using hnone
    · exact ih s hs a t r h
  | found l k t' r' hmatch ih =>
    intro s hs a t r h
    obtain ⟨p, -, hname, hsep, -⟩ := exists_parts hmatch
    rw [sub_of_run Assignment.replacement hmatch, hrepl, List.append_assoc] at hs
    rcases suffix_append_cases hs with hs | ⟨w, hw, hne, rfl⟩
    · rcases suffix_append_cases hs with hs | ⟨w, hw, hne, rfl⟩
      · exact ih s hs a t r h
      · rw [run_mark hw hne] at h
        cases h
    · rw [run_head hsep (hname ▸ p.name_chars) p.before_spaces p.after_spaces hw hne] at h
      cases h

/-! ## Places -/

/-- An assignment that begins inside the name of another has its value. -/
theorem same_value {k a : Assignment} {t' r' u s t r : List Char}
    (hfound : assignmentPattern.run (t' ++ r') = some (k, t', r')) (hs : t' ++ r' = u ++ s)
    (hu : u.length < k.head.length) (hrun : assignmentPattern.run s = some (a, t, r)) :
    u.length + a.head.length = k.head.length ∧ u.length + t.length = t'.length := by
  obtain ⟨v, rfl⟩ := head_prefix _ _ _ _ hfound
  obtain ⟨p, htext, hname, hsep, hvalue, -⟩ := exists_parts hfound
  obtain ⟨w, hw⟩ : ∃ w, k.head = u ++ w := by
    have hprefix : u <+: k.head := List.prefix_of_prefix_length_le (hs ▸ List.prefix_append u s)
      (List.append_assoc _ _ _ ▸ List.prefix_append _ _) hu.le
    exact hprefix.imp fun _ h => h.symm
  have hne : w ≠ [] := by
    rintro rfl
    rw [hw] at hu
    simp at hu
  have hrest : s = w ++ (v ++ r') := by
    rw [hw] at hs
    simp only [List.append_assoc] at hs
    exact (List.append_cancel_left hs).symm
  have hvalue' : p.value = k.quote.text ++ (v ++ r') := by
    rw [Parts.text, Assignment.head, hname, hsep] at htext
    exact ((List.append_right_inj (p.name ++ (p.before ++ '=' :: p.after))).mp
      (by simpa using htext)).symm
  rcases suffix_head hsep p.before_spaces p.after_spaces (hw ▸ List.suffix_append u w) hne with
    hnone | ⟨n, hn, rfl⟩
  · rw [hrest, hnone] at hrun
    cases hrun
  · rw [hname] at hn
    have hline : s = Parts.text ⟨n, p.before, p.after, p.value,
        fun c hc => p.name_chars c (hn.subset hc), p.before_spaces, p.after_spaces,
        p.value_starts⟩ := by
      show s = n ++ (p.before ++ '=' :: (p.after ++ p.value))
      rw [hvalue', hrest, hsep]
      simp
    have hsplit := (assignmentPattern.splits hrun).1
    rw [hline] at hrun
    obtain ⟨haname, hasep, havalue⟩ : a.name = n ∧ a.sep = p.before ++ '=' :: p.after ∧
      scanValue p.value = some (a.quote, r) := Parts.run_eq_some _ hrun
    obtain ⟨hquote, rfl⟩ := Prod.mk.inj (Option.some.inj (hvalue.symm.trans havalue))
    have hhead : a.head = n ++ k.sep ++ k.quote.text := by
      rw [Assignment.head, haname, hasep, ← hquote, ← hsep]
    refine ⟨by rw [hhead, hw]; exact List.length_append.symm, ?_⟩
    have hlen := congrArg List.length (hrest.symm.trans hsplit)
    rw [hw]
    simp only [List.length_append] at hlen ⊢
    omega

/-- The places of the values. -/
def valueSpans (ms : List (Nat × Assignment × List Char)) : List (Nat × Nat) :=
  ms.map fun m => (m.1 + m.2.1.head.length, m.1 + m.2.2.length)

/-- The value of every assignment is replaced, unless it begins inside a value that is. -/
theorem value_replaced {l : List Char} {ms : List (Nat × Assignment × List Char)}
    (h : assignmentPattern.Found 0 l ms) {front s t r : List Char} {a : Assignment}
    (hl : l = front ++ s) (hrun : assignmentPattern.run s = some (a, t, r)) :
    (front.length + a.head.length, front.length + t.length) ∈ valueSpans ms ∨
      ∃ span ∈ valueSpans ms, span.1 ≤ front.length ∧ front.length < span.2 := by
  rcases h.covers hl hrun with hm | ⟨⟨j, k, t'⟩, hm, hbegin, hend⟩
  · rw [Nat.zero_add] at hm
    exact .inl (List.mem_map.mpr ⟨_, hm, rfl⟩)
  · rw [Nat.zero_add] at hbegin hend
    obtain ⟨front', r', hl', rfl, hfound⟩ := h.place hm
    rw [Nat.zero_add] at hbegin hend hm
    have hspan : (front'.length + k.head.length, front'.length + t'.length) ∈ valueSpans ms :=
      List.mem_map.mpr ⟨_, hm, rfl⟩
    by_cases hhead : front'.length + k.head.length ≤ front.length
    · exact .inr ⟨_, hspan, hhead, hend⟩
    · obtain ⟨u, hu⟩ : ∃ u, front = front' ++ u :=
        (List.prefix_of_prefix_length_le (hl' ▸ List.prefix_append front' _)
          (hl ▸ List.prefix_append front s) hbegin.le).imp fun _ h => h.symm
      rw [hu, List.length_append] at hhead ⊢
      rw [hl', hu, List.append_assoc] at hl
      obtain ⟨hsame, hlen⟩ := same_value hfound (List.append_cancel_left hl) (by omega) hrun
      rw [Nat.add_assoc, Nat.add_assoc, hsame, hlen]
      exact .inl hspan

end Observability
end DotRunner
