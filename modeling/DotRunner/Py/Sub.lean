import DotRunner.Py.Finditer

/-!
# `re.sub`

A text with every match of a pattern replaced, the replacement given by what was
matched.
-/

namespace Py
namespace Pattern

universe u v

variable {κ : Type u} (p : Pattern κ) (repl : κ → List Char)

/-- The text with the matches replaced, and what was matched. -/
def sub (l : List Char) : List Char × List κ :=
  let found := p.finditer l
  ((found.1.flatMap fun m => m.gap ++ repl m.kind) ++ found.2, found.1.map Match.kind)

variable {p}

theorem scans_finditer (l : List Char) : p.Scans [] l (p.finditer l).1 (p.finditer l).2 :=
  finditer_eq_iff.mp rfl

/-- A gap in front of the first match belongs to what comes first. -/
theorem Scans.shift {gap l tail : List Char} {ms : List (Match κ)} (h : p.Scans gap l ms tail)
    (front : List Char) : ∃ ms' tail', p.Scans (front ++ gap) l ms' tail' ∧
      ms'.map Match.kind = ms.map Match.kind ∧
      (ms'.flatMap fun m => m.gap ++ repl m.kind) ++ tail' =
        front ++ ((ms.flatMap fun m => m.gap ++ repl m.kind) ++ tail) := by
  induction h with
  | done gap => exact ⟨[], front ++ gap, .done _, rfl, rfl⟩
  | @skip gap r tail c ms hrun rest ih =>
    obtain ⟨ms', tail', hscans, hkinds, htext⟩ := ih
    rw [← List.append_assoc] at hscans
    exact ⟨ms', tail', .skip hrun hscans, hkinds, htext⟩
  | @found gap l t r tail k ms hrun rest ih =>
    exact ⟨⟨front ++ gap, k, t⟩ :: ms, tail, .found hrun rest, rfl, by simp⟩

@[simp] theorem sub_nil : p.sub repl [] = ([], []) := rfl

theorem sub_of_scans {gap l tail : List Char} {ms : List (Match κ)} (h : p.Scans gap l ms tail) :
    (ms.flatMap fun m => m.gap ++ repl m.kind) ++ tail = gap ++ (p.sub repl l).1 ∧
      ms.map Match.kind = (p.sub repl l).2 := by
  obtain ⟨ms', tail', hscans, hkinds, htext⟩ := (scans_finditer l).shift repl gap
  rw [List.append_nil] at hscans
  obtain ⟨rfl, rfl⟩ := hscans.unique h
  exact ⟨htext, hkinds⟩

/-- Where nothing matches, the next character stays. -/
theorem sub_cons_of_none {c : Char} {l : List Char} (h : p.run (c :: l) = none) :
    p.sub repl (c :: l) = (c :: (p.sub repl l).1, (p.sub repl l).2) := by
  obtain ⟨ms, tail, hscans, hkinds, htext⟩ := (scans_finditer l).shift repl [c]
  have hline : p.Scans [] (c :: l) ms tail := .skip h hscans
  have hwhole := sub_of_scans repl hline
  exact Prod.ext (hwhole.1.symm.trans htext) (hwhole.2.symm.trans hkinds)

/-- What is matched is replaced, and the search goes on behind it. -/
theorem sub_of_run {l t r : List Char} {k : κ} (h : p.run l = some (k, t, r)) :
    p.sub repl l = (repl k ++ (p.sub repl r).1, k :: (p.sub repl r).2) := by
  have hline : p.Scans [] l (⟨[], k, t⟩ :: (p.finditer r).1) (p.finditer r).2 :=
    .found h (scans_finditer r)
  have hwhole := sub_of_scans repl hline
  refine Prod.ext (hwhole.1.symm.trans ?_) (hwhole.2.symm.trans rfl)
  simp [sub]

/-! ## Along a search -/

/-- Nowhere in the text does the pattern match. -/
def Free (p : Pattern κ) (l : List Char) : Prop := ∀ s, s <:+ l → p.run s = none

theorem free_nil : p.Free [] := by
  intro s hs
  rw [List.suffix_nil.mp hs, run_nil]

theorem free_cons_iff {c : Char} {l : List Char} :
    p.Free (c :: l) ↔ p.run (c :: l) = none ∧ p.Free l := by
  constructor
  · intro h
    exact ⟨h _ (List.suffix_refl _), fun s hs => h s (hs.trans (List.suffix_cons c l))⟩
  · rintro ⟨hrun, hfree⟩ s hs
    rcases List.suffix_cons_iff.mp hs with rfl | hs
    · exact hrun
    · exact hfree s hs

/-- A search skips a character or goes on behind a match. -/
theorem search_induction {motive : List Char → Prop} (nil : motive [])
    (skip : ∀ c l, p.run (c :: l) = none → motive l → motive (c :: l))
    (found : ∀ l k t r, p.run l = some (k, t, r) → motive r → motive l) (l : List Char) :
    motive l := by
  have hall : ∀ gap l ms tail, p.Scans gap l ms tail → motive l := by
    intro gap l ms tail h
    induction h with
    | done => exact nil
    | skip hrun _ ih => exact skip _ _ hrun ih
    | found hrun _ ih => exact found _ _ _ _ hrun ih
  exact hall _ l _ _ (scans_finditer l)

theorem sub_of_free {l : List Char} (h : p.Free l) : p.sub repl l = (l, []) := by
  induction l with
  | nil => rfl
  | cons c l ih =>
    obtain ⟨hrun, hfree⟩ := free_cons_iff.mp h
    rw [sub_cons_of_none repl hrun, ih hfree]

/-- Nothing was there to replace, or the first match was. -/
theorem sub_first (l : List Char) : p.sub repl l = (l, []) ∨ ∃ gap t r k,
    l = gap ++ (t ++ r) ∧ p.run (t ++ r) = some (k, t, r) ∧
      (p.sub repl l).1 = gap ++ (repl k ++ (p.sub repl r).1) := by
  induction l using search_induction (p := p) with
  | nil => exact .inl rfl
  | skip c l hrun ih =>
    rw [sub_cons_of_none repl hrun]
    rcases ih with hsame | ⟨gap, t, r, k, hl, hmatch, hsub⟩
    · exact .inl (by rw [hsame])
    · exact .inr ⟨c :: gap, t, r, k, by rw [hl]; rfl, hmatch, by rw [hsub]; rfl⟩
  | found l k t r hrun ih =>
    obtain ⟨rfl, -⟩ := p.splits hrun
    exact .inr ⟨[], t, r, k, rfl, hrun, by rw [sub_of_run repl hrun]; rfl⟩

theorem suffix_append_cases {a b s : List Char} (h : s <:+ a ++ b) :
    s <:+ b ∨ ∃ w, w <:+ a ∧ w ≠ [] ∧ s = w ++ b := by
  obtain ⟨t, ht⟩ := h
  rcases List.append_eq_append_iff.mp ht with ⟨w, rfl, rfl⟩ | ⟨w, rfl, rfl⟩
  · by_cases hw : w = []
    · subst hw
      exact .inl (List.suffix_refl b)
    · exact .inr ⟨w, List.suffix_append _ _, hw, rfl⟩
  · exact .inl (List.suffix_append _ _)

/-- What another pattern finds in the outcome it found in the text, if it sees no further than
the marker and finds nothing in it. -/
theorem free_sub {κ' : Type v} {f : Pattern κ'} {mark : List Char} {head : κ → List Char}
    (hrepl : ∀ k, repl k = head k ++ mark)
    (hlocal : ∀ a z y, (f.run (a ++ (mark ++ z))).isSome = true → (f.run (a ++ y)).isSome = true)
    (hmark : ∀ w z, w <:+ mark → w ≠ [] → f.run (w ++ z) = none) {l : List Char}
    (hskip : ∀ s, s <:+ l → p.run s = none → f.run s = none)
    (hhead : ∀ s k t r, s <:+ l → p.run s = some (k, t, r) → ∃ v, t = head k ++ v ∧
      ∀ w, w <:+ head k → w ≠ [] → f.run (w ++ (v ++ r)) = none) : f.Free (p.sub repl l).1 := by
  have hbefore : ∀ a z y, f.run (a ++ y) = none → f.run (a ++ (mark ++ z)) = none := by
    intro a z y hnone
    by_contra hsome
    have hlater := hlocal a z y (Option.isSome_iff_ne_none.mpr hsome)
    rw [hnone] at hlater
    cases hlater
  induction l using search_induction (p := p) with
  | nil => exact free_nil
  | skip c l hrun ih =>
    have hfree := ih (fun s hs => hskip s (hs.trans (List.suffix_cons c l)))
      fun s k t r hs => hhead s k t r (hs.trans (List.suffix_cons c l))
    rw [sub_cons_of_none repl hrun, free_cons_iff]
    refine ⟨?_, hfree⟩
    have hnone := hskip _ (List.suffix_refl _) hrun
    rcases sub_first repl (p := p) l with hsame | ⟨gap, t, r, k, hl, hmatch, hsub⟩
    · rwa [hsame]
    · obtain ⟨v, rfl, -⟩ := hhead _ k t r (hl ▸ (List.suffix_append _ _).trans (List.suffix_cons c _))
        hmatch
      rw [hl] at hnone
      rw [hsub, hrepl]
      have hfront := hbefore (c :: gap ++ head k) (p.sub repl r).1 (v ++ r) (by simpa using hnone)
      simpa using hfront
  | found l k t r hrun ih =>
    obtain ⟨v, rfl, hfront⟩ := hhead _ k t r (List.suffix_refl _) hrun
    obtain ⟨rfl, -⟩ := p.splits hrun
    have hfree := ih (fun s hs => hskip s (hs.trans (List.suffix_append _ _)))
      fun s k t r hs => hhead s k t r (hs.trans (List.suffix_append _ _))
    rw [sub_of_run repl hrun, hrepl]
    intro s hs
    show f.run s = none
    rw [List.append_assoc] at hs
    rcases suffix_append_cases hs with hs | ⟨w, hw, hne, rfl⟩
    · rcases suffix_append_cases hs with hs | ⟨w, hw, hne, rfl⟩
      · exact hfree s hs
      · exact hmark w _ hw hne
    · exact hbefore w _ (v ++ r) (hfront w hw hne)

/-- What begins before the character and matches does so whatever stands in its place. -/
def StopsAt (f : Pattern κ) (c : Char) : Prop :=
  ∀ a z y, (f.run (a ++ c :: z)).isSome = true → (f.run (a ++ y)).isSome = true

theorem StopsAt.run_before {f : Pattern κ} {c : Char} (h : f.StopsAt c) {a : List Char}
    (hnone : f.run a = none) (z : List Char) : f.run (a ++ c :: z) = none := by
  by_contra hsome
  have hbefore := h a z [] (Option.isSome_iff_ne_none.mpr hsome)
  rw [List.append_nil, hnone] at hbefore
  cases hbefore

/-! ## Where the text was replaced -/

/-- `Rewritten mark spans i l l'`: from place `i` on, `l` became `l'` as the texts in the spans
gave way to `mark`. -/
inductive Rewritten (mark : List Char) : List (Nat × Nat) → Nat → List Char → List Char → Prop
  | nil (i : Nat) : Rewritten mark [] i [] []
  | keep (c : Char) {spans : List (Nat × Nat)} {i : Nat} {l l' : List Char}
      (rest : Rewritten mark spans (i + 1) l l') : Rewritten mark spans i (c :: l) (c :: l')
  | replace (v : List Char) {spans : List (Nat × Nat)} {i : Nat} {l l' : List Char}
      (rest : Rewritten mark spans (i + v.length) l l') :
      Rewritten mark ((i, i + v.length) :: spans) i (v ++ l) (mark ++ l')

theorem Rewritten.keeps {mark : List Char} {spans : List (Nat × Nat)} (front : List Char) {i : Nat}
    {l l' : List Char} (h : Rewritten mark spans (i + front.length) l l') :
    Rewritten mark spans i (front ++ l) (front ++ l') := by
  induction front generalizing i with
  | nil => exact h
  | cons c front ih =>
    refine .keep c (ih ?_)
    rw [List.length_cons] at h
    rwa [show i + 1 + front.length = i + (front.length + 1) by omega]

/-- `Found p i l ms`: the matches in `l`, which begins at place `i`, with their places. -/
inductive Found (p : Pattern κ) : Nat → List Char → List (Nat × κ × List Char) → Prop
  | nil (i : Nat) : Found p i [] []
  | skip {c : Char} {l : List Char} {i : Nat} {ms : List (Nat × κ × List Char)}
      (h : p.run (c :: l) = none) (rest : Found p (i + 1) l ms) : Found p i (c :: l) ms
  | found {l t r : List Char} {k : κ} {i : Nat} {ms : List (Nat × κ × List Char)}
      (h : p.run l = some (k, t, r)) (rest : Found p (i + t.length) r ms) :
      Found p i l ((i, k, t) :: ms)

theorem exists_found (i : Nat) (l : List Char) : ∃ ms, p.Found i l ms := by
  induction l using search_induction (p := p) generalizing i with
  | nil => exact ⟨[], .nil i⟩
  | skip c l hrun ih =>
    obtain ⟨ms, hms⟩ := ih (i + 1)
    exact ⟨ms, .skip hrun hms⟩
  | found l k t r hrun ih =>
    obtain ⟨ms, hms⟩ := ih (i + t.length)
    exact ⟨_, .found hrun hms⟩

namespace Found

variable {i : Nat} {l : List Char} {ms : List (Nat × κ × List Char)}

theorem place (h : p.Found i l ms) {j : Nat} {k : κ} {t : List Char} (hm : (j, k, t) ∈ ms) :
    ∃ front r, l = front ++ (t ++ r) ∧ j = i + front.length ∧ p.run (t ++ r) = some (k, t, r) := by
  induction h with
  | nil => cases hm
  | @skip c l i ms hrun _ ih =>
    obtain ⟨front, r, rfl, rfl, hmatch⟩ := ih hm
    exact ⟨c :: front, r, rfl, by rw [List.length_cons]; omega, hmatch⟩
  | @found l t' r k' i ms hrun _ ih =>
    obtain ⟨rfl, -⟩ := p.splits hrun
    rcases List.mem_cons.mp hm with heq | hm
    · cases heq
      exact ⟨[], r, rfl, rfl, hrun⟩
    · obtain ⟨front, r', rfl, rfl, hmatch⟩ := ih hm
      exact ⟨t' ++ front, r', (List.append_assoc _ _ _).symm,
        by rw [List.length_append, Nat.add_assoc], hmatch⟩

/-- Wherever the pattern matches, a match was found there, or one around that place. -/
theorem covers (h : p.Found i l ms) {front s t r : List Char} {k : κ} (hl : l = front ++ s)
    (hrun : p.run s = some (k, t, r)) : (i + front.length, k, t) ∈ ms ∨
      ∃ m ∈ ms, m.1 < i + front.length ∧ i + front.length < m.1 + m.2.2.length := by
  induction h generalizing front with
  | nil =>
    rw [(List.append_eq_nil_iff.mp hl.symm).2, run_nil] at hrun
    cases hrun
  | @skip c l i ms hnone _ ih =>
    cases front with
    | nil =>
      rw [show s = c :: l from hl.symm, hnone] at hrun
      cases hrun
    | cons c' front =>
      have hrest := ih (List.cons.inj hl).2
      rw [List.length_cons]
      rwa [show i + 1 + front.length = i + (front.length + 1) by omega] at hrest
  | @found l t' r' k' i ms hmatch _ ih =>
    obtain ⟨rfl, hne⟩ := p.splits hmatch
    cases front with
    | nil =>
      rw [show s = t' ++ r' from hl.symm, hmatch] at hrun
      cases hrun
      exact .inl List.mem_cons_self
    | cons c front =>
      by_cases hlen : (c :: front).length < t'.length
      · refine .inr ⟨_, List.mem_cons_self, ?_, ?_⟩
        · simp only [List.length_cons]
          omega
        · show i + (c :: front).length < i + t'.length
          omega
      · obtain ⟨front', hfront⟩ : ∃ front', c :: front = t' ++ front' :=
          (List.prefix_of_prefix_length_le (List.prefix_append t' r')
            (hl ▸ List.prefix_append _ _) (by omega)).imp fun _ h => h.symm
        rw [hfront, List.append_assoc] at hl
        have hrest := ih (List.append_cancel_left hl)
        rw [hfront, List.length_append]
        rw [Nat.add_assoc] at hrest
        rcases hrest with hmem | ⟨m, hm, hbounds⟩
        · exact .inl (List.mem_cons_of_mem _ hmem)
        · exact .inr ⟨m, List.mem_cons_of_mem _ hm, hbounds⟩

/-- What `sub` makes of a text, where the front of every match stays. -/
theorem rewritten (h : p.Found i l ms) {mark : List Char} {head : κ → List Char}
    (hrepl : ∀ k, repl k = head k ++ mark)
    (hhead : ∀ l k t r, p.run l = some (k, t, r) → head k <+: t) :
    Rewritten mark (ms.map fun m => (m.1 + (head m.2.1).length, m.1 + m.2.2.length)) i l
      (p.sub repl l).1 := by
  induction h with
  | nil i => exact .nil i
  | @skip c l i ms hrun _ ih =>
    rw [sub_cons_of_none repl hrun]
    exact .keep c ih
  | @found l t r k i ms hrun _ ih =>
    obtain ⟨rfl, -⟩ := p.splits hrun
    obtain ⟨v, rfl⟩ := hhead _ _ _ _ hrun
    rw [sub_of_run repl hrun, hrepl, List.append_assoc, List.append_assoc]
    refine .keeps (head k) ?_
    rw [List.map_cons]
    show Rewritten mark ((i + (head k).length, i + (head k ++ v).length) :: _) _ _ _
    rw [List.length_append, ← Nat.add_assoc] at ih ⊢
    exact .replace v ih

end Found

end Pattern
end Py
