import DotRunner.EdgeSelection
import DotRunner.Py.Ascii
import Mathlib.Data.List.DropRight
import Mathlib.Data.List.Induction
import Mathlib.Data.String.Basic

/-!
# The reference for edge selection

What section 3.3 of the specification calls the selected edge, as a relation, and
how far the selection agrees with it.  The two read labels differently: the
pattern for `K - ` also takes a hyphen directly behind the first character.
-/

namespace DotRunner

open Py

/-! ## The best of some edges -/

/-- The first edge of highest weight and, among these, of least target. -/
def Best (l : List Edge) (e : Edge) : Prop :=
  ∃ front back, l = front ++ e :: back ∧ (∀ a ∈ front, e.before a = true) ∧
    ∀ a ∈ back, a.before e = false

namespace Edge

theorem before_iff {a b : Edge} : a.before b = true ↔
    b.weight < a.weight ∨ (a.weight = b.weight ∧ a.toNode < b.toNode) := by
  simp [before]

theorem not_before_iff {a b : Edge} : a.before b = false ↔
    a.weight ≤ b.weight ∧ (a.weight = b.weight → b.toNode ≤ a.toNode) := by
  rw [← Bool.not_eq_true, before_iff, not_or, not_and, not_lt, not_lt]

theorem before_trans {a b c : Edge} (hab : a.before b = true) (hbc : b.before c = true) :
    a.before c = true := by
  rw [before_iff] at hab hbc ⊢
  grind

/-- What comes before an edge comes before everything that does not. -/
theorem before_of_not_before {a b c : Edge} (hab : a.before b = true) (hcb : c.before b = false) :
    a.before c = true := by
  rw [before_iff] at hab ⊢
  rw [not_before_iff] at hcb
  grind

end Edge

/-- One more edge for the fold. -/
theorem Best.snoc {l : List Edge} {e : Edge} (h : Best l e) (a : Edge) :
    Best (l ++ [a]) (if a.before e then a else e) := by
  obtain ⟨front, back, rfl, hfront, hback⟩ := h
  by_cases ha : a.before e = true
  · rw [if_pos ha]
    refine ⟨front ++ e :: back, [], rfl, fun b hb => ?_, nofun⟩
    rw [List.mem_append, List.mem_cons] at hb
    rcases hb with hb | rfl | hb
    · exact Edge.before_trans ha (hfront b hb)
    · exact ha
    · exact Edge.before_of_not_before ha (hback b hb)
  · rw [if_neg ha]
    rw [Bool.not_eq_true] at ha
    refine ⟨front, back ++ [a], by simp, hfront, fun b hb => ?_⟩
    rw [List.mem_append, List.mem_singleton] at hb
    rcases hb with hb | rfl
    · exact hback b hb
    · exact ha

/-- The fold ends at the best edge it passed. -/
theorem best_foldl (l : List Edge) (e : Edge) :
    Best (e :: l) (l.foldl (fun best a => if a.before best then a else best) e) := by
  induction l using List.reverseRecOn with
  | nil => exact ⟨[], [], rfl, nofun, nofun⟩
  | append_singleton l a ih =>
    rw [List.foldl_append, List.foldl_cons, List.foldl_nil, ← List.cons_append]
    exact ih.snoc a

theorem Best.unique {l : List Edge} {e e' : Edge} (h : Best l e) (h' : Best l e') : e = e' := by
  obtain ⟨front, back, rfl, hfront, hback⟩ := h
  obtain ⟨front', back', heq, hfront', hback'⟩ := h'
  rcases List.append_eq_append_iff.mp heq with ⟨mid, hmid, hrest⟩ | ⟨mid, hmid, hrest⟩
  · cases mid with
    | nil =>
      rw [List.nil_append, List.cons.injEq] at hrest
      exact hrest.1
    | cons b mid =>
      rw [List.cons_append, List.cons.injEq] at hrest
      obtain ⟨rfl, rfl⟩ := hrest
      have hbefore := hfront' e (hmid ▸ by simp)
      rw [hback e' (by simp)] at hbefore
      cases hbefore
  · cases mid with
    | nil =>
      rw [List.nil_append, List.cons.injEq] at hrest
      exact hrest.1.symm
    | cons b mid =>
      rw [List.cons_append, List.cons.injEq] at hrest
      obtain ⟨rfl, rfl⟩ := hrest
      have hbefore := hfront e' (hmid ▸ by simp)
      rw [hback' e (by simp)] at hbefore
      cases hbefore

theorem bestByWeightThenLexical_eq_some {l : List Edge} {e : Edge} :
    bestByWeightThenLexical l = some e ↔ Best l e := by
  cases l with
  | nil => exact ⟨nofun, fun ⟨front, back, h, _⟩ => absurd h (by simp)⟩
  | cons a l =>
    rw [bestByWeightThenLexical, Option.some_inj]
    exact ⟨fun h => h ▸ best_foldl l a, fun h => (best_foldl l a).unique h⟩

/-! ## The reference -/

def First (p : Edge → Bool) (l : List Edge) (e : Edge) : Prop :=
  ∃ front back, l = front ++ e :: back ∧ p e = true ∧ ∀ a ∈ front, p a = false

theorem find?_eq_some_iff_first {p : Edge → Bool} {l : List Edge} {e : Edge} :
    l.find? p = some e ↔ First p l e := by
  rw [List.find?_eq_some_iff_append]
  constructor
  · rintro ⟨hp, front, back, hsplit, hfront⟩
    exact ⟨front, back, hsplit, hp, fun a ha => by simpa using hfront a ha⟩
  · rintro ⟨front, back, hsplit, hp, hfront⟩
    exact ⟨hp, front, back, hsplit, fun a ha => by simp [hfront a ha]⟩

/-- An unconditional edge to the node a suggestion names. -/
def leadsTo (raw : Value) (e : Edge) : Bool :=
  e.unconditional && coerceSuggestedId raw == some e.toNode

/-- The first edge to the first suggestion some edge leads to. -/
def FirstSuggested (edges : List Edge) (outcome : Outcome) (e : Edge) : Prop :=
  ∃ front raw back, outcome.suggestions = front ++ raw :: back ∧
    (∀ r ∈ front, ∀ a ∈ edges, leadsTo r a = false) ∧ First (leadsTo raw) edges e

theorem suggestedMatch_eq_findSome? (edges : List Edge) (outcome : Outcome) :
    suggestedMatch edges outcome =
      outcome.suggestions.findSome? fun raw => edges.find? (leadsTo raw) := by
  unfold suggestedMatch
  refine congrArg (fun f => outcome.suggestions.findSome? f) (funext fun raw => ?_)
  unfold leadsTo
  cases coerceSuggestedId raw with
  | none => exact (List.find?_eq_none.mpr fun a _ => by simp).symm
  | some id =>
    simp only [Option.some_beq_some]
    refine congrArg (fun p => edges.find? p) (funext fun e => ?_)
    rw [BEq.comm (a := id)]

theorem suggestedMatch_eq_some {edges : List Edge} {outcome : Outcome} {e : Edge} :
    suggestedMatch edges outcome = some e ↔ FirstSuggested edges outcome e := by
  rw [suggestedMatch_eq_findSome?, List.findSome?_eq_some_iff]
  constructor
  · rintro ⟨front, raw, back, hsplit, hfind, hfront⟩
    refine ⟨front, raw, back, hsplit, fun r hr a ha => ?_, find?_eq_some_iff_first.mp hfind⟩
    simpa using List.find?_eq_none.mp (hfront r hr) a ha
  · rintro ⟨front, raw, back, hsplit, hfront, hfirst⟩
    refine ⟨front, raw, back, hsplit, find?_eq_some_iff_first.mpr hfirst, fun r hr => ?_⟩
    exact List.find?_eq_none.mpr fun a ha => by simp [hfront r hr a ha]

theorem suggestedMatch_eq_none {edges : List Edge} {outcome : Outcome} :
    suggestedMatch edges outcome = none ↔
      ∀ raw ∈ outcome.suggestions, ∀ a ∈ edges, leadsTo raw a = false := by
  rw [suggestedMatch_eq_findSome?, List.findSome?_eq_none_iff]
  simp only [List.find?_eq_none, Bool.not_eq_true]

section Reference

variable [Runtime] (normalize : String → String)

/-- An unconditional edge with the preferred label, where there is one. -/
def hasPreferredLabel (outcome : Outcome) (e : Edge) : Bool :=
  truthyStr outcome.preferredLabel && (e.unconditional && e.label != "" &&
    normalize e.label == normalize (outcome.preferredLabel.getD ""))

/-- The edge section 3.3 selects, by the first of its steps that finds one. -/
inductive Selects (edges : List Edge) (outcome : Outcome) (context : PipelineContext) :
    Edge → Prop
  | condition {e : Edge} (h : Best (conditionMatched edges outcome context) e) :
      Selects edges outcome context e
  | label {e : Edge} (hc : conditionMatched edges outcome context = [])
      (h : First (hasPreferredLabel normalize outcome) edges e) : Selects edges outcome context e
  | suggested {e : Edge} (hc : conditionMatched edges outcome context = [])
      (hl : ∀ a ∈ edges, hasPreferredLabel normalize outcome a = false)
      (h : FirstSuggested edges outcome e) : Selects edges outcome context e
  | weight {e : Edge} (hc : conditionMatched edges outcome context = [])
      (hl : ∀ a ∈ edges, hasPreferredLabel normalize outcome a = false)
      (hs : ∀ raw ∈ outcome.suggestions, ∀ a ∈ edges, leadsTo raw a = false)
      (h : Best (edges.filter Edge.unconditional) e) : Selects edges outcome context e

/-- The steps behind the label. -/
def laterSteps (edges : List Edge) (outcome : Outcome) : Option Edge :=
  (suggestedMatch edges outcome).or (bestUnconditional edges)

/-- The steps of the selection, for any reading of labels. -/
def pick (edges : List Edge) (outcome : Outcome) (context : PipelineContext) : Option Edge :=
  (bestByWeightThenLexical (conditionMatched edges outcome context)).or
    ((edges.find? (hasPreferredLabel normalize outcome)).or (laterSteps edges outcome))

theorem pick_eq_some {edges : List Edge} {outcome : Outcome} {context : PipelineContext} {e : Edge} :
    pick normalize edges outcome context = some e ↔ Selects normalize edges outcome context e := by
  have hnone : ∀ p : Edge → Bool, edges.find? p = none ↔ ∀ a ∈ edges, p a = false := fun p => by
    simp only [List.find?_eq_none, Bool.not_eq_true]
  simp only [pick, laterSteps, Option.or_eq_some_iff, bestByWeightThenLexical_eq_some,
    bestByWeightThenLexical_eq_none, find?_eq_some_iff_first, hnone, suggestedMatch_eq_some,
    suggestedMatch_eq_none, bestUnconditional]
  constructor
  · rintro (h | ⟨hc, h | ⟨hl, h | ⟨hs, h⟩⟩⟩)
    · exact .condition h
    · exact .label hc h
    · exact .suggested hc hl h
    · exact .weight hc hl hs h
  · rintro (h | ⟨hc, h⟩ | ⟨hc, hl, h⟩ | ⟨hc, hl, hs, h⟩)
    · exact .inl h
    · exact .inr ⟨hc, .inl h⟩
    · exact .inr ⟨hc, .inr ⟨hl, .inl h⟩⟩
    · exact .inr ⟨hc, .inr ⟨hl, .inr ⟨hs, h⟩⟩⟩

end Reference

/-! ## Labels -/

/-- The rest behind `[K]`. -/
def bracketKey : List Char → Option (List Char)
  | '[' :: c :: ']' :: rest => if notNewline c then some (Text.lstrip rest) else none
  | _ => none

/-- The rest behind `K)`. -/
def parenKey : List Char → Option (List Char)
  | c :: ')' :: rest => if notNewline c then some (Text.lstrip rest) else none
  | _ => none

/-- The rest behind a key and a dash, whether blanks separate them or not. -/
def dashKey : List Char → Option (List Char)
  | c :: rest => match Text.lstrip rest with
    | '-' :: rest' => if notNewline c then some (Text.lstrip rest') else none
    | _ => none
  | _ => none

theorem dropAccelerator_eq (l : List Char) :
    dropAccelerator l = (((bracketKey l).or (parenKey l)).or (dashKey l)).getD l := rfl

/-- The rest behind `K -`. -/
def spacedDashKey (l : List Char) : Option (List Char) :=
  if l.tail.head? = some '-' then none else dashKey l

/-- Remove a leading `[K]`, `K)` or `K -`. -/
def dropAcceleratorForm (l : List Char) : List Char :=
  (((bracketKey l).or (parenKey l)).or (spacedDashKey l)).getD l

/-- A hyphen directly behind the first character, where neither is in brackets. -/
def hyphenated : List Char → Bool
  | c :: '-' :: rest => notNewline c && !(c == '[' && rest.head? == some ']')
  | _ => false

theorem rstrip_cons (c : Char) (l : List Char) : Text.rstrip (c :: l) =
    if Text.rstrip l = [] ∧ Text.isSpace c = true then [] else c :: Text.rstrip l := by
  unfold Text.rstrip
  simp only [List.reverse_cons, List.dropWhile_append, List.isEmpty_iff, List.reverse_eq_nil_iff]
  by_cases h : l.reverse.dropWhile Text.isSpace = []
  · rw [if_pos h, h, List.dropWhile_cons]
    by_cases hc : Text.isSpace c = true
    · rw [if_pos hc, if_pos ⟨rfl, hc⟩]
      rfl
    · rw [if_neg hc, if_neg fun h => hc h.2]
      rfl
  · rw [if_neg h, if_neg fun h' => h h'.1, List.reverse_append]
    rfl

theorem length_rstrip_le_cons (c : Char) (l : List Char) :
    (Text.rstrip l).length ≤ (Text.rstrip (c :: l)).length := by
  rw [rstrip_cons]
  split
  · rename_i h
    rw [h.1]
  · exact Nat.le_succ _

theorem length_strip_le (l : List Char) : (Text.strip l).length ≤ (Text.rstrip l).length := by
  unfold Text.strip Text.lstrip
  induction l with
  | nil => exact Nat.le_refl _
  | cons c l ih =>
    rw [List.dropWhile_cons]
    split
    · exact Nat.le_trans ih (length_rstrip_le_cons c l)
    · exact Nat.le_refl _

/-- Cutting the head off loses the hyphen. -/
theorem length_strip_lt (c : Char) (rest : List Char) :
    (Text.strip rest).length < (Text.strip (c :: '-' :: rest)).length := by
  have hdash : Text.rstrip ('-' :: rest) = '-' :: Text.rstrip rest := by
    rw [rstrip_cons, if_neg fun h => absurd h.2 (by decide)]
  have hlong : (Text.rstrip ('-' :: rest)).length ≤ (Text.strip (c :: '-' :: rest)).length := by
    unfold Text.strip Text.lstrip
    rw [List.dropWhile_cons]
    split
    · exact Nat.le_refl _
    · exact length_rstrip_le_cons c _
  have hshort := length_strip_le rest
  rw [hdash, List.length_cons] at hlong
  omega

theorem strip_lstrip (l : List Char) : Text.strip (Text.lstrip l) = Text.strip l := by
  unfold Text.strip Text.lstrip
  rw [List.dropWhile_idempotent]

/-- With a hyphen behind the first character only the brackets make a key. -/
theorem dropAccelerator_hyphen_iff (c : Char) (rest : List Char) :
    Text.strip (dropAccelerator (c :: '-' :: rest)) =
        Text.strip (dropAcceleratorForm (c :: '-' :: rest)) ↔
      hyphenated (c :: '-' :: rest) = false := by
  have hspaced : spacedDashKey (c :: '-' :: rest) = none := rfl
  have hparen : parenKey (c :: '-' :: rest) = none := rfl
  have hdash : dashKey (c :: '-' :: rest) =
      if notNewline c then some (Text.lstrip rest) else none := rfl
  rw [dropAccelerator_eq, dropAcceleratorForm, hspaced, hparen, hdash]
  cases hb : bracketKey (c :: '-' :: rest) with
  | some r =>
    have hkey : c = '[' ∧ rest.head? = some ']' := by
      unfold bracketKey at hb
      split at hb
      · rename_i heq
        cases heq
        exact ⟨rfl, rfl⟩
      · cases hb
    simp [hyphenated, hkey.1, hkey.2]
  | none =>
    have hkey : (c == '[' && rest.head? == some ']') = false := by
      rw [Bool.eq_false_iff]
      intro h
      rw [Bool.and_eq_true, beq_iff_eq, beq_iff_eq, List.head?_eq_some_iff] at h
      obtain ⟨rfl, r, rfl⟩ := h
      cases hb
    rw [hyphenated, hkey]
    by_cases hc : notNewline c = true
    · have hlt := length_strip_lt c rest
      simp only [hc, if_true, Option.none_or, Option.getD_some, Option.getD_none,
        Bool.not_false, Bool.and_true, Bool.true_eq_false, iff_false, strip_lstrip]
      intro heq
      rw [heq] at hlt
      exact absurd hlt (Nat.lt_irrefl _)
    · simp [hc]

/-- The pattern reads as the forms do, hyphens behind the first character apart. -/
theorem dropAccelerator_iff (l : List Char) :
    Text.strip (dropAccelerator l) = Text.strip (dropAcceleratorForm l) ↔ hyphenated l = false := by
  by_cases hdash : l.tail.head? = some '-'
  · cases l with
    | nil => cases hdash
    | cons c l =>
      obtain ⟨rest, rfl⟩ := List.head?_eq_some_iff.mp hdash
      exact dropAccelerator_hyphen_iff c rest
  · rw [dropAccelerator_eq, dropAcceleratorForm, spacedDashKey, if_neg hdash]
    refine iff_of_true rfl ?_
    unfold hyphenated
    split
    · exact absurd List.head?_cons hdash
    · rfl

section Readings

variable [Runtime]

/-- `normalize_label` with the accelerators the specification names. -/
def specNormalizeLabel (label : String) : String :=
  stripped (dropAcceleratorForm (stripLower label).toList)

theorem normalizeLabel_eq_iff (label : String) :
    normalizeLabel label = specNormalizeLabel label ↔
      hyphenated (stripLower label).toList = false := by
  rw [← dropAccelerator_iff]
  show String.ofList _ = String.ofList _ ↔ _
  exact String.ofList_inj

/-! ## Agreement -/

/-- The preferred label leads to the same edge in both readings of labels, or is
not asked for. -/
def ReadAlike (edges : List Edge) (outcome : Outcome) (context : PipelineContext) : Prop :=
  (∃ a ∈ edges, a.unconditional = false ∧ evaluateCondition a.condition outcome context = true) ∨
    (edges.find? (hasPreferredLabel normalizeLabel outcome)).or (laterSteps edges outcome) =
      (edges.find? (hasPreferredLabel specNormalizeLabel outcome)).or (laterSteps edges outcome)

theorem selectEdge_eq_pick (nodeId : String) (outcome : Outcome) (context : PipelineContext)
    (g : Graph) : selectEdge nodeId outcome context g =
      pick normalizeLabel (g.outgoingEdges nodeId) outcome context := by
  have hlabel : preferredLabelMatch (g.outgoingEdges nodeId) outcome =
      (g.outgoingEdges nodeId).find? (hasPreferredLabel normalizeLabel outcome) := by
    unfold preferredLabelMatch
    by_cases ht : truthyStr outcome.preferredLabel = true
    · rw [if_pos ht]
      refine congrArg (fun p => List.find? p _) (funext fun e => ?_)
      rw [hasPreferredLabel, ht, Bool.true_and]
    · rw [if_neg ht]
      refine (List.find?_eq_none.mpr fun a _ => ?_).symm
      simp [hasPreferredLabel, ht]
  rw [selectEdge, hlabel]
  rfl

/-- Labels without a hyphen behind their first character read alike. -/
theorem readAlike_of_not_hyphenated {edges : List Edge} {outcome : Outcome}
    (context : PipelineContext)
    (hp : ∀ p, outcome.preferredLabel = some p → hyphenated (stripLower p).toList = false)
    (he : ∀ a ∈ edges, a.unconditional = true → a.label ≠ "" →
      hyphenated (stripLower a.label).toList = false) : ReadAlike edges outcome context := by
  have hsame : ∀ a ∈ edges, hasPreferredLabel normalizeLabel outcome a =
      hasPreferredLabel specNormalizeLabel outcome a := by
    intro a ha
    unfold hasPreferredLabel
    cases hpref : outcome.preferredLabel with
    | none =>
      have hnone : truthyStr none = false := rfl
      rw [hnone, Bool.false_and, Bool.false_and]
    | some p =>
      rw [Option.getD_some, (normalizeLabel_eq_iff p).mpr (hp p hpref)]
      by_cases hu : a.unconditional = true ∧ a.label ≠ ""
      · rw [(normalizeLabel_eq_iff a.label).mpr (he a ha hu.1 hu.2)]
      · have hfalse : (a.unconditional && a.label != "") = false := by
          simpa [imp_iff_not_or] using hu
        rw [hfalse, Bool.false_and, Bool.false_and]
  exact .inr (by rw [← List.head?_filter, ← List.head?_filter, List.filter_congr hsame])

end Readings

section Demo

open Py.Ascii

/-- An edge for `e-mail`, and a heavier one without a label. -/
def mailGraph : Graph := Graph.ofNodes
  [{ id := "ask" }, { id := "letter" }, { id := "post" }]
  [{ fromNode := "ask", toNode := "letter", label := "e-mail" },
    { fromNode := "ask", toNode := "post", weight := 5 }]

end Demo

end DotRunner
