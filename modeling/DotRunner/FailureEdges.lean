import DotRunner.EdgeSelection
import DotRunner.Py.Ascii
import Mathlib.Data.List.TakeWhile

/-!
# Edges for failures

The key `outcome` of a condition reads the preferred label before the status.
An edge for what it reads keeps a walk off the unconditional edges of its node.
-/

namespace DotRunner

open Py

/-- The clause `outcome=v`. -/
def outcomeClause (v : String) : Clause := ⟨"outcome", .eq, v⟩

/-! ## Blank conditions -/

theorem all_isSpace_of_strip {l : List Char} (h : Text.strip l = []) :
    ∀ c ∈ l, Text.isSpace c = true := by
  have hleft : ∀ c ∈ l.takeWhile Text.isSpace, Text.isSpace c = true := fun c hc =>
    List.mem_takeWhile_imp hc
  have hright : ∀ c ∈ l.dropWhile Text.isSpace, Text.isSpace c = true := by
    rw [Text.strip, Text.rstrip, List.reverse_eq_nil_iff, List.dropWhile_eq_nil_iff] at h
    exact fun c hc => h c (List.mem_reverse.mpr hc)
  intro c hc
  rw [← List.takeWhile_append_dropWhile (p := Text.isSpace) (l := l), List.mem_append] at hc
  exact hc.elim (hleft c) (hright c)

/-- A blank condition has no clause. -/
theorem parseCondition_blank {condition : String} (h : stripText condition = "") :
    parseCondition condition = [] := by
  have hstrip : Text.strip condition.toList = [] := String.ofList_eq_empty_iff.mp h
  have hcut : Text.splitOnce ['&', '&'] condition.toList = none := by
    cases hs : Text.splitOnce ['&', '&'] condition.toList with
    | none => rfl
    | some p =>
      have hmem : '&' ∈ condition.toList := by
        rw [Text.append_of_splitOnce hs]
        simp
      exact absurd (all_isSpace_of_strip hstrip '&' hmem) (by decide)
  have hsplit : Text.split ['&', '&'] condition.toList = [condition.toList] := by
    rw [Text.split]
    cases condition.toList.length with
    | zero => rfl
    | succ n => rw [Text.splitFuel, hcut]
  unfold parseCondition
  rw [hsplit, List.filterMap_cons, parseClause, hstrip]
  split <;> rfl

section Routing

variable [Runtime]

theorem evaluateClause_outcome (v : String) (outcome : Outcome) (context : PipelineContext) :
    evaluateClause (outcomeClause v) outcome context = true ↔ outcomeKey outcome = v := by
  rw [evaluateClause, resolveKey, outcomeClause]
  simp

/-- The clauses of a condition that holds, hold. -/
theorem evaluateClause_of_mem {condition : String} {outcome : Outcome} {context : PipelineContext}
    (h : evaluateCondition condition outcome context = true) {c : Clause}
    (hc : c ∈ parseCondition condition) : evaluateClause c outcome context = true := by
  unfold evaluateCondition at h
  split at h
  · rename_i hblank
    rw [parseCondition_blank hblank] at hc
    exact absurd hc List.not_mem_nil
  · exact List.all_eq_true.mp h c hc

theorem evaluateCondition_outcome {condition v : String}
    (hc : parseCondition condition = [outcomeClause v]) {outcome : Outcome}
    (hv : outcomeKey outcome = v) (context : PipelineContext) :
    evaluateCondition condition outcome context = true := by
  unfold evaluateCondition
  split
  · rfl
  · rw [hc, List.all_cons, (evaluateClause_outcome v outcome context).mpr hv]
    rfl

omit [Runtime] in
theorem unconditional_false_of_clause {e : Edge} {c : Clause} (hc : c ∈ parseCondition e.condition) :
    e.unconditional = false := by
  rw [Edge.unconditional, beq_eq_false_iff_ne]
  intro hempty
  rw [hempty] at hc
  exact absurd hc List.not_mem_nil

/-- Where some condition of a node holds, the selected edge has one that holds. -/
theorem selectEdge_of_condition {nodeId : String} {outcome : Outcome} {context : PipelineContext}
    {g : Graph} {a : Edge} (ha : a ∈ g.outgoingEdges nodeId) (hu : a.unconditional = false)
    (hc : evaluateCondition a.condition outcome context = true) :
    ∃ e, selectEdge nodeId outcome context g = some e ∧ e.unconditional = false ∧
      evaluateCondition e.condition outcome context = true := by
  have hmem : a ∈ conditionMatched (g.outgoingEdges nodeId) outcome context :=
    List.mem_filter.mpr ⟨ha, by rw [hu, hc]; rfl⟩
  cases hbest : bestByWeightThenLexical (conditionMatched (g.outgoingEdges nodeId) outcome context) with
  | none =>
    rw [bestByWeightThenLexical_eq_none.mp hbest] at hmem
    exact absurd hmem List.not_mem_nil
  | some e =>
    have he := List.mem_filter.mp (bestByWeightThenLexical_mem hbest)
    rw [Bool.and_eq_true, Bool.not_eq_true'] at he
    refine ⟨e, ?_, he.2⟩
    rw [selectEdge, hbest, Option.some_or]

/-- A failed node with an edge for what `outcome` reads, `fail` where it has no
preferred label, leaves by an edge whose condition holds, and by none that asks
for another outcome. -/
theorem failed_node_leaves_by_condition (nodeId : String) (outcome : Outcome)
    (context : PipelineContext) (g : Graph) (hfail : outcome.status = .fail) {a : Edge}
    (ha : a ∈ g.outgoingEdges nodeId) {v : String}
    (hv : v = if truthyStr outcome.preferredLabel then outcome.preferredLabel.getD "" else "fail")
    (hcond : parseCondition a.condition = [outcomeClause v]) :
    ∃ e, selectEdge nodeId outcome context g = some e ∧ e.unconditional = false ∧
      evaluateCondition e.condition outcome context = true ∧
      ∀ u, outcomeClause u ∈ parseCondition e.condition → u = v := by
  have hkey : outcomeKey outcome = v := by
    rw [hv, outcomeKey, hfail]
    rfl
  have hclause : outcomeClause v ∈ parseCondition a.condition := by
    rw [hcond]
    exact List.mem_singleton_self _
  obtain ⟨e, hsel, hu, he⟩ := selectEdge_of_condition ha (unconditional_false_of_clause hclause)
    (evaluateCondition_outcome hcond hkey context)
  refine ⟨e, hsel, hu, he, fun u hmem => ?_⟩
  rw [← (evaluateClause_outcome u outcome context).mp (evaluateClause_of_mem he hmem), hkey]

end Routing

section Demo

open Py.Ascii

/-- A node with an edge for failures and an unconditional one. -/
def retryGraph : Graph := Graph.ofNodes
  [{ id := "work" }, { id := "recover" }, { id := "next" }]
  [{ fromNode := "work", toNode := "recover", condition := "outcome=fail" },
    { fromNode := "work", toNode := "next" }]

theorem failed_node_recovers : ∃ e, selectEdge "work" { status := .fail } {} retryGraph = some e ∧
    e.unconditional = false ∧ evaluateCondition e.condition { status := .fail } {} = true ∧
    ∀ u, outcomeClause u ∈ parseCondition e.condition → u = "fail" :=
  failed_node_leaves_by_condition "work" { status := .fail } {} retryGraph rfl
    (a := { fromNode := "work", toNode := "recover", condition := "outcome=fail" })
    (by rw [Graph.mem_outgoingEdges]; exact ⟨List.mem_cons_self, rfl⟩) rfl (by decide +kernel)

/-- A failed node whose label is `retry` takes the edge for success. -/
theorem labelled_failure_goes_on :
    ¬ ∀ (nodeId : String) (outcome : Outcome) (context : PipelineContext) (g : Graph) (a : Edge),
      outcome.status = .fail → a ∈ g.outgoingEdges nodeId →
      parseCondition a.condition = [outcomeClause "fail"] →
      ∃ e, selectEdge nodeId outcome context g = some e ∧ e.unconditional = false ∧
        evaluateCondition e.condition { status := .fail } context = true ∧
        outcomeClause "success" ∉ parseCondition e.condition := by
  intro h
  obtain ⟨e, hsel, hu, -⟩ := h "work" { status := .fail, preferredLabel := some "retry" } {} retryGraph
    { fromNode := "work", toNode := "recover", condition := "outcome=fail" } rfl
    (by rw [Graph.mem_outgoingEdges]; exact ⟨List.mem_cons_self, rfl⟩) (by decide +kernel)
  have hcode : (selectEdge "work" { status := .fail, preferredLabel := some "retry" } {}
      retryGraph).map Edge.unconditional = some true := by decide +kernel
  rw [hsel, Option.map_some, hu] at hcode
  exact absurd hcode (by decide)

end Demo

end DotRunner
