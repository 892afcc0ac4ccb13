import DotRunner.Graph

/-!
# Edge conditions

`key=value`, `key!=value` and bare keys, joined by `&&`.
-/

namespace DotRunner

open Py

inductive ClauseOp where
  | ne
  | eq
  | truthy
deriving DecidableEq

structure Clause where
  key : String
  op : ClauseOp
  value : String
deriving DecidableEq

def stripped (l : List Char) : String := String.ofList (Text.strip l)

/-- One piece between `&&`; an empty one is no clause.  `!=` is looked for
before `=`, which it contains. -/
def parseClause (piece : List Char) : Option Clause :=
  let clause := Text.strip piece
  if clause.isEmpty then none
  else match Text.splitOnce ['!', '='] clause with
    | some (key, value) => some ⟨stripped key, .ne, stripped value⟩
    | none => match Text.splitOnce ['='] clause with
      | some (key, value) => some ⟨stripped key, .eq, stripped value⟩
      | none => some ⟨String.ofList clause, .truthy, ""⟩

def parseCondition (condition : String) : List Clause :=
  if condition = "" then []
  else (Text.split ['&', '&'] condition.toList).filterMap parseClause

variable [Runtime]

def contextText (context : PipelineContext) (key : String) : Option String :=
  match context.get key with
  | .none => none
  | v => some v.toStr

/-- `outcome.preferred_label or outcome.status.value` -/
def outcomeKey (o : Outcome) : String :=
  if truthyStr o.preferredLabel then o.preferredLabel.getD "" else o.status.value

def resolveKey (key : String) (outcome : Outcome) (context : PipelineContext) : String :=
  if key = "outcome" then outcomeKey outcome
  else if key = "preferred_label" then outcome.preferredLabel.getD ""
  else match Text.dropPrefix? "context.".toList key.toList with
    | some shortKey =>
      ((contextText context key).or (contextText context (String.ofList shortKey))).getD ""
    | none => (contextText context key).getD ""

def evaluateClause (c : Clause) (outcome : Outcome) (context : PipelineContext) : Bool :=
  let resolved := resolveKey c.key outcome context
  match c.op with
  | .ne => resolved != c.value
  | .eq => resolved == c.value
  | .truthy => resolved != ""

def evaluateCondition (condition : String) (outcome : Outcome)
    (context : PipelineContext) : Bool :=
  if stripText condition = "" then true
  else (parseCondition condition).all fun c => evaluateClause c outcome context

/-- The context keys a clause looks up. -/
def Clause.reads (c : Clause) : List String :=
  if c.key = "outcome" ∨ c.key = "preferred_label" then []
  else match Text.dropPrefix? "context.".toList c.key.toList with
    | some shortKey => [c.key, String.ofList shortKey]
    | none => [c.key]

def conditionReads (condition : String) : List String :=
  (parseCondition condition).flatMap Clause.reads

omit [Runtime] in
theorem outcomeKey_congr {a b : Outcome} (hs : a.status = b.status)
    (hp : a.preferredLabel = b.preferredLabel) : outcomeKey a = outcomeKey b := by
  simp only [outcomeKey, hp, hs]

theorem resolveKey_congr {a b : Outcome} {c d : PipelineContext} (cl : Clause)
    (hs : a.status = b.status) (hp : a.preferredLabel = b.preferredLabel)
    (hc : ∀ k ∈ cl.reads, contextText c k = contextText d k) :
    resolveKey cl.key a c = resolveKey cl.key b d := by
  unfold resolveKey
  by_cases hout : cl.key = "outcome"
  · rw [if_pos hout, if_pos hout]
    exact outcomeKey_congr hs hp
  · by_cases hpref : cl.key = "preferred_label"
    · rw [if_neg hout, if_neg hout, if_pos hpref, if_pos hpref, hp]
    · rw [Clause.reads, if_neg (not_or.mpr ⟨hout, hpref⟩)] at hc
      rw [if_neg hout, if_neg hout, if_neg hpref, if_neg hpref]
      split
      · rename_i shortKey hshort
        rw [hshort] at hc
        rw [hc cl.key (by simp), hc (String.ofList shortKey) (by simp)]
      · rename_i hnone
        rw [hnone] at hc
        rw [hc cl.key (by simp)]

/-- Outcomes that route alike satisfy the same conditions in contexts that spell
what these read alike. -/
theorem evaluateCondition_congr {a b : Outcome} {c d : PipelineContext} (condition : String)
    (hs : a.status = b.status) (hp : a.preferredLabel = b.preferredLabel)
    (hc : ∀ k ∈ conditionReads condition, contextText c k = contextText d k) :
    evaluateCondition condition a c = evaluateCondition condition b d := by
  have hclause : ∀ cl ∈ parseCondition condition, evaluateClause cl a c = evaluateClause cl b d := by
    intro cl hcl
    have hreads : ∀ k ∈ cl.reads, contextText c k = contextText d k := fun k hk =>
      hc k (List.mem_flatMap.mpr ⟨cl, hcl, hk⟩)
    simp only [evaluateClause, resolveKey_congr cl hs hp hreads]
  unfold evaluateCondition
  by_cases he : stripText condition = ""
  · rw [if_pos he, if_pos he]
  · rw [if_neg he, if_neg he, Bool.eq_iff_iff, List.all_eq_true, List.all_eq_true]
    exact forall₂_congr fun cl hcl => by rw [hclause cl hcl]

end DotRunner
