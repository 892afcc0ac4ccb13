import DotRunner.Conditions

/-!
# Edge selection

The five steps that pick the edge a walk leaves a node by: conditions, preferred
label, suggested ids, weight, target id.
-/

namespace DotRunner

open Py

/-- The order of `sorted(edges, key=(-weight, to_node))`. -/
def Edge.before (a b : Edge) : Bool :=
  decide (b.weight < a.weight) || (a.weight == b.weight && decide (a.toNode < b.toNode))

/-- The first edge that no other edge precedes. -/
def bestByWeightThenLexical : List Edge → Option Edge
  | [] => none
  | e :: rest => some (rest.foldl (fun best e' => if e'.before best then e' else best) e)

theorem foldl_best_mem (l : List Edge) (e : Edge) :
    l.foldl (fun best e' => if e'.before best then e' else best) e ∈ e :: l := by
  induction l generalizing e with
  | nil => simp
  | cons a rest ih =>
    rw [List.foldl_cons]
    have h := ih (if a.before e then a else e)
    rcases List.mem_cons.mp h with he | hr
    · rw [he]
      by_cases hb : a.before e = true <;> simp [hb]
    · simp [hr]

theorem bestByWeightThenLexical_mem {l : List Edge} {e : Edge}
    (h : bestByWeightThenLexical l = some e) : e ∈ l := by
  cases l with
  | nil => simp [bestByWeightThenLexical] at h
  | cons a rest =>
    rw [bestByWeightThenLexical, Option.some.injEq] at h
    exact h ▸ foldl_best_mem rest a

theorem bestByWeightThenLexical_eq_none {l : List Edge} :
    bestByWeightThenLexical l = none ↔ l = [] := by
  cases l <;> simp [bestByWeightThenLexical]

/-- A text is an id, an integer its decimal spelling; every other shape is
refused. -/
def coerceSuggestedId : Value → Option String
  | .str s => some s
  | .int i => some (toString i)
  | _ => none

def notNewline (c : Char) : Bool := c != '\n'

/-- Remove a leading `[Y] `, `Y) ` or `Y - `. -/
def dropAccelerator (l : List Char) : List Char :=
  let bracket : Option (List Char) := match l with
    | '[' :: c :: ']' :: rest => if notNewline c then some (Text.lstrip rest) else none
    | _ => none
  let paren : Option (List Char) := match l with
    | c :: ')' :: rest => if notNewline c then some (Text.lstrip rest) else none
    | _ => none
  let dash : Option (List Char) := match l with
    | c :: rest => match Text.lstrip rest with
      | '-' :: rest' => if notNewline c then some (Text.lstrip rest') else none
      | _ => none
    | _ => none
  ((bracket.or paren).or dash).getD l

variable [Runtime]

def normalizeLabel (label : String) : String :=
  let s := stripLower label
  stripped (dropAccelerator s.toList)

def conditionMatched (edges : List Edge) (outcome : Outcome) (context : PipelineContext) :
    List Edge :=
  edges.filter fun e => !e.unconditional && evaluateCondition e.condition outcome context

def preferredLabelMatch (edges : List Edge) (outcome : Outcome) : Option Edge :=
  if truthyStr outcome.preferredLabel then
    let normPref := normalizeLabel (outcome.preferredLabel.getD "")
    edges.find? fun e => e.unconditional && e.label != "" && normalizeLabel e.label == normPref
  else none

omit [Runtime] in
def suggestedMatch (edges : List Edge) (outcome : Outcome) : Option Edge :=
  outcome.suggestions.findSome? fun raw => match coerceSuggestedId raw with
    | some id => edges.find? fun e => e.unconditional && e.toNode == id
    | none => none

omit [Runtime] in
def bestUnconditional (edges : List Edge) : Option Edge :=
  bestByWeightThenLexical (edges.filter Edge.unconditional)

def selectEdge (nodeId : String) (outcome : Outcome) (context : PipelineContext) (g : Graph) :
    Option Edge :=
  let edges := g.outgoingEdges nodeId
  (bestByWeightThenLexical (conditionMatched edges outcome context)).or
    ((preferredLabelMatch edges outcome).or
      ((suggestedMatch edges outcome).or (bestUnconditional edges)))

theorem preferredLabelMatch_mem {edges : List Edge} {outcome : Outcome} {e : Edge}
    (h : preferredLabelMatch edges outcome = some e) : e ∈ edges := by
  rw [preferredLabelMatch] at h
  by_cases ht : truthyStr outcome.preferredLabel = true
  · rw [if_pos ht] at h
    exact List.mem_of_find?_eq_some h
  · simp [ht] at h

omit [Runtime] in
theorem suggestedMatch_mem {edges : List Edge} {outcome : Outcome} {e : Edge}
    (h : suggestedMatch edges outcome = some e) : e ∈ edges := by
  obtain ⟨raw, -, hraw⟩ := List.exists_of_findSome?_eq_some h
  cases hc : coerceSuggestedId raw with
  | none => simp [hc] at hraw
  | some id =>
    rw [hc] at hraw
    exact List.mem_of_find?_eq_some hraw

omit [Runtime] in
theorem bestUnconditional_mem {edges : List Edge} {e : Edge}
    (h : bestUnconditional edges = some e) : e ∈ edges :=
  List.mem_of_mem_filter (bestByWeightThenLexical_mem h)

/-- The selected edge leaves the node it was selected for. -/
theorem selectEdge_mem {nodeId : String} {outcome : Outcome} {context : PipelineContext}
    {g : Graph} {e : Edge} (h : selectEdge nodeId outcome context g = some e) :
    e ∈ g.outgoingEdges nodeId := by
  simp only [selectEdge, Option.or_eq_some_iff] at h
  rcases h with h | ⟨-, h | ⟨-, h | ⟨-, h⟩⟩⟩
  · exact List.mem_of_mem_filter (bestByWeightThenLexical_mem h)
  · exact preferredLabelMatch_mem h
  · exact suggestedMatch_mem h
  · exact bestUnconditional_mem h

/-- Where some edge is unconditional, an edge is always selected. -/
theorem bestUnconditional_eq_none_of_selectEdge {nodeId : String} {outcome : Outcome}
    {context : PipelineContext} {g : Graph} (h : selectEdge nodeId outcome context g = none) :
    bestUnconditional (g.outgoingEdges nodeId) = none := by
  simp only [selectEdge, Option.or_eq_none_iff] at h
  exact h.2.2.2

/-- The part of an outcome that edge selection reads. -/
structure Outcome.SameRouting (a b : Outcome) : Prop where
  status : a.status = b.status
  preferredLabel : a.preferredLabel = b.preferredLabel
  named : a.suggestions.map coerceSuggestedId = b.suggestions.map coerceSuggestedId

/-- The context keys that the selection of an edge from the node looks up. -/
def Graph.reads (g : Graph) (nodeId : String) : List String :=
  (g.outgoingEdges nodeId).flatMap fun e => conditionReads e.condition

omit [Runtime] in
theorem suggestedMatch_congr {a b : Outcome} (edges : List Edge)
    (h : a.suggestions.map coerceSuggestedId = b.suggestions.map coerceSuggestedId) :
    suggestedMatch edges a = suggestedMatch edges b := by
  have hmap : ∀ o : Outcome, suggestedMatch edges o =
      (o.suggestions.map coerceSuggestedId).findSome? fun named => match named with
        | some id => edges.find? fun e => e.unconditional && e.toNode == id
        | none => none := by
    intro o
    rw [suggestedMatch, List.findSome?_map]
    rfl
  rw [hmap a, hmap b, h]

/-- Outcomes that route alike select the same edge in contexts that spell what
the conditions read alike. -/
theorem selectEdge_congr {nodeId : String} {a b : Outcome} {c d : PipelineContext} (g : Graph)
    (ho : a.SameRouting b) (hc : ∀ k ∈ g.reads nodeId, contextText c k = contextText d k) :
    selectEdge nodeId a c g = selectEdge nodeId b d g := by
  have hcond : conditionMatched (g.outgoingEdges nodeId) a c =
      conditionMatched (g.outgoingEdges nodeId) b d := by
    refine List.filter_congr fun e he => ?_
    rw [evaluateCondition_congr e.condition ho.status ho.preferredLabel fun k hk =>
      hc k (List.mem_flatMap.mpr ⟨e, he, hk⟩)]
  have hpref : preferredLabelMatch (g.outgoingEdges nodeId) a =
      preferredLabelMatch (g.outgoingEdges nodeId) b := by
    simp only [preferredLabelMatch, ho.preferredLabel]
  simp only [selectEdge, hcond, hpref, suggestedMatch_congr _ ho.named]

end DotRunner
