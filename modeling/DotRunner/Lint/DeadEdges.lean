import DotRunner.Engine.Transitions
import DotRunner.Engine.FailedOutputs
import DotRunner.FailureEdges
import DotRunner.Lint.Rules

/-!
# Dead edges

The topology rule for edges that leave a diamond on a failure, and the runs in
which it is right that they never fire.
-/

namespace DotRunner

open Py

/-! ## Blanks around a condition -/

theorem dropPrefix?_and_space {c : Char} (hc : Text.isSpace c = true) (l : List Char) :
    Text.dropPrefix? ['&', '&'] (c :: l) = none := by
  have hne : '&' ≠ c := by
    rintro rfl
    exact absurd hc (by decide)
  rw [Text.dropPrefix?, if_neg hne]

theorem splitOnce_cons_space {c : Char} (hc : Text.isSpace c = true) (l : List Char) :
    Text.splitOnce ['&', '&'] (c :: l) =
      (Text.splitOnce ['&', '&'] l).map fun p => (c :: p.1, p.2) := by
  rw [Text.splitOnce, dropPrefix?_and_space hc]

theorem splitOnce_append_space {c : Char} (hc : Text.isSpace c = true) (l : List Char) :
    Text.splitOnce ['&', '&'] (l ++ [c]) =
      (Text.splitOnce ['&', '&'] l).map fun p => (p.1, p.2 ++ [c]) := by
  have hne : '&' ≠ c := by
    rintro rfl
    exact absurd hc (by decide)
  have hdrop : ∀ s, Text.dropPrefix? ['&', '&'] (s ++ [c]) =
      (Text.dropPrefix? ['&', '&'] s).map fun r => r ++ [c] := by
    intro s
    match s with
    | [] => simp [Text.dropPrefix?, hne]
    | [a] => simp [Text.dropPrefix?, hne]
    | a :: b :: rest =>
      simp only [List.cons_append, Text.dropPrefix?]
      split
      · split <;> rfl
      · rfl
  induction l with
  | nil =>
    rw [List.nil_append, splitOnce_cons_space hc]
    simp [Text.splitOnce, Text.dropPrefix?]
  | cons a l ih =>
    rw [List.cons_append, Text.splitOnce, Text.splitOnce, ← List.cons_append, hdrop, ih]
    cases Text.dropPrefix? ['&', '&'] (a :: l) with
    | some r => rfl
    | none =>
      rw [Option.map_none, Option.map_map, Option.map_map]
      rfl

/-- As many cuts as there are characters are enough. -/
theorem splitFuel_enough {pat : List Char} (hpat : pat ≠ []) {n m : Nat} {l : List Char}
    (hn : l.length ≤ n) (hm : l.length ≤ m) : Text.splitFuel pat n l = Text.splitFuel pat m l := by
  induction n generalizing m l with
  | zero =>
    obtain rfl : l = [] := List.length_eq_zero_iff.mp (Nat.le_zero.mp hn)
    obtain ⟨a, pat, rfl⟩ := List.exists_cons_of_ne_nil hpat
    cases m with
    | zero => rfl
    | succ m => simp [Text.splitFuel, Text.splitOnce, Text.dropPrefix?]
  | succ n ih =>
    cases hs : Text.splitOnce pat l with
    | none =>
      rw [Text.splitFuel, hs]
      cases m with
      | zero => rfl
      | succ m => rw [Text.splitFuel, hs]
    | some p =>
      obtain ⟨before, after⟩ := p
      have hlen : l.length = before.length + pat.length + after.length := by
        rw [Text.append_of_splitOnce hs, List.length_append, List.length_append]
      have hpos : 0 < pat.length := List.length_pos_of_ne_nil hpat
      obtain ⟨m, rfl⟩ : ∃ k, m = k + 1 := ⟨m - 1, by omega⟩
      rw [Text.splitFuel, Text.splitFuel, hs]
      show before :: Text.splitFuel pat n after = before :: Text.splitFuel pat m after
      rw [ih (m := m) (by omega) (by omega)]

/-- The equation of `split`. -/
theorem split_eq {pat : List Char} (hpat : pat ≠ []) (l : List Char) :
    Text.split pat l = match Text.splitOnce pat l with
      | none => [l]
      | some (before, after) => before :: Text.split pat after := by
  have hmore : Text.split pat l = Text.splitFuel pat (l.length + 1) l :=
    splitFuel_enough hpat le_rfl (Nat.le_succ _)
  rw [hmore, Text.splitFuel]
  cases hs : Text.splitOnce pat l with
  | none => rfl
  | some p =>
    obtain ⟨before, after⟩ := p
    have hlen : l.length = before.length + pat.length + after.length := by
      rw [Text.append_of_splitOnce hs, List.length_append, List.length_append]
    show before :: Text.splitFuel pat l.length after = before :: Text.split pat after
    rw [Text.split, splitFuel_enough hpat (m := after.length) (by omega) le_rfl]

theorem strip_cons_space {c : Char} (hc : Text.isSpace c = true) (l : List Char) :
    Text.strip (c :: l) = Text.strip l := by
  rw [Text.strip, Text.lstrip, List.dropWhile_cons_of_pos hc]
  rfl

theorem strip_append_space {c : Char} (hc : Text.isSpace c = true) (l : List Char) :
    Text.strip (l ++ [c]) = Text.strip l := by
  have hr : ∀ s, Text.rstrip (s ++ [c]) = Text.rstrip s := by
    intro s
    rw [Text.rstrip, List.reverse_append, List.reverse_singleton, List.singleton_append,
      List.dropWhile_cons_of_pos hc]
    rfl
  induction l with
  | nil => exact strip_cons_space hc []
  | cons a l ih =>
    by_cases ha : Text.isSpace a = true
    · rw [List.cons_append, strip_cons_space ha, strip_cons_space ha, ih]
    · rw [Text.strip, Text.strip, Text.lstrip, Text.lstrip, List.cons_append,
        List.dropWhile_cons_of_neg ha, List.dropWhile_cons_of_neg ha, ← List.cons_append, hr]

theorem parseClause_congr {l l' : List Char} (h : Text.strip l = Text.strip l') :
    parseClause l = parseClause l' := by
  rw [parseClause, parseClause, h]

def clauses (l : List Char) : List Clause := (Text.split ['&', '&'] l).filterMap parseClause

theorem clauses_cons_space {c : Char} (hc : Text.isSpace c = true) (l : List Char) :
    clauses (c :: l) = clauses l := by
  unfold clauses
  rw [split_eq (by simp), split_eq (by simp) l, splitOnce_cons_space hc]
  cases Text.splitOnce ['&', '&'] l with
  | none =>
    show [c :: l].filterMap parseClause = [l].filterMap parseClause
    rw [List.filterMap_cons, List.filterMap_cons, parseClause_congr (strip_cons_space hc l)]
  | some p =>
    show (List.filterMap parseClause ((c :: p.1) :: Text.split ['&', '&'] p.2)) =
      List.filterMap parseClause (p.1 :: Text.split ['&', '&'] p.2)
    rw [List.filterMap_cons, List.filterMap_cons, parseClause_congr (strip_cons_space hc p.1)]

theorem clauses_append_space {c : Char} (hc : Text.isSpace c = true) (l : List Char) :
    clauses (l ++ [c]) = clauses l := by
  induction hlen : l.length using Nat.strong_induction_on generalizing l with
  | _ k ih =>
    unfold clauses
    rw [split_eq (by simp), split_eq (by simp) l, splitOnce_append_space hc]
    cases hs : Text.splitOnce ['&', '&'] l with
    | none =>
      show [l ++ [c]].filterMap parseClause = [l].filterMap parseClause
      rw [List.filterMap_cons, List.filterMap_cons, parseClause_congr (strip_append_space hc l)]
    | some p =>
      have hshorter : p.2.length < k := by
        rw [← hlen, Text.append_of_splitOnce hs, List.length_append, List.length_append]
        simp
      have hrest := ih p.2.length hshorter p.2 rfl
      unfold clauses at hrest
      show List.filterMap parseClause (p.1 :: Text.split ['&', '&'] (p.2 ++ [c])) =
        List.filterMap parseClause (p.1 :: Text.split ['&', '&'] p.2)
      rw [List.filterMap_cons, List.filterMap_cons, hrest]

theorem clauses_strip (l : List Char) : clauses (Text.strip l) = clauses l := by
  have hleft : ∀ s, clauses (Text.lstrip s) = clauses s := by
    intro s
    induction s with
    | nil => rfl
    | cons c s ih =>
      by_cases hc : Text.isSpace c = true
      · rw [Text.lstrip, List.dropWhile_cons_of_pos hc, clauses_cons_space hc]
        exact ih
      · rw [Text.lstrip, List.dropWhile_cons_of_neg hc]
  have hright : ∀ s, clauses (Text.rstrip s) = clauses s := by
    intro s
    induction s using List.reverseRecOn with
    | nil => rfl
    | append_singleton s c ih =>
      by_cases hc : Text.isSpace c = true
      · rw [Text.rstrip, List.reverse_append, List.reverse_singleton, List.singleton_append,
          List.dropWhile_cons_of_pos hc, clauses_append_space hc]
        exact ih
      · rw [Text.rstrip, List.reverse_append, List.reverse_singleton, List.singleton_append,
          List.dropWhile_cons_of_neg hc, List.reverse_cons, List.reverse_reverse]
  rw [Text.strip, hright, hleft]

/-- The linter parses the stripped condition, the engine the condition. -/
theorem parseCondition_stripText (condition : String) :
    parseCondition (stripText condition) = parseCondition condition := by
  by_cases hblank : stripText condition = ""
  · rw [parseCondition_blank hblank, hblank]
    rfl
  · have hne : condition ≠ "" := by
      rintro rfl
      exact hblank rfl
    have hstrip := clauses_strip condition.toList
    unfold clauses at hstrip
    unfold parseCondition
    rw [if_neg hblank, if_neg hne, ← hstrip, stripText, String.toList_ofList]

/-! ## The rule -/

def isDiamond (node : Node) : Bool := node.shape == "diamond" || node.type == "conditional"

/-- `outcome!=success`, `outcome=fail` and `outcome=error`. -/
def Clause.dead (c : Clause) : Bool :=
  (c.op == .ne && c.key == "outcome" && c.value == "success") ||
    (c.op == .eq && c.key == "outcome" && (c.value == "fail" || c.value == "error"))

def Edge.dead (e : Edge) : Bool := (parseCondition (stripText e.condition)).any Clause.dead

/-- What the rule says of a dead edge. -/
def deadConditionalEdge (node : Node) (e : Edge) : Diagnostic where
  rule := "dead_conditional_edge"
  severity := .error
  message := "Node '" ++ node.id ++ "' (diamond/ConditionalHandler) has a dead outgoing edge to '" ++
    e.toNode ++ "' with condition '" ++ stripText e.condition ++
    "': ConditionalHandler always returns SUCCESS unconditionally, so outcome!=success / " ++
    "outcome=fail edges from a diamond can never fire."
  nodeId := node.id
  edge := some (e.fromNode, e.toNode)
  fix := "Replace the outcome= condition on the edge from '" ++ node.id ++ "' to '" ++ e.toNode ++
    "' with an evidence-based condition (e.g. context.tool.last_line=X or " ++
    "context.preferred_label=Y set by a preceding tool or LLM node). Diamond nodes are pure " ++
    "routing hubs — they do not execute logic and cannot observe upstream outcomes. See " ++
    "DOT-AUTHORING-GUIDE.md for the evidence-routing pattern."

theorem Clause.dead_iff {c : Clause} : c.dead = true ↔ c.key = "outcome" ∧
    ((c.op = .ne ∧ c.value = "success") ∨ c.op = .eq ∧ (c.value = "fail" ∨ c.value = "error")) := by
  simp only [Clause.dead, Bool.or_eq_true, Bool.and_eq_true, beq_iff_eq]
  constructor
  · rintro (⟨⟨hop, hkey⟩, hv⟩ | ⟨⟨hop, hkey⟩, hv⟩)
    · exact ⟨hkey, .inl ⟨hop, hv⟩⟩
    · exact ⟨hkey, .inr ⟨hop, hv⟩⟩
  · rintro ⟨hkey, ⟨hop, hv⟩ | ⟨hop, hv⟩⟩
    · exact .inl ⟨⟨hop, hkey⟩, hv⟩
    · exact .inr ⟨⟨hop, hkey⟩, hv⟩

theorem Edge.dead_iff {e : Edge} : e.dead = true ↔ ∃ c ∈ parseCondition e.condition, c.dead = true := by
  rw [Edge.dead, parseCondition_stripText, List.any_eq_true]

section Rule

variable [Runtime]

/-- The edges the rule reports, each with the node it leaves. -/
def deadEdges (g : Graph) : List (Node × Edge) :=
  (g.nodes.values.filter fun n => isDiamond n && !(n.isStartNode || n.isExitNode)).flatMap fun n =>
    ((g.outgoingEdges n.id).filter Edge.dead).map fun e => (n, e)

def checkDeadConditionalEdge (g : Graph) : List Diagnostic :=
  (deadEdges g).map fun p => deadConditionalEdge p.1 p.2

theorem mem_deadEdges {g : Graph} {n : Node} {e : Edge} : (n, e) ∈ deadEdges g ↔
    (n ∈ g.nodes.values ∧ (isDiamond n && !(n.isStartNode || n.isExitNode)) = true) ∧
      e ∈ g.outgoingEdges n.id ∧ e.dead = true := by
  rw [deadEdges, List.mem_flatMap]
  constructor
  · rintro ⟨m, hm, hpair⟩
    obtain ⟨e', he', heq⟩ := List.mem_map.mp hpair
    obtain ⟨rfl, rfl⟩ := Prod.mk.inj heq
    exact ⟨List.mem_filter.mp hm, List.mem_filter.mp he'⟩
  · intro ⟨hn, he⟩
    exact ⟨n, List.mem_filter.mpr hn, List.mem_map.mpr ⟨e, List.mem_filter.mpr he, rfl⟩⟩

/-- A dead edge is conditional, and its condition fails where `outcome` reads
`success`. -/
theorem outcomeKey_ne_of_dead {e : Edge} (hd : e.dead = true) {o : Outcome}
    {context : PipelineContext} (h : evaluateCondition e.condition o context = true) :
    outcomeKey o ≠ "success" := by
  obtain ⟨c, hc, hdead⟩ := Edge.dead_iff.mp hd
  have hclause := evaluateClause_of_mem h hc
  intro hkey
  obtain ⟨hname, ⟨hop, hv⟩ | ⟨hop, hv⟩⟩ := Clause.dead_iff.mp hdead
  · simp [evaluateClause, resolveKey, hname, hop, hv, hkey] at hclause
  · rcases hv with hv | hv <;>
      simp [evaluateClause, resolveKey, hname, hop, hv, hkey] at hclause

omit [Runtime] in
theorem unconditional_of_dead {e : Edge} (hd : e.dead = true) : e.unconditional = false := by
  obtain ⟨c, hc, -⟩ := Edge.dead_iff.mp hd
  exact unconditional_false_of_clause hc

omit [Runtime] in
theorem bestUnconditional_unconditional {edges : List Edge} {e : Edge}
    (h : bestUnconditional edges = some e) : e.unconditional = true :=
  (List.mem_filter.mp (bestByWeightThenLexical_mem h)).2

/-- An edge with a condition is selected only where the condition holds. -/
theorem condition_of_selectEdge {nodeId : String} {o : Outcome} {context : PipelineContext}
    {g : Graph} {e : Edge} (h : selectEdge nodeId o context g = some e)
    (hu : e.unconditional = false) : evaluateCondition e.condition o context = true := by
  have hother : e.unconditional ≠ true := by rw [hu]; decide
  rw [selectEdge] at h
  rcases Option.or_eq_some_iff.mp h with hcond | ⟨-, h⟩
  · have hmem := (List.mem_filter.mp (bestByWeightThenLexical_mem hcond)).2
    rw [Bool.and_eq_true] at hmem
    exact hmem.2
  · rcases Option.or_eq_some_iff.mp h with hlabel | ⟨-, h⟩
    · unfold preferredLabelMatch at hlabel
      split at hlabel
      · have hfound := List.find?_some hlabel
        simp only [Bool.and_eq_true] at hfound
        exact absurd hfound.1.1 hother
      · cases hlabel
    · rcases Option.or_eq_some_iff.mp h with hids | ⟨-, hbest⟩
      · obtain ⟨raw, -, hraw⟩ := List.exists_of_findSome?_eq_some hids
        split at hraw
        · have hfound := List.find?_some hraw
          rw [Bool.and_eq_true] at hfound
          exact absurd hfound.1 hother
        · cases hraw
      · exact absurd (bestUnconditional_unconditional hbest) hother

/-! ## The edges a walk selects -/

/-- The edge selected for the current node in this iteration. -/
def RoutesBy (g : Graph) (w : Walk) (r : IterEnd) (e : Edge) : Prop :=
  ∃ o, routingOutcome w r = some o ∧
    (selectEdge w.currentNode.id o (routingContext w r) g = some e ∨
      (wasSkipped r ∧ selectEdge w.currentNode.id o (routingContext w r) g = none ∧
        bestUnconditional (g.outgoingEdges w.currentNode.id) = some e))

/-- A dead edge needs an outcome that does not read as a success. -/
theorem RoutesBy.key {g : Graph} {w : Walk} {r : IterEnd} {e : Edge} (h : RoutesBy g w r e)
    (hd : e.dead = true) : ∃ o, routingOutcome w r = some o ∧ outcomeKey o ≠ "success" := by
  obtain ⟨o, ho, hsel | ⟨-, -, hbest⟩⟩ := h
  · exact ⟨o, ho, outcomeKey_ne_of_dead hd (condition_of_selectEdge hsel (unconditional_of_dead hd))⟩
  · have hu := bestUnconditional_unconditional hbest
    rw [unconditional_of_dead hd] at hu
    cases hu

/-- The edge a move follows, if it follows one. -/
def Move.edge? : Move → Option Edge
  | .edge e | .skipEdge e => some e
  | .fanIn _ | .failureRetry _ | .skipRetry _ | .gateRetry _ => none

theorem route_edge {w w' : Walk} {g : Graph} {ord : SetOrder} {o : Outcome} {m : Move} {e : Edge}
    (h : w.route g ord o = .goto m w') (he : m.edge? = some e) :
    selectEdge w.currentNode.id o w.engine.context g = some e := by
  unfold Walk.route at h
  split at h
  · split at h
    · cases h
    · split at h
      · obtain ⟨-, -, rfl, -⟩ := jump_goto h
        cases he
      · cases h
  · unfold Walk.selectAndGo at h
    split at h
    · rename_i e' hsel
      rw [(follow_moved h).1] at he
      exact hsel.trans he
    · obtain ⟨_, -, hm, -⟩ := failureRoute_moved h
      rw [hm] at he
      cases he

theorem routeSkipped_edge {w w' : Walk} {g : Graph} {o : Outcome} {m : Move} {e : Edge}
    (h : w.routeSkipped g o = .goto m w') (he : m.edge? = some e) :
    w.skipEdge g (Walk.skipRouting o) = some e := by
  unfold Walk.routeSkipped at h
  dsimp only at h
  split at h
  · rename_i e' hskip
    obtain ⟨-, -, rfl, -⟩ := jump_goto h
    exact hskip.trans he
  · split at h
    · split at h
      · cases h
        cases he
      · cases h
    · cases h

theorem leaveExit_edge {w w' : Walk} {g : Graph} {m : Move} (h : w.leaveExit g = .goto m w') :
    m.edge? = none := by
  unfold Walk.leaveExit at h
  dsimp only at h
  split at h
  · split at h
    · cases h
    · split at h
      · cases h
        rfl
      · cases h
  · cases h

/-- An edge the walk follows was selected. -/
theorem IterCase.routesBy {p : PipelineEngine} {tick : Tick} {w w' : Walk} {r : IterEnd} {m : Move}
    {e : Edge} (h : IterCase p tick w r) (hn : r.next = .goto m w') (he : m.edge? = some e) :
    RoutesBy p.graph w r e := by
  have hroute : ∀ {w₁ : Walk} {o : Outcome}, w₁.route p.graph tick.ord o = .goto m w' →
      selectEdge w₁.currentNode.id o w₁.engine.context p.graph = some e :=
    fun hgo => route_edge hgo he
  cases h with
  | guarded hg ho => cases hn
  | exit hg hx =>
    rw [leaveExit_edge hn] at he
    cases he
  | @hop o hg hx ho =>
    have hsel := hroute hn
    exact ⟨o, ho, .inl hsel⟩
  | @skip keys hg hx ho hk =>
    have hskip := routeSkipped_edge hn he
    unfold Walk.skipEdge at hskip
    rcases Option.or_eq_some_iff.mp hskip with hsel | ⟨hnone, hbest⟩
    · exact ⟨_, rfl, .inl hsel⟩
    · exact ⟨_, rfl, .inr ⟨⟨_, _, keys, rfl⟩, hnone, hbest⟩⟩
  | @execute context armed o hg hx ho hk hsw ha =>
    have hsel := hroute hn
    exact ⟨o, rfl, .inl hsel⟩
  | abort hg hx ho hk hu hs => cases hn

end Rule

/-! ## DiamondUndisturbed diamonds -/

section Diamonds

variable [Runtime]

/-- What `ConditionalHandler` returns. -/
def conditionalOutcome (node : Node) : Outcome where
  status := .success
  notes := some ("Conditional node: " ++ node.id)
  isExplicit := true

variable [JsonReader]

/-- The engine a node execution starts with. -/
def dispatching (p : PipelineEngine) (w : Walk) : EngineState :=
  applyResumeFidelityDegrade p.graph w.currentNode (countExecution w.currentNode w.engine)

/-- How the first attempt at the current node ends. -/
def firstAttempt (p : PipelineEngine) (tick : Tick) (w : Walk) : AttemptEnd :=
  tick.run.perform 1 (dispatching p w).context

/-- The outcome of a diamond, or what a fresh status file says in its place. -/
def diamondVerdict (p : PipelineEngine) (tick : Tick) (w : Walk) : Except PyExc Outcome :=
  let a := firstAttempt p tick w
  (readStatusOverride w.currentNode p.logsRoot a.startWall (conditionalOutcome w.currentNode)
    a.disk).map fun o => o.getD (conditionalOutcome w.currentNode)

/-- Nothing comes between a diamond and its success: another handler, a skip, its
own timeout, a status file that reads otherwise, an artifact it owes. -/
structure DiamondUndisturbed (p : PipelineEngine) (tick : Tick) (w : Walk) : Prop where
  dispatched : p.handlerRegistry.get w.currentNode = .ok "conditional"
  unskipped : checkNodeSkip tick.ord w.currentNode w.engine.failedOutputs = none
  awaited : ∀ timeout ms, nodeTimeout w.currentNode = .ok timeout → tick.run.expired = true →
    waitBound p.graph tick.run.startMs timeout ≠ .nodeTimeout ms
  verdict : ∀ v, diamondVerdict p tick w = .ok v → outcomeKey v = "success" ∧ v.status ≠ .retry
  written : ∀ v, diamondVerdict p tick w = .ok v → ∀ o, checkMustWrite w.currentNode v
    tick.run.ladderWall (firstAttempt p tick w).context (firstAttempt p tick w).disk ≠ .ok (some o)
  delivered : ∀ v, diamondVerdict p tick w = .ok v → ∀ o,
    checkMustWrite w.currentNode (autoStatus w.currentNode v) tick.run.startWall
      ((firstAttempt p tick w).context.pop resumeFidelityCapKey) tick.run.diskAfter ≠ .ok (some o)

/-- Where the registry picks `ConditionalHandler`, every attempt ends as its do. -/
def ConditionalHandled (p : PipelineEngine) (tick : Tick) (w : Walk) : Prop :=
  p.handlerRegistry.get w.currentNode = .ok "conditional" →
    ∀ k c, (tick.run.perform k c).handler = .returned (conditionalOutcome w.currentNode)

theorem DiamondUndisturbed.counted {p : PipelineEngine} {tick : Tick} {w : Walk}
    (hu : DiamondUndisturbed p tick w) : DiamondUndisturbed p tick w.counted :=
  ⟨hu.dispatched, hu.unskipped, hu.awaited, hu.verdict, hu.written, hu.delivered⟩

omit [JsonReader] in
theorem outcomeKey_autoStatus (node : Node) {o : Outcome} (h : outcomeKey o = "success") :
    outcomeKey (autoStatus node o) = "success" := by
  unfold autoStatus
  split
  · unfold outcomeKey at h ⊢
    split
    · rename_i hlabel
      rw [if_pos hlabel] at h
      exact h
    · rfl
  · exact h

omit [JsonReader] in
/-- An outcome that asks for no other attempt and owes nothing stands. -/
theorem afterOutcome_stands {node : Node} {startWall : Int} {attempt maxAttempts : Nat}
    {a : AttemptEnd} {v : Outcome} (hretry : v.status ≠ .retry)
    (howed : ∀ o, checkMustWrite node v startWall a.context a.disk ≠ .ok (some o)) :
    ∃ r f, afterOutcome node startWall attempt maxAttempts a v = .done r f ∧
      ∀ o, r = .outcome o → o = withAttempt v attempt := by
  have hstands : ∀ o, LadderEnd.outcome (withAttempt v attempt) = .outcome o →
      o = withAttempt v attempt := by
    intro o ho
    cases ho
    rfl
  unfold afterOutcome
  split
  case h_1 | h_2 =>
    split
    · exact ⟨_, _, rfl, fun o ho => (nomatch ho)⟩
    · exact ⟨_, _, rfl, hstands⟩
    · rename_i violation hcheck
      exact absurd hcheck (howed violation)
  case h_3 | h_4 => exact ⟨_, _, rfl, hstands⟩
  case h_5 hs => exact absurd hs hretry

/-- The first attempt at an undisturbed diamond settles it. -/
theorem afterAttempt_diamond {p : PipelineEngine} {tick : Tick} {w : Walk}
    (hu : DiamondUndisturbed p tick w) (hc : ConditionalHandled p tick w) (maxAttempts : Nat)
    (last : Option Outcome) : ∃ r f,
      afterAttempt w.currentNode p.logsRoot tick.run.ladderWall 1 maxAttempts last
        (firstAttempt p tick w) = .done r f ∧
      ∀ o, r = .outcome o → ∃ v, diamondVerdict p tick w = .ok v ∧ o = withAttempt v 1 := by
  have hended : (firstAttempt p tick w).handler = .returned (conditionalOutcome w.currentNode) :=
    hc hu.dispatched 1 _
  unfold afterAttempt
  rw [hended]
  dsimp only
  cases hread : readStatusOverride w.currentNode p.logsRoot (firstAttempt p tick w).startWall
      (conditionalOutcome w.currentNode) (firstAttempt p tick w).disk with
  | error e => exact ⟨.raised e, none, rfl, fun o ho => (nomatch ho)⟩
  | ok override =>
    have hv : diamondVerdict p tick w =
        .ok (override.getD (conditionalOutcome w.currentNode)) := by
      unfold diamondVerdict
      dsimp only
      rw [hread]
      rfl
    obtain ⟨r, f, hdone, hout⟩ :=
      @afterOutcome_stands _ _ _ 1 maxAttempts _ _ (hu.verdict _ hv).2 (hu.written _ hv)
    exact ⟨r, f, hdone, fun o ho => ⟨_, hv, hout o ho⟩⟩

/-- An undisturbed diamond ends with its verdict, if with an outcome at all. -/
theorem awaitNode_diamond {p : PipelineEngine} {tick : Tick} {w : Walk}
    (hu : DiamondUndisturbed p tick w) (hc : ConditionalHandled p tick w) {policy : RetryPolicy} {timeout : Option PyFloat}
    (hpolicy : 1 ≤ policy.maxAttempts) (htimeout : nodeTimeout w.currentNode = .ok timeout)
    {o : Outcome} {context : PipelineContext}
    (h : awaitNode p w.currentNode policy timeout tick.run (dispatching p w).context =
      (.outcome o, context)) :
    context = (firstAttempt p tick w).context ∧
      ∃ v, diamondVerdict p tick w = .ok v ∧ o = withAttempt v 1 := by
  obtain ⟨r, f, hdone, hout⟩ := afterAttempt_diamond hu hc policy.maxAttempts none
  have hladder : executeWithRetry (m := Id) tick.run.perform w.currentNode (dispatching p w).context
      p.logsRoot policy tick.run.ladderWall tick.run.disk =
        ⟨r, (firstAttempt p tick w).context, f⟩ :=
    executeWithRetry_done hpolicy hdone
  have hfinished : (r.nodeEnd, (firstAttempt p tick w).context) = (NodeEnd.outcome o, context) →
      context = (firstAttempt p tick w).context ∧
        ∃ v, diamondVerdict p tick w = .ok v ∧ o = withAttempt v 1 := by
    intro heq
    obtain ⟨hend, rfl⟩ := Prod.mk.inj heq
    refine ⟨rfl, hout o ?_⟩
    cases r with
    | outcome o' =>
      cases hend
      rfl
    | childDot text => cases hend
    | raised e => cases hend
  unfold awaitNode awaitNodeIn at h
  rw [hladder] at h
  dsimp only at h
  split at h
  · rename_i hexpired
    split at h
    · exact hfinished h
    · cases h
    · rename_i ms hbound
      exact absurd hbound (hu.awaited timeout ms htimeout hexpired)
  · exact hfinished h

omit [JsonReader] in
/-- A node execution that completes ended with an outcome the backstop let pass
or replaced. -/
theorem finishNode_outcome {p : PipelineEngine} {tick : Tick} {w : Walk}
    {ended : NodeEnd × PipelineContext} {c : Completion}
    (h : (finishNode p tick w ended).completion = some c) :
    ∃ handled violation, ended.1 = .outcome handled ∧
      checkMustWrite w.currentNode (autoStatus w.currentNode handled) tick.run.startWall
        (ended.2.pop resumeFidelityCapKey) tick.run.diskAfter = .ok violation ∧
      c = ⟨w.currentNode.id, violation.getD (autoStatus w.currentNode handled), none⟩ := by
  unfold finishNode at h
  dsimp only at h
  split at h
  · cases h
  · cases h
  · cases h
  · rename_i handled hended
    split at h
    · cases h
    · split at h
      · cases h
      · rename_i violation hcheck
        split at h
        · cases h
        · cases h
          exact ⟨handled, violation, hended, hcheck, rfl⟩

/-- An undisturbed diamond that completes is routed as a success. -/
theorem executeNode_diamond {p : PipelineEngine} {tick : Tick} {w : Walk}
    (hu : DiamondUndisturbed p tick w) (hc : ConditionalHandled p tick w) {c : Completion}
    (h : (executeNode p tick w).completion = some c) :
    c.missingKeys = none ∧ outcomeKey c.outcome = "success" := by
  unfold executeNode executeNodeIn at h
  split at h
  · cases h
  · dsimp only at h
    split at h
    · cases h
    · cases h
    · rename_i policy timeout hpolicy htimeout
      have hcompleted : (finishNode p tick { w with engine := dispatching p w } (awaitNode p
          w.currentNode policy timeout tick.run (dispatching p w).context)).completion = some c := h
      generalize hawait : awaitNode p w.currentNode policy timeout tick.run
        (dispatching p w).context = ended at hcompleted
      obtain ⟨ending, context⟩ := ended
      obtain ⟨handled, violation, hended, hcheck, rfl⟩ := finishNode_outcome hcompleted
      obtain ⟨rfl, v, hv, rfl⟩ := awaitNode_diamond hu hc (one_le_maxAttempts hpolicy) htimeout
        (hawait.trans (Prod.ext hended rfl))
      refine ⟨rfl, ?_⟩
      have hkey := outcomeKey_autoStatus w.currentNode (o := withAttempt v 1) (hu.verdict v hv).1
      have hsame : (autoStatus w.currentNode (withAttempt v 1)).status.failing =
          (autoStatus w.currentNode v).status.failing := by
        unfold autoStatus withAttempt
        dsimp only
        split <;> rfl
      cases violation with
      | none => exact hkey
      | some o =>
        exact absurd ((checkMustWrite_congr hsame _ _ _).symm.trans hcheck) (hu.delivered v hv o)

/-- Whatever an iteration at an undisturbed diamond routes by reads as a success,
if what the walk came with does. -/
theorem routingOutcome_diamond {p : PipelineEngine} {tick : Tick} {w : Walk}
    (hu : guardLoop p tick w.counted = none → w.resumeOutcome = none → DiamondUndisturbed p tick w)
    (hc : ConditionalHandled p tick w)
    (hresume : ∀ o, w.resumeOutcome = some o → outcomeKey o = "success") {o : Outcome}
    (h : routingOutcome w (iterate p tick w) = some o) : outcomeKey o = "success" := by
  have hkept : ∀ {next saved}, routingOutcome w ⟨none, saved, next⟩ = some o →
      outcomeKey o = "success" := fun hr => hresume o hr
  have hiter := iterate_eq p tick w
  rw [hiter] at h
  split at h
  · exact hkept h
  · rename_i hguard
    rw [visit_eq] at h
    split at h
    · exact hkept h
    · split at h
      · exact hkept h
      · rename_i hnone
        have hundisturbed := hu hguard hnone
        split at h
        · rename_i keys hskip
          exact absurd (hundisturbed.unskipped.symm.trans hskip) nofun
        · cases hcompletion : (executeNode p tick { w with steps := w.steps + 1 }).completion with
          | none =>
            unfold routingOutcome at h
            rw [hcompletion] at h
            exact hresume o h
          | some c =>
            obtain ⟨hmissing, hkey⟩ := executeNode_diamond hundisturbed.counted hc hcompletion
            obtain ⟨id, o', keys⟩ := c
            cases hmissing
            unfold routingOutcome at h
            rw [hcompletion, Option.some.injEq] at h
            exact h ▸ hkey

/-! ## Whole runs -/

/-- Whatever is recorded for the node reads as a success. -/
def RecordsSuccess (s : EngineState) (id : String) : Prop :=
  ∀ o, s.nodeOutcomes.get? id = some o → outcomeKey o = "success"

omit [Runtime] [JsonReader] in
theorem RecordsSuccess.congr {s s' : EngineState} {id : String} (h : RecordsSuccess s id)
    (hn : s'.nodeOutcomes = s.nodeOutcomes) : RecordsSuccess s' id := by
  intro o ho
  rw [hn] at ho
  exact h o ho

omit [Runtime] [JsonReader] in
theorem recordsSuccess_set {s s' : EngineState} {id nodeId : String} {o : Outcome}
    (h : RecordsSuccess s id) (hs : s'.nodeOutcomes = s.nodeOutcomes.set nodeId o)
    (ho : nodeId = id → outcomeKey o = "success") : RecordsSuccess s' id := by
  intro o' ho'
  rw [hs, Dict.get?_set] at ho'
  by_cases hid : nodeId = id
  · rw [if_pos hid, Option.some.injEq] at ho'
    exact ho' ▸ ho hid
  · rw [if_neg hid] at ho'
    exact h o' ho'

omit [JsonReader] in
theorem Moved.recordsSuccess {g : Graph} {w w' : Walk} {m : Move} {id : String}
    (hm : Moved g w m w') (h : RecordsSuccess w.engine id) : RecordsSuccess w'.engine id := by
  rcases hm.records with ⟨-, hn, -⟩ | ⟨-, hn, -⟩
  · exact h.congr hn
  · intro o ho
    rw [hn] at ho
    cases ho

omit [JsonReader] in
/-- What is routed as a success is recorded as one. -/
theorem IterCase.recordsSuccess {p : PipelineEngine} {tick : Tick} {w : Walk} {r : IterEnd}
    {id : String} (h : IterCase p tick w r) (hw : RecordsSuccess w.engine id)
    (hkey : w.currentNode.id = id → ∀ o, routingOutcome w r = some o → outcomeKey o = "success") :
    (∀ s, r.saved = some s → RecordsSuccess s.walk.engine id) ∧
      ∀ m w', r.next = .goto m w' → RecordsSuccess w'.engine id := by
  cases h with
  | guarded hg ho => exact ⟨fun _ h => (nomatch h), fun _ _ h => (nomatch h)⟩
  | exit hg hx =>
    refine ⟨fun s h => ?_, fun m w' h => ?_⟩
    · cases h
      exact hw
    · exact (leaveExit_moved h).recordsSuccess hw
  | hop hg hx ho =>
    refine ⟨fun _ h => (nomatch h), fun m w' h => ?_⟩
    exact (route_moved h).recordsSuccess hw
  | @skip keys hg hx ho hk =>
    -- a skip is routed as a failure, so the node is another one
    have hskipped : RecordsSuccess (w.skipped p.graph (skipOutcome w.currentNode keys)).engine id :=
      recordsSuccess_set hw rfl fun hid => by
        have hfail : "fail" = "success" := hkey hid _ rfl
        exact absurd hfail (by decide)
    refine ⟨fun s h => ?_, fun m w' h => ?_⟩
    · cases h
      exact hskipped
    · exact (routeSkipped_moved h).recordsSuccess hskipped
  | @execute context armed o hg hx ho hk hsw ha =>
    have hexecuted : RecordsSuccess (w.executed p.graph context armed o).engine id :=
      recordsSuccess_set hw (executed_records w p.graph context armed o).2 fun hid => hkey hid o rfl
    refine ⟨fun s h => ?_, fun m w' h => ?_⟩
    · cases h
      exact hexecuted
    · exact (route_moved h).recordsSuccess hexecuted
  | abort hg hx ho hk hu hs => exact ⟨fun _ h => (nomatch h), fun _ _ h => (nomatch h)⟩

omit [Runtime] [JsonReader] in
theorem recordsSuccess_restored {g : Graph} {w : Walk} {id : String}
    (h : RecordsSuccess w.engine id) (r : Resumption) (node : Node) :
    RecordsSuccess (w.restored g r node).engine id := by
  intro o ho
  rw [get?_restored, Option.map_eq_some_iff] at ho
  obtain ⟨o', ho', rfl⟩ := ho
  exact (outcomeKey_congr rfl rfl).trans (h o' ho')

/-- Nothing disturbs the node in this iteration, if it executes it. -/
def Undisturbing (p : PipelineEngine) (id : String) (w : Walk) (tick : Tick) : Prop :=
  w.currentNode.id = id → guardLoop p tick w.counted = none → w.resumeOutcome = none →
    DiamondUndisturbed p tick w

/-- A document in which the record of the node reads as a success. -/
def SuccessDoc (g : Graph) (id : String) (doc : Value) : Prop :=
  ∃ w node timestamp, Snapshot g w node ∧ RecordsSuccess w.engine id ∧
    doc = saveCheckpoint (checkpointOf g w node.id timestamp)

/-- An iteration of a walk that records the node as a success routes it as one. -/
theorem routed_success {p : PipelineEngine} {id : String} {w : Walk} {tick : Tick}
    (hco : Coherent p.graph w) (hw : RecordsSuccess w.engine id) (hc : ConditionalHandled p tick w)
    (hu : Undisturbing p id w tick) (hid : w.currentNode.id = id) {o : Outcome}
    (h : routingOutcome w (iterate p tick w) = some o) : outcomeKey o = "success" := by
  refine routingOutcome_diamond (hu hid) hc (fun o' ho' => ?_) h
  exact hw o' (hid ▸ (hco.resume o' ho').2)

/-- As long as nothing disturbs the node, its record reads as a success. -/
theorem success_guarded (p : PipelineEngine) (id : String) :
    Recovery.Guarded (engineSystem p)
      (Event.Meets fun w tick => ConditionalHandled p tick w ∧ Undisturbing p id w tick)
      (fun w => Coherent p.graph w ∧ RecordsSuccess w.engine id) (SuccessDoc p.graph id) where
  fresh := by
    rintro w ⟨goal, c, h⟩
    refine ⟨coherent_start h, ?_⟩
    obtain ⟨n, -, rfl⟩ := start_ok h
    intro o ho
    cases ho
  next := by
    rintro w e d w' ⟨hco, hw⟩ hs hgood
    refine ⟨(coherent_invariant p).next hco hs, ?_⟩
    obtain ⟨tick, rfl, -, hnext⟩ := hs
    obtain ⟨m, hm⟩ := Next.walk?_eq_some hnext.symm
    exact ((iterate_case p tick w).recordsSuccess hw fun hid _ ho =>
      routed_success hco hw hgood.1 hgood.2 hid ho).2 m w' hm
  write := by
    rintro w e d s ⟨hco, hw⟩ ⟨tick, rfl, hd, -⟩ hgood
    obtain ⟨saved, hsaved, rfl⟩ := Option.map_eq_some_iff.mp hd.symm
    obtain ⟨hsnap, hcp⟩ := ((iterate_case p tick w).coherent hco).1 saved hsaved
    have hsuccess := ((iterate_case p tick w).recordsSuccess hw fun hid _ ho =>
      routed_success hco hw hgood.1 hgood.2 hid ho).1 saved hsaved
    exact ⟨saved.walk, w.currentNode, tick.timestamp, hsnap, hsuccess, congrArg saveCheckpoint hcp⟩
  restart := by
    rintro d e w ⟨w₁, node, timestamp, hsnap, hsuccess, rfl⟩ hr -
    obtain ⟨-, r, rfl⟩ := resumes_of_snapshot hsnap hr
    exact ⟨hsnap.coherent_restored r, recordsSuccess_restored hsuccess r node⟩

/-- In a run in which nothing disturbs a diamond, no edge of it that the rule
calls dead is ever selected. -/
theorem dead_edges_unselected {p : PipelineEngine} {h : List Event} {docs : List Value}
    {o : Option Walk} (run : Runs p h docs o)
    (hc : ∀ w tick, .iterated w tick ∈ h → ConditionalHandled p tick w) {n : Node} {e : Edge}
    (hdead : (n, e) ∈ deadEdges p.graph)
    (hu : ∀ w tick, .iterated w tick ∈ h → Undisturbing p n.id w tick) :
    ∀ w tick, .iterated w tick ∈ h → ¬ RoutesBy p.graph w (iterate p tick w) e := by
  intro w tick he hsel
  obtain ⟨-, hout, hd⟩ := mem_deadEdges.mp hdead
  -- the edge leaves the diamond, so the walk stands there
  have hid : w.currentNode.id = n.id := by
    rw [Graph.mem_outgoingEdges] at hout
    obtain ⟨o', -, hs | ⟨-, -, hb⟩⟩ := hsel
    · have hmem := selectEdge_mem hs
      rw [Graph.mem_outgoingEdges] at hmem
      exact hmem.2.symm.trans hout.2
    · have hmem := bestUnconditional_mem hb
      rw [Graph.mem_outgoingEdges] at hmem
      exact hmem.2.symm.trans hout.2
  obtain ⟨h₁, h₂, rfl⟩ := List.append_of_mem he
  have hgood : ∀ e' ∈ h₁, Event.Meets (fun w tick => ConditionalHandled p tick w ∧
      Undisturbing p n.id w tick) e' := by
    refine forall_meets_iff.mpr fun w' tick' he' => ?_
    have hmem : Event.iterated w' tick' ∈ h₁ ++ .iterated w tick :: h₂ :=
      List.mem_append_left _ he'
    exact ⟨hc w' tick' hmem, hu w' tick' hmem⟩
  rcases Recovery.Run.split run with ⟨docs', s, d, s', hrun, hs⟩ | ⟨docs', d, o', s', -, hr⟩
  · obtain ⟨tick', heq, -, -⟩ := hs
    cases heq
    obtain ⟨hco, hw⟩ := ((success_guarded p n.id).run hrun hgood).2 w rfl
    obtain ⟨o', ho', hkey⟩ := hsel.key hd
    exact hkey (routed_success hco hw (hc w tick he) (hu w tick he) hid ho')
  · obtain ⟨r, path, -, heq⟩ := hr
    cases heq

end Diamonds

section Demo

open Py.Ascii

/-- A tool, a diamond that reads its output, and a fix for a failure at the diamond. -/
def switchNode : Node := { id := "gate", shape := "diamond", prompt := "$tool.output" }

def fixEdge : Edge := { fromNode := "gate", toNode := "fix", condition := "outcome=fail" }

def switchPipeline : PipelineEngine where
  graph := Graph.ofNodes
    [{ id := "begin", shape := "Mdiamond" }, { id := "fetch", shape := "parallelogram" }, switchNode,
      { id := "fix" }, { id := "done", shape := "Msquare" }]
    [{ fromNode := "begin", toNode := "fetch" },
      { fromNode := "fetch", toNode := "gate", condition := "outcome=fail" },
      { fromNode := "fetch", toNode := "gate", condition := "outcome=success" },
      fixEdge, { fromNode := "gate", toNode := "done" }, { fromNode := "fix", toNode := "done" }]
  logsRoot := "/logs"
  handlerRegistry := ⟨standardHandlers⟩

def switchStart : Walk where
  engine := { context := initializeContext switchPipeline.graph none 0 {} }
  currentNode := { id := "begin", shape := "Mdiamond" }

theorem switchStart_runs : Runs switchPipeline [] [] (some switchStart) :=
  Recovery.Run.fresh ⟨none, {}, rfl⟩

theorem fixEdge_dead : (switchNode, fixEdge) ∈ deadEdges switchPipeline.graph := by
  refine mem_deadEdges.mpr ⟨⟨.tail _ (.tail _ (.head _)), by decide +kernel⟩, ?_, by decide +kernel⟩
  rw [Graph.mem_outgoingEdges]
  exact ⟨.tail _ (.tail _ (.tail _ (.head _))), rfl⟩

/-- A diamond whose handler ends as `ConditionalHandler` does. -/
def passes : Tick := Tick.ending (.returned (conditionalOutcome switchNode))

/-- The tool succeeds, and nothing disturbs the diamond. -/
theorem dead_edges_unselected_gate : ∃ w₁ w₂ docs o, Runs switchPipeline
    [.iterated switchStart succeeds, .iterated w₁ (endsWith .success), .iterated w₂ passes] docs o ∧
      w₂.currentNode = switchNode ∧ ∀ w tick, Event.iterated w tick ∈
        [.iterated switchStart succeeds, .iterated w₁ (endsWith .success), .iterated w₂ passes] →
        ¬ RoutesBy switchPipeline.graph w (iterate switchPipeline tick w) fixEdge := by
  obtain ⟨w₂, hw₂⟩ : ∃ w,
      walkAfter switchPipeline [succeeds, endsWith .success] switchStart = some w :=
    Option.isSome_iff_exists.mp (by decide +kernel)
  have hfacts₁ : (walkAfter switchPipeline [succeeds] switchStart).map (fun w => w.currentNode.id) =
      some "fetch" := by decide +kernel
  have hfacts₂ : (walkAfter switchPipeline [succeeds, endsWith .success] switchStart).map (fun w =>
      (w.currentNode.id, checkNodeSkip .insertion w.currentNode w.engine.failedOutputs)) =
        some ("gate", none) := by decide +kernel
  obtain ⟨w₁, hnext₁, hw₁⟩ := walkAfter_cons.mp hw₂
  obtain ⟨w₃, hnext₂, hsame⟩ := walkAfter_cons.mp hw₁
  obtain rfl : w₂ = w₃ := (Option.some.inj hsame).symm
  rw [walkAfter_cons.mpr ⟨w₁, hnext₁, rfl⟩, Option.map_some, Option.some.injEq] at hfacts₁
  rw [hw₂, Option.map_some, Option.some.injEq, Prod.mk.injEq] at hfacts₂
  have run₁ : Runs switchPipeline [.iterated switchStart succeeds] _ (some w₁) :=
    Recovery.Run.step switchStart_runs ⟨succeeds, rfl, rfl, hnext₁.symm⟩
  have run₂ : Runs switchPipeline [.iterated switchStart succeeds, .iterated w₁ (endsWith .success)] _
      (some w₂) := Recovery.Run.step run₁ ⟨endsWith .success, rfl, rfl, hnext₂.symm⟩
  have run : Runs switchPipeline [.iterated switchStart succeeds, .iterated w₁ (endsWith .success),
      .iterated w₂ passes] _ _ := Recovery.Run.step run₂ ⟨passes, rfl, rfl, rfl⟩
  have hfetch : w₁.currentNode = { id := "fetch", shape := "parallelogram" } := by
    have hmember := run₁.coherent.current
    rw [hfacts₁] at hmember
    exact (Option.some.inj hmember).symm
  have hgate : w₂.currentNode = switchNode := by
    have hmember := run₂.coherent.current
    rw [hfacts₂.1] at hmember
    exact (Option.some.inj hmember).symm
  have hverdict : ∀ v, diamondVerdict switchPipeline passes w₂ = .ok v →
      v = conditionalOutcome w₂.currentNode := fun v hv => (Except.ok.inj hv).symm
  have hundisturbed : DiamondUndisturbed switchPipeline passes w₂ := by
    refine ⟨?_, hfacts₂.2, fun _ _ _ h => (nomatch h), fun v hv => ?_, fun v hv o => ?_,
      fun v hv o => ?_⟩
    · rw [hgate]
      decide +kernel
    · rw [hverdict v hv]
      exact ⟨rfl, nofun⟩
    · rw [hverdict v hv, hgate]
      nofun
    · rw [hverdict v hv, hgate]
      nofun
  refine ⟨w₁, w₂, _, _, run, hgate, fun w tick he =>
    dead_edges_unselected run (fun w tick he => ?_) fixEdge_dead (fun w tick he => ?_) w tick he⟩
  · simp only [List.mem_cons, List.not_mem_nil, or_false, Event.iterated.injEq] at he
    rcases he with ⟨rfl, rfl⟩ | ⟨rfl, rfl⟩ | ⟨rfl, rfl⟩
    · intro h
      exact absurd h (by decide +kernel)
    · intro h
      rw [hfetch] at h
      exact absurd h (by decide +kernel)
    · intro _ k c
      rw [hgate]
      rfl
  · simp only [List.mem_cons, List.not_mem_nil, or_false, Event.iterated.injEq] at he
    rcases he with ⟨rfl, rfl⟩ | ⟨rfl, rfl⟩ | ⟨rfl, rfl⟩
    · exact fun hid => absurd hid (by decide)
    · intro hid
      rw [hfetch] at hid
      exact absurd hid (by decide)
    · exact fun _ _ _ => hundisturbed

/-- The ends of the edge taken. -/
def edgeTaken : Next → Option (String × String)
  | .goto m _ => m.edge?.map fun e => (e.fromNode, e.toNode)
  | .halt _ _ => none

/-- A diamond skipped for the key its upstream tool failed to write: the run
follows the edge that can never fire. -/
theorem dead_edge_fires : ∃ h docs w m w', Runs switchPipeline h docs (some w) ∧
    ConditionalHandled switchPipeline passes w ∧
    (switchNode, fixEdge) ∈ deadEdges switchPipeline.graph ∧
    (iterate switchPipeline passes w).next = .goto m w' ∧ m.edge? = some fixEdge ∧
    RoutesBy switchPipeline.graph w (iterate switchPipeline passes w) fixEdge := by
  obtain ⟨w, hw⟩ : ∃ w, walkAfter switchPipeline [succeeds, endsWith .fail] switchStart = some w :=
    Option.isSome_iff_exists.mp (by decide +kernel)
  have hfacts : (walkAfter switchPipeline [succeeds, endsWith .fail] switchStart).map (fun w =>
      (w.currentNode.id, edgeTaken (iterate switchPipeline passes w).next)) =
        some ("gate", some ("gate", "fix")) := by decide +kernel
  rw [hw, Option.map_some, Option.some.injEq, Prod.mk.injEq] at hfacts
  obtain ⟨hid, htaken⟩ := hfacts
  obtain ⟨docs, run⟩ := switchStart_runs.after hw
  have hnode : w.currentNode = switchNode := by
    have hmember := run.coherent.current
    rw [hid] at hmember
    exact (Option.some.inj hmember).symm
  cases hn : (iterate switchPipeline passes w).next with
  | halt hlt s =>
    rw [hn] at htaken
    cases htaken
  | goto m w' =>
    rw [hn, edgeTaken, Option.map_eq_some_iff] at htaken
    obtain ⟨e, he, hends⟩ := htaken
    have hsel := (iterate_case switchPipeline passes w).routesBy hn he
    have hout : e ∈ switchPipeline.graph.outgoingEdges "gate" := by
      obtain ⟨o, -, hs | ⟨-, -, hb⟩⟩ := hsel
      · exact hid ▸ selectEdge_mem hs
      · exact hid ▸ bestUnconditional_mem hb
    have hfix : e = fixEdge := by
      have hedges : switchPipeline.graph.outgoingEdges "gate" =
          [fixEdge, { fromNode := "gate", toNode := "done" }] := rfl
      rw [hedges, List.mem_cons, List.mem_singleton] at hout
      rcases hout with rfl | rfl
      · rfl
      · exact absurd (Prod.mk.inj hends).2 (by decide)
    subst hfix
    refine ⟨_, docs, w, m, w', run, fun _ k c => ?_, fixEdge_dead, hn, he, hsel⟩
    rw [hnode]
    rfl

end Demo

end DotRunner
