import DotRunner.Engine.Transitions
import DotRunner.Engine.FailedOutputs
import DotRunner.Lint.Rules

/-!
# Executable graphs

The lookups and conversions of the loop against the rules that vouch for them.  A rule
stands behind each of them but two: the shapes of the nodes that the shape rule passes
over, and the timeouts.
-/

namespace DotRunner

open Py

/-! ## What the rules vouch for -/

section Rules

variable [Runtime] {g : Graph} {extraRules : List (Graph → List Diagnostic)}

/-- A rule that reports nothing but errors has nothing to say of a valid graph. -/
theorem Valid.silent (h : Valid g extraRules) (rule : Graph → List Diagnostic)
    (hr : rule ∈ builtinRules) (herrors : ∀ d ∈ rule g, d.severity = .error) : rule g = [] :=
  List.eq_nil_iff_forall_not_mem.mpr fun d hd => h.rule hr hd (herrors d hd)

theorem Valid.startNode (h : Valid g extraRules) : ∃ n, findStartNode g = .ok n := by
  have hsilent : checkStartNode g = [] := by
    apply h.silent checkStartNode (by simp [builtinRules])
    intro d hd
    unfold checkStartNode at hd
    split at hd <;> simp_all
  have hne : g.startNodes ≠ [] := by
    intro hnil
    simp [checkStartNode, hnil] at hsilent
  obtain ⟨n, hn⟩ := List.exists_mem_of_ne_nil _ hne
  obtain ⟨hmem, hstart⟩ := List.mem_filter.mp hn
  unfold findStartNode
  split
  · exact ⟨_, rfl⟩
  · rename_i hnone
    simp only [Option.or_eq_none_iff, List.find?_eq_none] at hnone
    simp only [Node.isStartNode, Bool.or_eq_true] at hstart
    rcases hstart with (hs | hs) | hs
    · exact absurd hs (hnone.1.1 n hmem)
    · exact absurd hs (hnone.1.2 n hmem)
    · exact absurd hs (hnone.2 n hmem)

theorem Valid.edgeTarget (h : Valid g extraRules) {e : Edge} (he : e ∈ g.edges) :
    g.hasNode e.toNode = true := by
  have hsilent : checkEdgeTargets g = [] := by
    apply h.silent checkEdgeTargets (by simp [builtinRules])
    intro d hd
    obtain ⟨e, -, hd⟩ := List.mem_flatMap.mp hd
    simp only [List.mem_append, apply_ite (d ∈ ·), List.not_mem_nil, List.mem_singleton] at hd
    rcases hd with hd | hd <;> split at hd <;> simp_all [missingEnd]
  rw [checkEdgeTargets, List.flatMap_eq_nil_iff] at hsilent
  have hedge := (List.append_eq_nil_iff.mp (hsilent e he)).2
  by_contra hmissing
  rw [if_neg hmissing] at hedge
  cases hedge

/-- The shape rule speaks of nodes without a type that are neither start nor exit. -/
theorem Valid.shape (h : Valid g extraRules) {n : Node} (hn : n ∈ g.nodes.values)
    (htype : n.type = "") (hstart : n.isStartNode = false) (hexit : n.isExitNode = false) :
    n.shape ∈ supportedShapes := by
  have hsilent : checkShapeResolvable g = [] := by
    apply h.silent checkShapeResolvable (by simp [builtinRules])
    intro d hd
    obtain ⟨n, -, hd⟩ := List.mem_flatMap.mp hd
    split at hd <;> simp_all [unresolvableShape]
  rw [checkShapeResolvable, List.flatMap_eq_nil_iff] at hsilent
  have hnode := hsilent n hn
  by_contra hshape
  rw [if_neg (by simp [htype, hstart, hexit, hshape])] at hnode
  cases hnode

theorem Valid.retryPolicy (h : Valid g extraRules) {n : Node} (hn : n ∈ g.nodes.values) :
    ∃ policy, RetryPolicy.fromNode n g = .ok policy := by
  have hsilent : checkRetryBudgets g = [] := by
    apply h.silent checkRetryBudgets (by simp [builtinRules])
    intro d hd
    rcases List.mem_append.mp hd with hd | hd
    · obtain ⟨n, -, hd⟩ := List.mem_flatMap.mp hd
      split at hd
      · simp at hd
      · split at hd <;> simp_all
    · split at hd <;> simp_all
  obtain ⟨hnodes, hgraph⟩ := List.append_eq_nil_iff.mp hsilent
  have hread : ∀ v : Value, (retryValue v).isSome = true →
      ∃ k, parseNonNegativeRetryCount v = .ok k := by
    intro v hv
    unfold retryValue at hv
    cases hk : parseNonNegativeRetryCount v with
    | ok k => exact ⟨k, rfl⟩
    | error e =>
      rw [hk] at hv
      cases hv
  have hdefault : ∃ k, parseNonNegativeRetryCount g.defaultMaxRetry = .ok k := by
    apply hread
    by_contra hbad
    rw [if_neg hbad] at hgraph
    cases hgraph
  have hset : n.maxRetries ≠ .none → ∃ k, parseNonNegativeRetryCount n.maxRetries = .ok k := by
    intro hne
    apply hread
    have hnode := List.flatMap_eq_nil_iff.mp hnodes n hn
    by_contra hbad
    split at hnode
    · contradiction
    · rw [if_neg hbad] at hnode
      cases hnode
  have hattr : n.attr "max_retries" = n.maxRetries := rfl
  have hok : ∀ {v : Value}, (∃ k, parseNonNegativeRetryCount v = .ok k) →
      ∃ policy, (do
        let k ← parseNonNegativeRetryCount v
        return (⟨k + 1⟩ : RetryPolicy)) = .ok policy := by
    rintro v ⟨k, hk⟩
    rw [hk]
    exact ⟨_, rfl⟩
  unfold RetryPolicy.fromNode
  rw [hattr]
  apply hok
  split
  · rename_i hnone
    split
    · exact ⟨0, rfl⟩
    · exact hdefault
  · rename_i hne
    exact hset hne

end Rules

/-! ## Dispatch and conversion -/

section Lookups

variable [Runtime]

/-- A registered handler by `type` or `node_type`, or a shape that stands for one. -/
def Dispatchable (customs : List String) (n : Node) : Prop :=
  (n.type ≠ "" ∧ n.type ∈ standardHandlers ++ customs) ∨
    (∃ s, n.attr "node_type" = .str s ∧ s ≠ "" ∧ s ∈ standardHandlers ++ customs) ∨
    n.shape ∈ supportedShapes

omit [Runtime] in
theorem names_isSome {customs : List String} {v : Value} :
    ((registryWith customs).names v).isSome = true ↔
      ∃ s, v = .str s ∧ s ≠ "" ∧ s ∈ standardHandlers ++ customs := by
  cases v <;> simp [HandlerRegistry.names, registryWith]

/-- The registry has a handler for exactly these nodes. -/
theorem get_ok_iff {customs : List String} {n : Node} :
    (∃ k, (registryWith customs).get n = .ok k) ↔ Dispatchable customs n := by
  have htype : ((registryWith customs).names (.str n.type)).isSome = true ↔
      n.type ≠ "" ∧ n.type ∈ standardHandlers ++ customs := by
    rw [names_isSome]
    simp
  have hor : (((registryWith customs).names (.str n.type)).or
      ((registryWith customs).names (n.attr "node_type"))).isSome = true ↔
        (n.type ≠ "" ∧ n.type ∈ standardHandlers ++ customs) ∨
          ∃ s, n.attr "node_type" = .str s ∧ s ≠ "" ∧ s ∈ standardHandlers ++ customs := by
    rw [Option.isSome_or, Bool.or_eq_true, htype, names_isSome]
  unfold HandlerRegistry.get Dispatchable
  rw [← or_assoc, ← hor]
  cases hnames : ((registryWith customs).names (.str n.type)).or
      ((registryWith customs).names (n.attr "node_type")) with
  | some k => simp
  | none =>
    simp only [Option.isSome_none, Bool.false_eq_true, false_or]
    rw [← shapeToHandler_isSome]
    cases hshape : shapeToHandler n.shape with
    | none => simp
    | some k =>
      have hk : k ∈ (registryWith customs).handlers := by
        have hsupported := (shapeToHandler_isSome n.shape).mp (by rw [hshape]; rfl)
        obtain rfl := Option.some.inj ((shapeToHandler_supported hsupported).symm.trans hshape)
        exact List.mem_append_left _ (resolveHandlerType_mem n.shape)
      simp [hk]

/-- `float(node.timeout)` where there is one. -/
def TimeoutReads (n : Node) : Prop := n.timeout.truthy = true → ∃ f, floatOf n.timeout = .ok f

theorem nodeTimeout_ok_iff {n : Node} : (∃ t, nodeTimeout n = .ok t) ↔ TimeoutReads n := by
  unfold nodeTimeout TimeoutReads
  by_cases ht : n.timeout.truthy = true
  · rw [if_pos ht]
    constructor
    · rintro ⟨t, h⟩ -
      cases hf : floatOf n.timeout with
      | ok f => exact ⟨f, rfl⟩
      | error e =>
        rw [hf] at h
        cases h
    · intro h
      obtain ⟨f, hf⟩ := h ht
      rw [hf]
      exact ⟨some f, rfl⟩
  · rw [if_neg ht]
    exact ⟨fun _ h => absurd h ht, fun _ => ⟨none, rfl⟩⟩

/-- What no rule vouches for: the shape of a node with a type or of a start node, and a
timeout. -/
def Executable (customs : List String) (n : Node) : Prop :=
  ((n.type ≠ "" ∨ n.isStartNode = true) → Dispatchable customs n) ∧ TimeoutReads n

/-- In a valid graph a node that is no exit has a handler if the shape rule does not pass
it over, and wherever it has one. -/
theorem Valid.dispatchable {g : Graph} {extraRules : List (Graph → List Diagnostic)}
    (h : Valid g extraRules) {customs : List String} {n : Node} (hn : n ∈ g.nodes.values)
    (hexit : n.isExitNode = false) :
    Dispatchable customs n ↔ ((n.type ≠ "" ∨ n.isStartNode = true) → Dispatchable customs n) := by
  refine ⟨fun hd _ => hd, fun hpassed => ?_⟩
  by_cases hover : n.type ≠ "" ∨ n.isStartNode = true
  · exact hpassed hover
  · obtain ⟨htype, hstart⟩ := not_or.mp hover
    exact .inr (.inr (h.shape hn (not_not.mp htype) (eq_false_of_ne_true hstart) hexit))

/-! ## Routing -/

/-- The nodes of all edges are there. -/
def TargetsExist (g : Graph) : Prop := ∀ e ∈ g.edges, g.hasNode e.toNode = true

omit [Runtime] in
theorem jump_not_raised {w : Walk} {g : Graph} {nodeId : String} {m : Move} {e : PyExc}
    {s : EngineState} (h : g.hasNode nodeId = true) :
    w.jump g nodeId m ≠ .halt (.raised e) s := by
  obtain ⟨n, hn⟩ := Option.isSome_iff_exists.mp h
  unfold Walk.jump
  rw [hn]
  nofun

theorem route_not_raised {w : Walk} {g : Graph} {ord : SetOrder} {o : Outcome} {e : PyExc}
    {s : EngineState} (h : TargetsExist g) : w.route g ord o ≠ .halt (.raised e) s := by
  intro hr
  unfold Walk.route at hr
  split at hr
  · rename_i roots hroots
    split at hr
    · cases hr
    · rename_i fanIn hfan
      have hsucc : roots = g.successors w.currentNode.id := by
        unfold Walk.branchRoots at hroots
        split at hroots
        · exact (Option.some.inj hroots).symm
        · cases hroots
      obtain ⟨edge, he, hto⟩ := Graph.edge_to_findFanInNode (hsucc ▸ hfan)
      have hnode : g.hasNode fanIn = true := hto ▸ h edge he
      split at hr
      · exact jump_not_raised hnode hr
      · rename_i hnone
        rw [Graph.hasNode, hnone] at hnode
        cases hnode
  · unfold Walk.selectAndGo at hr
    split at hr
    · rename_i edge hsel
      have hmem := (g.mem_outgoingEdges.mp (selectEdge_mem hsel)).1
      unfold Walk.follow at hr
      exact jump_not_raised (h edge hmem) hr
    · unfold Walk.failureRoute at hr
      dsimp only at hr
      split at hr
      · split at hr <;> cases hr
      · cases hr

theorem routeSkipped_not_raised {w : Walk} {g : Graph} {o : Outcome} {e : PyExc}
    {s : EngineState} (h : TargetsExist g) : w.routeSkipped g o ≠ .halt (.raised e) s := by
  intro hr
  unfold Walk.routeSkipped at hr
  dsimp only at hr
  split at hr
  · rename_i edge hskip
    have hmem : edge ∈ g.edges := by
      unfold Walk.skipEdge at hskip
      rcases Option.or_eq_some_iff.mp hskip with hsel | ⟨-, hbest⟩
      · exact (g.mem_outgoingEdges.mp (selectEdge_mem hsel)).1
      · exact (g.mem_outgoingEdges.mp (bestUnconditional_mem hbest)).1
    exact jump_not_raised (h edge hmem) hr
  · split at hr
    · split at hr <;> cases hr
    · cases hr

end Lookups

/-! ## Iterations -/

section Iterations

variable [Runtime] [JsonReader]

/-- The iteration gets as far as the handler of its node. -/
structure ReachesHandler (p : PipelineEngine) (tick : Tick) (w : Walk) : Prop where
  unguarded : guardLoop p tick w.counted = none
  inner : w.currentNode.isExitNode = false
  fresh : w.resumeOutcome = none
  unskipped : checkNodeSkip tick.ord w.currentNode w.engine.failedOutputs = none

/-- A lookup or a conversion of the loop that raises: the handler of the node, its retry
count, its timeout, the node an edge or a fan-in leads to. -/
inductive LookupRaises (p : PipelineEngine) (tick : Tick) (w : Walk) : PyExc → Prop
  | handler {e : PyExc} (h : ReachesHandler p tick w)
      (he : p.handlerRegistry.get w.currentNode = .error e) : LookupRaises p tick w e
  | retryCount {k : String} {e : PyExc} (h : ReachesHandler p tick w)
      (hk : p.handlerRegistry.get w.currentNode = .ok k)
      (he : RetryPolicy.fromNode w.currentNode p.graph = .error e) : LookupRaises p tick w e
  | timeout {k : String} {policy : RetryPolicy} {e : PyExc} (h : ReachesHandler p tick w)
      (hk : p.handlerRegistry.get w.currentNode = .ok k)
      (hp : RetryPolicy.fromNode w.currentNode p.graph = .ok policy)
      (he : nodeTimeout w.currentNode = .error e) : LookupRaises p tick w e
  | target {o : Outcome} {e : PyExc} {s : EngineState}
      (ho : routingOutcome w (iterate p tick w) = some o)
      (he : (iterate p tick w).next = .halt (.raised e) s) : LookupRaises p tick w e

theorem ReachesHandler.iterate_eq {p : PipelineEngine} {tick : Tick} {w : Walk}
    (h : ReachesHandler p tick w) : iterate p tick w = executeNode p tick w.counted := by
  have hinner : w.counted.currentNode.isExitNode ≠ true := by
    show w.currentNode.isExitNode ≠ true
    rw [h.inner]
    decide
  have hfresh : w.counted.resumeOutcome = none := h.fresh
  have hunskipped : checkNodeSkip tick.ord w.counted.currentNode w.counted.engine.failedOutputs =
      none := h.unskipped
  rw [iterate_unguarded h.unguarded, visit_eq, if_neg hinner, hfresh, hunskipped]

omit [JsonReader] in
/-- No walk is routed to a node that is not there. -/
theorem target_not_raised {p : PipelineEngine} {tick : Tick} {w : Walk} {r : IterEnd} {o : Outcome}
    {e : PyExc} {s : EngineState} (hcase : IterCase p tick w r) (hg : TargetsExist p.graph)
    (ho : routingOutcome w r = some o) (he : r.next = .halt (.raised e) s) : False := by
  cases hcase with
  | guarded hguard hfail => cases he
  | exit hguard hx =>
    have hreturned := (leaveExit_halt he).1
    cases hreturned
  | hop hguard hx hresume => exact route_not_raised hg he
  | skip hguard hx hresume hk => exact routeSkipped_not_raised hg he
  | execute hguard hx hresume hk hsw ha => exact route_not_raised hg he
  | abort hguard hx hresume hk hu hs => exact absurd (hresume.symm.trans ho) nofun

/-- In a valid graph a lookup of an iteration raises exactly where it executes a node that
no rule vouches for. -/
theorem lookupRaises_iff {p : PipelineEngine} {customs : List String}
    {extraRules : List (Graph → List Diagnostic)} (hvalid : Valid p.graph extraRules)
    (hreg : p.handlerRegistry = registryWith customs) {tick : Tick} {w : Walk}
    (hmem : w.currentNode ∈ p.graph.nodes.values) :
    (∃ e, LookupRaises p tick w e) ↔
      ReachesHandler p tick w ∧ ¬ Executable customs w.currentNode := by
  constructor
  · rintro ⟨e, h⟩
    cases h with
    | handler h he =>
      refine ⟨h, fun hexec => ?_⟩
      obtain ⟨k, hk⟩ := get_ok_iff.mpr ((hvalid.dispatchable hmem h.inner).mpr hexec.1)
      rw [hreg, hk] at he
      cases he
    | retryCount h hk he =>
      obtain ⟨policy, hpolicy⟩ := hvalid.retryPolicy hmem
      exact absurd (hpolicy.symm.trans he) nofun
    | timeout h hk hp he =>
      refine ⟨h, fun hexec => ?_⟩
      obtain ⟨t, ht⟩ := nodeTimeout_ok_iff.mpr hexec.2
      exact absurd (ht.symm.trans he) nofun
    | target ho he =>
      exact (target_not_raised (iterate_case p tick w) (fun _ h => hvalid.edgeTarget h) ho he).elim
  · rintro ⟨hexec, hnot⟩
    cases hget : p.handlerRegistry.get w.currentNode with
    | error e => exact ⟨e, .handler hexec hget⟩
    | ok k =>
      obtain ⟨policy, hpolicy⟩ := hvalid.retryPolicy hmem
      cases htimeout : nodeTimeout w.currentNode with
      | error e => exact ⟨e, .timeout hexec hget hpolicy htimeout⟩
      | ok t =>
        refine absurd ⟨fun _ => ?_, nodeTimeout_ok_iff.mp ⟨t, htimeout⟩⟩ hnot
        exact get_ok_iff.mp ⟨k, hreg ▸ hget⟩

end Iterations

section Demo

open Py.Ascii

theorem valid_of_severities {g : Graph} {extraRules : List (Graph → List Diagnostic)}
    (h : (validate g extraRules).all (fun d => decide (d.severity ≠ .error)) = true) :
    Valid g extraRules :=
  fun d hd => of_decide_eq_true (List.all_eq_true.mp h d hd)

/-- A start node by its id, of a shape no handler is known for. -/
def ovalPipeline : PipelineEngine where
  graph := Graph.ofNodes [{ id := "start", shape := "oval" }, { id := "done", shape := "Msquare" }]
    [{ fromNode := "start", toNode := "done" }]
  logsRoot := "/logs"
  handlerRegistry := ⟨standardHandlers⟩

def ovalStart : Walk where
  engine := { context := initializeContext ovalPipeline.graph none 0 {} }
  currentNode := { id := "start", shape := "oval" }

end Demo

end DotRunner
