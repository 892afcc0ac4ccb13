import DotRunner.Lint.Cycles
import DotRunner.Lint.FailureRoutes

/-!
# How cycles are left

The rules on the cycles of a graph: every component that has one is to be left over an edge
with a gate, and to have a node whose evidence gates the flow.
-/

namespace DotRunner

open Py

variable [Runtime]

namespace Graph

/-! ## Gated exits -/

/-- An edge with a condition, or a labelled one out of a human gate. -/
def gatedEdge (g : Graph) (e : Edge) : Bool :=
  !e.plain || ((g.node? e.fromNode).any isHumanGate && stripText e.label != "")

def hasGatedExit (g : Graph) (scc : List String) : Bool :=
  scc.any fun id => (g.outgoingEdges id).any fun e =>
    decide (e.toNode ∉ scc) && (g.hasNode e.toNode && gatedEdge g e)

/-- `", ".join(sorted(scc))` -/
def cycleList (scc : List String) : String :=
  Text.join ", " (scc.insertionSort fun a b => a ≤ b)

def cycleNoConditionalExit (scc : List String) : Diagnostic where
  rule := "cycle_no_conditional_exit"
  severity := .warning
  message := "The cycle involving nodes [" ++ cycleList scc ++ "] has no explicitly-gated exit " ++
    "edge: no edge leaving the cycle carries a condition expression (or a labeled human-gate " ++
    "choice).  Termination rests on implicit routing mechanics (unconditional-edge tiebreaks, " ++
    "fail-fast halts) or budget caps (max_retries, max_pipeline_duration) — the convergence " ++
    "criterion is invisible to a reader of the graph."
  fix := "Add a condition expression to the cycle's exit edge(s) so the pipeline exits based on " ++
    "evidence (e.g. context.tool.last_line=done or context.preferred_label=converged). This makes " ++
    "convergence explicit and independent of budget caps.  See DOT-AUTHORING-GUIDE.md for the " ++
    "evidence-routing pattern."

/-- `_check_cycle_no_conditional_exit` -/
def checkCycleNoConditionalExit (g : Graph) : List Diagnostic :=
  ((computeSccs g).filter fun scc => !hasGatedExit g scc).map cycleNoConditionalExit

/-! ## Deterministic gates -/

def isTool (n : Node) : Bool := n.shape == "parallelogram" || n.type == "tool"

/-- A key that a tool writes: its outcome, or what it put out. -/
def isToolKey (key : String) : Bool :=
  key == "outcome" || Text.startsWith key.toList "tool.".toList ||
    Text.startsWith key.toList "context.tool.".toList

/-- `_tool_evidence_gates_flow` -/
def toolEvidenceGatesFlow (g : Graph) (id : String) : Bool :=
  (g.outgoingEdges id).any fun e =>
    if e.plain then nodeRunsOn g e.toNode == "success"
    else (parseCondition (stripText e.condition)).any fun c => isToolKey c.key

/-- A node of the component that a human decides at, or a tool that gates the flow. -/
def gatesCycle (g : Graph) (id : String) : Bool :=
  (g.node? id).any fun n => isHumanGate n || (isTool n && toolEvidenceGatesFlow g id)

def cycleNoDeterministicExit (g : Graph) (scc : List String) : Diagnostic where
  rule := "cycle_no_deterministic_exit"
  severity := .warning
  message := "The cycle involving nodes [" ++ cycleList scc ++ "] has no deterministic evidence " ++
    "gate: " ++ (if (scc.any fun id => (g.node? id).any isTool) then
      "parallelogram (tool) node(s) exist on the cycle but their evidence never gates routing: " ++
      "every outgoing edge is conditioned on non-tool context keys (e.g. LLM-set " ++
      "context.preferred_label), so the tool outcome/output is unused and the loop remains LLM-gated"
    else "no parallelogram (tool) node on the cycle provides mechanically-verifiable evidence for " ++
      "convergence") ++ ".  The loop's continuation/exit relies solely on LLM judgment."
  fix := "Put a parallelogram (tool) node on the cycle whose evidence gates routing: either route " ++
    "on its outcome/output (condition='context.tool.last_line=done && outcome=success' to exit, " ++
    "condition='outcome=fail' back to the work node), or give it a plain edge so a failing check " ++
    "halts the loop via fail-fast instead of letting unverified work continue.  See " ++
    "DOT-AUTHORING-GUIDE.md (TOPO-005) and examples/patterns/convergence-factory.dot."

/-- `_check_cycle_no_deterministic_exit` -/
def checkCycleNoDeterministicExit (g : Graph) : List Diagnostic :=
  ((computeSccs g).filter fun scc => !scc.any (gatesCycle g)).map (cycleNoDeterministicExit g)

/-! ## Components -/

/-- The nodes that are connected with one on a cycle, in some order. -/
def IsCyclic (g : Graph) (scc : List String) : Prop :=
  ∃ a, OnCycle g a ∧ ∀ b, b ∈ scc ↔ Connected g a b

omit [Runtime] in
theorem isCyclic_of_mem {g : Graph} {scc : List String} (h : scc ∈ computeSccs g) :
    IsCyclic g scc := by
  obtain ⟨order, visited, -, hswept⟩ := swept_computeSccs g
  obtain ⟨hloop, a, -, hcomponent⟩ := hswept.kept scc h
  exact ⟨a, (hasLoop_iff hcomponent).mp hloop, fun b => (hcomponent.mem b).trans mutual_adj⟩

omit [Runtime] in
theorem exists_scc {g : Graph} {a : String} (h : OnCycle g a) :
    ∃ scc ∈ computeSccs g, ∀ b, b ∈ scc ↔ Connected g a b := by
  obtain ⟨order, visited, horder, hswept⟩ := swept_computeSccs g
  obtain ⟨scc, hscc, hlisted⟩ :=
    hswept.all a ((horder a).mpr (mem_keys_iff_hasNode.mpr (hasNode_of_onCycle h)))
  exact ⟨scc, hlisted ((hasLoop_iff hscc).mpr h), fun b => (hscc.mem b).trans mutual_adj⟩

/-- One report for every component with a cycle that is bad, and no other. -/
structure ReportsComponents (g : Graph) (Bad : List String → Prop)
    (diagnose : List String → Diagnostic) (diags : List Diagnostic) : Prop where
  sound : ∀ d ∈ diags, ∃ scc, IsCyclic g scc ∧ Bad scc ∧ d = diagnose scc
  complete : ∀ a, OnCycle g a → ∀ scc : List String, (∀ b, b ∈ scc ↔ Connected g a b) → Bad scc →
    ∃ scc', (∀ b, b ∈ scc' ↔ b ∈ scc) ∧ diagnose scc' ∈ diags
  once : ∃ sccs : List (List String), sccs.Pairwise List.Disjoint ∧ diags = sccs.map diagnose

omit [Runtime] in
theorem reportsComponents {g : Graph} {bad : List String → Bool} {Bad : List String → Prop}
    (diagnose : List String → Diagnostic) (hbad : ∀ scc, bad scc = true ↔ Bad scc)
    (hsame : ∀ scc scc' : List String, (∀ b, b ∈ scc ↔ b ∈ scc') → Bad scc → Bad scc') :
    ReportsComponents g Bad diagnose (((computeSccs g).filter bad).map diagnose) := by
  constructor
  case sound =>
    intro d hd
    obtain ⟨scc, hscc, rfl⟩ := List.mem_map.mp hd
    obtain ⟨hmem, hscc⟩ := List.mem_filter.mp hscc
    exact ⟨scc, isCyclic_of_mem hmem, (hbad scc).mp hscc, rfl⟩
  case complete =>
    intro a ha scc hscc hb
    obtain ⟨scc', hmem, hscc'⟩ := exists_scc ha
    have hboth : ∀ b, b ∈ scc ↔ b ∈ scc' := fun b => (hscc b).trans (hscc' b).symm
    exact ⟨scc', fun b => (hboth b).symm, List.mem_map_of_mem
      (List.mem_filter.mpr ⟨hmem, (hbad scc').mpr (hsame scc scc' hboth hb)⟩)⟩
  case once =>
    obtain ⟨order, visited, -, hswept⟩ := swept_computeSccs g
    exact ⟨_, hswept.apart.sublist List.filter_sublist, rfl⟩

/-! ## The rules -/

/-- Every edge that leaves the component for another node is without a gate. -/
def Ungated (g : Graph) (scc : List String) : Prop :=
  ∀ e ∈ g.edges, e.fromNode ∈ scc → e.toNode ∉ scc → g.hasNode e.toNode = true → gatedEdge g e = false

omit [Runtime] in
theorem hasGatedExit_eq_false {g : Graph} {scc : List String} :
    hasGatedExit g scc = false ↔ Ungated g scc := by
  simp only [hasGatedExit, List.any_eq_false, mem_outgoingEdges, Bool.and_eq_true, decide_eq_true_eq,
    not_and, Bool.not_eq_true]
  constructor
  · intro h e he hfrom hto hnode
    exact h e.fromNode hfrom e ⟨he, rfl⟩ hto hnode
  · rintro h id hid e ⟨he, rfl⟩ hto hnode
    exact h e he hid hto hnode

/-- No node of the component gates the flow by its evidence. -/
def Ungating (g : Graph) (scc : List String) : Prop := ∀ id ∈ scc, gatesCycle g id = false

/-- The rules on cycles report what they are to report. -/
structure CycleExitsExact (g : Graph) : Prop where
  conditional : ReportsComponents g (Ungated g) cycleNoConditionalExit (checkCycleNoConditionalExit g)
  deterministic : ReportsComponents g (Ungating g) (cycleNoDeterministicExit g)
    (checkCycleNoDeterministicExit g)

/-- Both rules report every component that has a cycle, once, exactly where it has no gate. -/
theorem cycleExits_exact (g : Graph) : CycleExitsExact g := by
  constructor
  case conditional =>
    refine reportsComponents cycleNoConditionalExit (fun scc => ?_) fun scc scc' hsame h => ?_
    · rw [Bool.not_eq_true', hasGatedExit_eq_false]
    · intro e he hfrom hto hnode
      exact h e he ((hsame _).mpr hfrom) (fun hin => hto ((hsame _).mp hin)) hnode
  case deterministic =>
    refine reportsComponents (cycleNoDeterministicExit g) (fun scc => ?_) fun scc scc' hsame h => ?_
    · rw [Bool.not_eq_true', List.any_eq_false]
      exact forall₂_congr fun id _ => Iff.of_eq (Bool.not_eq_true _)
    · exact fun id hid => h id ((hsame id).mpr hid)

end Graph

end DotRunner
