import DotRunner.Engine.Artifacts
import DotRunner.Nested.Refinement

/-!
# The artifact contract on every path

A node is executed by the main loop, whose backstop checks its artifact, or by
`run_subgraph`, which records what the handler returned.
-/

namespace DotRunner

open Py Approx

/-- The outcome `run_subgraph` reports for a node whose handler ended so. -/
def HandlerEnd.reported (nodeId : String) : HandlerEnd → Outcome
  | .returned o => o
  | .childDot text => childDotOutcome text
  | .raised e => failedWith ("Subgraph node '" ++ nodeId ++ "' raised: " ++ e.text)

/-- The handler claims to have done its work. -/
def HandlerEnd.Claims (ended : HandlerEnd) : Prop :=
  ∃ o, ended = .returned o ∧ o.isSuccess = true

theorem claims_iff_reported {nodeId : String} {ended : HandlerEnd} :
    ended.Claims ↔ (ended.reported nodeId).isSuccess = true := by
  cases ended with
  | returned o =>
    constructor
    · rintro ⟨o', ho, hsuccess⟩
      cases ho
      exact hsuccess
    · intro h
      exact ⟨o, rfl, h⟩
  | childDot text => exact ⟨fun ⟨_, h, _⟩ => (nomatch h), fun h => (nomatch h)⟩
  | raised e => exact ⟨fun ⟨_, h, _⟩ => (nomatch h), fun h => (nomatch h)⟩

section Contract

variable [Runtime]

/-- The execution in a step of a subgraph walk: how the handler ended, and the
context it left.  A start node is passed as if its handler had succeeded. -/
def subgraphExecution (w : World) (r : Runners) (p : PipelineEngine) (place : Place) (node : Node)
    (context : PipelineContext) : Option (HandlerEnd × PipelineContext) :=
  if w.cut place || w.cancelled place || node.isSubgraphTerminal then none
  else match p.handlerRegistry.get node with
    | .error _ => none
    | .ok handlerType =>
      if node.isStartNode then some (.returned { status := .success }, context)
      else (executeHandler w r p place handlerType node context).bind fun run => run.ended.done?

/-- A step goes by the outcome of its execution, where it has one. -/
theorem subgraphStep_execution {w : World} {r : Runners} {p : PipelineEngine} {place : Place}
    {node : Node} {last : Option Outcome} {context : PipelineContext} {s : SubgraphStep}
    {l : List Mark} (h : subgraphStep w r p place node last context = some (.done s, l)) :
    (∃ e, subgraphExecution w r p place node context = none ∧ s = .ended e) ∨
      ∃ ended, subgraphExecution w r p place node context = some ended ∧
        s = afterSubgraphNode p.graph node ended := by
  unfold subgraphStep at h
  unfold subgraphExecution
  cases hcut : w.cut place with
  | true =>
    rw [hcut] at h
    cases h
  | false =>
    cases hcancelled : w.cancelled place with
    | true =>
      rw [hcut, hcancelled] at h
      cases h
      exact .inl ⟨_, rfl, rfl⟩
    | false =>
      cases hterminal : node.isSubgraphTerminal with
      | true =>
        rw [hcut, hcancelled, hterminal] at h
        cases h
        exact .inl ⟨_, rfl, rfl⟩
      | false =>
        rw [hcut, hcancelled, hterminal] at h
        cases hget : p.handlerRegistry.get node with
        | error e =>
          rw [hget] at h
          cases h
          exact .inl ⟨_, rfl, rfl⟩
        | ok handlerType =>
          rw [hget] at h
          cases hstart : node.isStartNode with
          | true =>
            rw [hstart] at h
            cases h
            exact .inr ⟨_, rfl, rfl⟩
          | false =>
            simp only [hstart, Bool.false_eq_true, if_false] at h
            split at h
            · cases h
            · rename_i run hrun
              obtain ⟨ended, hended, hs⟩ :=
                Finish.map_eq_done (congrArg Prod.fst (Option.some.inj h))
              refine .inr ⟨ended, ?_, hs.symm⟩
              simp [hrun, hended, Finish.done?]

/-- A walk goes on with the outcome reported for its node. -/
theorem goto_reported {g : Graph} {node next : Node} {ended : HandlerEnd × PipelineContext}
    {context : PipelineContext} {o : Outcome}
    (h : afterSubgraphNode g node ended = .goto next context o) :
    o = ended.1.reported node.id := by
  obtain ⟨ended, c⟩ := ended
  cases ended with
  | returned o' =>
    have hleave : leaveSubgraphNode g node o' (applyOutcome c o') = .goto next context o := h
    unfold leaveSubgraphNode at hleave
    split at hleave
    · split at hleave <;> cases hleave
    · split at hleave
      · cases hleave
        rfl
      · cases hleave
  | childDot text => cases h
  | raised e => cases h

/-- The states a walk of `run_subgraph` comes to: with `left` steps left, at a
node, with the last outcome and the context. -/
inductive Visits (w : World) (r : Runners) (p : PipelineEngine) (place : Place) (root : String)
    (context : PipelineContext) : Nat → Node → Option Outcome → PipelineContext → Prop
  | begins {node : Node} (h : p.graph.node? root = some node) :
      Visits w r p place root context (maxSteps p.graph).toNat node none context
  | goes {left : Nat} {node next : Node} {last : Option Outcome} {c c' : PipelineContext}
      {o : Outcome} {l : List Mark} (hv : Visits w r p place root context (left + 1) node last c)
      (hs : subgraphStep w r p (left :: place) node last c = some (.done (.goto next c' o), l)) :
      Visits w r p place root context left next (some o) c'

/-- A walk executes the node, from the context `before`. -/
structure Executes (w : World) (r : Runners) (p : PipelineEngine) (place : Place) (root : String)
    (context : PipelineContext) (left : Nat) (node : Node) (ended : HandlerEnd)
    (after : PipelineContext) : Prop where
  executed : ∃ last before, Visits w r p place root context (left + 1) node last before ∧
    subgraphExecution w r p (left :: place) node before = some (ended, after)

/-- A walk reports the outcome for the node. -/
def Reports (w : World) (r : Runners) (p : PipelineEngine) (place : Place) (root : String)
    (context : PipelineContext) (left : Nat) (node : Node) (o : Outcome)
    (after : PipelineContext) : Prop :=
  ∃ ended, Executes w r p place root context left node ended after ∧ o = ended.reported node.id

/-- What a walk goes on with is what it has reported for the node it leaves. -/
theorem Visits.reported {w : World} {r : Runners} {p : PipelineEngine} {place : Place}
    {root : String} {context : PipelineContext} {left : Nat} {next : Node} {o : Outcome}
    {c : PipelineContext} (h : Visits w r p place root context left next (some o) c) :
    ∃ node after, Reports w r p place root context left node o after := by
  cases h with
  | goes hv hs =>
    rename_i node last before l
    rcases subgraphStep_execution hs with ⟨e, -, hended⟩ | ⟨ended, hexec, hgoto⟩
    · cases hended
    · exact ⟨node, ended.2, ended.1, ⟨last, before, hv, hexec⟩, goto_reported hgoto.symm⟩

/-- The artifact is there after the step of a walk, as the contract asks. -/
def DeliveredBy (w : World) (place : Place) (node : Node) (after : PipelineContext) : Prop :=
  Delivered node (w.attempt place).1 after (w.attempt place).2

variable [JsonReader]

/-- The artifact contract.  In every run, killed and resumed however often, each
success the main loop records is one whose artifact passed the check after the
execution began.  A walk of `run_subgraph`, for a branch or a managed child,
reports such successes alone exactly when every handler that claims success has
delivered. -/
theorem artifact_contract (p : PipelineEngine) :
    (∀ h docs w, Runs p h docs (some w) →
      (∀ id o, w.engine.Recorded id o → o.isSuccess = true → DeliveredIn p h id o) ∧
      ∀ tick id o, (iterate p tick w).next.engine.Recorded id o → o.isSuccess = true →
        w.engine.Recorded id o ∨ w.currentNode.id = id ∧ DeliveredAt p tick w) ∧
    ∀ (w : World) (d : Nat) (place : Place) (root : String) (context : PipelineContext),
      (∀ left node o after, Reports w (runners w d) p place root context left node o after →
        o.isSuccess = true → DeliveredBy w (left :: place) node after) ↔
      ∀ left node ended after,
        Executes w (runners w d) p place root context left node ended after →
        ended.Claims → DeliveredBy w (left :: place) node after := by
  refine ⟨fun h docs w run => ⟨fun id o hr ho => run.delivered hr ho, fun tick id o hr ho =>
    iterate_recorded hr ho⟩, fun w d place root context => ⟨?_, ?_⟩⟩
  · intro h left node ended after hexec hclaims
    exact h left node _ after ⟨ended, hexec, rfl⟩ (claims_iff_reported.mp hclaims)
  · rintro h left node o after ⟨ended, hexec, rfl⟩ hsuccess
    exact h left node ended after hexec (claims_iff_reported.mpr hsuccess)

end Contract

section Demo

open Py.Ascii

/-- A parallel node with a branch that owes a report. -/
def reportPipeline : PipelineEngine where
  graph := Graph.ofNodes
    [{ id := "begin", shape := "Mdiamond" }, { id := "fork", shape := "component" },
      { id := "report", attrs := Dict.ofList [("must_write", .str "report.md")] },
      { id := "other" }, { id := "join", shape := "tripleoctagon" },
      { id := "done", shape := "Msquare" }]
    [{ fromNode := "begin", toNode := "fork" }, { fromNode := "fork", toNode := "report" },
      { fromNode := "fork", toNode := "other" }, { fromNode := "report", toNode := "join" },
      { fromNode := "other", toNode := "join" }, { fromNode := "join", toNode := "done" }]
  logsRoot := "/logs"
  handlerRegistry := ⟨standardHandlers⟩

def reportNode : Node :=
  { id := "report", attrs := Dict.ofList [("must_write", .str "report.md")] }

theorem report_executed : Executes succeedsEverywhere (runners succeedsEverywhere 1)
    reportPipeline [] "report" {} 299 reportNode (.returned { status := .success }) {} where
  executed := ⟨none, {}, Visits.begins rfl, rfl⟩

/-- No file is ever written, and the branch reports a success. -/
theorem missing_report_succeeds : ∃ left node o after,
    Reports succeedsEverywhere (runners succeedsEverywhere 1) reportPipeline [] "report" {} left
      node o after ∧
    o.isSuccess = true ∧ ¬ DeliveredBy succeedsEverywhere [left] node after := by
  refine ⟨299, reportNode, { status := .success }, {}, ⟨_, report_executed, rfl⟩, rfl, ?_⟩
  intro h
  obtain ⟨mtimeNs, content, hstat, -⟩ := h (by decide +kernel)
  cases hstat

end Demo

end DotRunner
