import DotRunner.Nested.Branches

/-!
# Where branches meet

The fan-in the main loop goes on at against the nodes the walks of the branches
stop at.
-/

namespace DotRunner

open Py Approx

section Meeting

variable [Runtime]

section Stops

variable (p : PipelineEngine)

/-- A walk inside another goes from the first node to the second when its
handlers end with these outcomes and leave these contexts. -/
inductive Leads : List (Outcome × PipelineContext) → Node → Node → Prop
  | here (n : Node) : Leads [] n n
  | edge {os : List (Outcome × PipelineContext)} {n n' m : Node} {o : Outcome}
      {c : PipelineContext} {e : Edge} (hn : n.isSubgraphTerminal = false)
      (ho : MayEndWith p n o) (he : selectEdge n.id o (applyOutcome c o) p.graph = some e)
      (hn' : p.graph.node? e.toNode = some n') (hrest : Leads os n' m) : Leads ((o, c) :: os) n m

/-- A walk that comes to the node ends there, and is not cut short. -/
def Stops (n : Node) : Prop := n.isSubgraphTerminal = true ∨ p.graph.outgoingEdges n.id = []

/-- A walk from `root` may stop at `s` within the step bound. -/
def MayStop (root s : String) : Prop :=
  ∃ os n m, p.graph.node? root = some n ∧ Leads p os n m ∧
    os.length < (maxSteps p.graph).toNat ∧ Stops p m ∧ m.id = s

/-- The node is run by a handler that starts no walk. -/
def LeafRun (n : Node) : Prop :=
  n.isStartNode = false ∧ ∃ handlerType, p.handlerRegistry.get n = .ok handlerType ∧
    handlerType ∉ ["parallel", "stack.manager_loop", "pipeline"]

/-- Every node on the way from these roots is run by such a handler. -/
def LeafBranches (roots : List String) : Prop :=
  ∀ root ∈ roots, ∀ os n m, p.graph.node? root = some n → Leads p os n m →
    m.isSubgraphTerminal = false → LeafRun p m

/-- The fan-in is one for every order of the sets, and where every walk of a
branch that was not cut short stopped. -/
def FanInMeets (roots : List String) [JsonReader] : Prop :=
  ∀ ord f, p.graph.findFanInNode ord roots = some f →
    (∀ ord', p.graph.findFanInNode ord' roots = some f) ∧
    ∀ w d place root context e l s, root ∈ roots →
      (runners w d).subgraph p place root context = some (.done e, l) → e.stop = some s → s = f

/-- One common descendant is the shallowest, and no walk of a branch can stop
elsewhere. -/
def MeetsAtShallowest (roots : List String) : Prop :=
  p.graph.UnambiguousFanIn roots ∧
    ∀ root ∈ roots, ∀ s, MayStop p root s → p.graph.Shallowest roots s

end Stops

variable {w : World} {r : Runners} {p : PipelineEngine}

theorem Leads.reach {os : List (Outcome × PipelineContext)} {n m : Node} (h : Leads p os n m) :
    Relation.ReflTransGen (Enters p) n m := by
  induction h with
  | here n => exact .refl
  | edge hn ho he hn' _ ih => exact .head (.edge hn ho he hn') ih

theorem MayStop.mem_closed {root s : String} (h : MayStop p root s) (ids : List String)
    (hc : p.graph.closed ids = true) (hroot : root ∈ ids) :
    s ∈ ids ∧ ∃ m, p.graph.node? s = some m ∧ Stops p m := by
  obtain ⟨os, n, m, hn, hleads, -, hstops, rfl⟩ := h
  have hmem : n.id ∈ ids := by
    rw [p.graph.id_of_node? hn]
    exact hroot
  exact ⟨mem_of_reach hc hleads.reach (node?_id hn) hmem, m,
    stored_of_reach hleads.reach (node?_id hn), hstops⟩

/-! ## Walks stop where they can -/

theorem subgraphStep_stop {place : Place} {node : Node} {last : Option Outcome}
    {context : PipelineContext} {e : SubgraphEnd} {l : List Mark} {s : String}
    (h : subgraphStep w r p place node last context = some (.done (.ended e), l))
    (hs : e.stop = some s) : Stops p node ∧ node.id = s := by
  have hafter : ∀ ended, afterSubgraphNode p.graph node ended = .ended e →
      Stops p node ∧ node.id = s := by
    intro ended hended
    unfold afterSubgraphNode at hended
    split at hended
    · cases hended
      cases hs
    · cases hended
      cases hs
    · unfold leaveSubgraphNode at hended
      split at hended
      · split at hended
        · rename_i hempty
          cases hended
          exact ⟨.inr (List.isEmpty_iff.mp hempty), Option.some.inj hs⟩
        · cases hended
          cases hs
      · split at hended
        · cases hended
        · cases hended
          cases hs
  unfold subgraphStep at h
  split at h
  · cases h
  · split at h
    · cases h
      cases hs
    · split at h
      · rename_i hterminal
        cases h
        exact ⟨.inl hterminal, Option.some.inj hs⟩
      · split at h
        · cases h
          cases hs
        · split at h
          · exact hafter _ (Finish.done.inj (congrArg Prod.fst (Option.some.inj h)))
          · split at h
            · cases h
            · obtain ⟨ended, -, hended⟩ :=
                Finish.map_eq_done (congrArg Prod.fst (Option.some.inj h))
              exact hafter ended hended

theorem subgraphSteps_stop {place : Place} {left : Nat} {node : Node} {last : Option Outcome}
    {context : PipelineContext} {e : SubgraphEnd} {l : List Mark} {s : String}
    (h : subgraphSteps w r p place left node last context = some (.done e, l))
    (hs : e.stop = some s) :
    ∃ os m, Leads p os node m ∧ os.length < left ∧ Stops p m ∧ m.id = s := by
  induction left generalizing node last context l with
  | zero =>
    cases h
    cases hs
  | succ left ih =>
    rcases Logged.bind_eq_some h with ⟨hcut, -⟩ | ⟨step, l₁, l₂, hstep, hrest, -⟩
    · cases hcut
    · split at hrest
      · cases hrest
        obtain ⟨hstops, hid⟩ := subgraphStep_stop hstep hs
        exact ⟨[], node, .here node, Nat.succ_pos left, hstops, hid⟩
      · rename_i next context' o
        obtain ⟨hterminal, ho, c, e', he, hn⟩ := subgraphStep_goto hstep
        rcases Logged.bind_eq_some hrest with ⟨hcut, -⟩ | ⟨_, l₃, l₄, -, hwalk, -⟩
        · cases hcut
        · obtain ⟨os, m, hleads, hlen, hstops⟩ := ih hwalk
          exact ⟨(o, c) :: os, m, .edge hterminal ho he hn hleads, Nat.succ_lt_succ hlen, hstops⟩

theorem runSubgraph_stop {place : Place} {root : String} {context : PipelineContext}
    {e : SubgraphEnd} {l : List Mark} {s : String}
    (h : runSubgraph w r p place root context = some (.done e, l)) (hs : e.stop = some s) :
    MayStop p root s := by
  unfold runSubgraph at h
  split at h
  · cases h
    cases hs
  · rename_i n hn
    obtain ⟨os, m, hleads, hlen, hstops, hid⟩ := subgraphSteps_stop h hs
    exact ⟨os, n, m, hn, hleads, hlen, hstops, hid⟩

/-! ## Walks can be led -/

/-- Handlers that end, one step of a walk of `n` steps after the other, with
these outcomes. -/
def leading (n : Nat) (os : List (Outcome × PipelineContext)) : World :=
  { World.calm fun _ => .returned { status := .success } with
    leaf := fun place _ context => match os[n - 1 - place.headD 0]? with
      | some (o, c) => .done (.returned o, c)
      | none => .done (.returned { status := .success }, context) }

theorem executeHandler_leaf {place : Place} {handlerType : String} {node : Node}
    {context : PipelineContext}
    (hleaf : handlerType ∉ ["parallel", "stack.manager_loop", "pipeline"]) :
    executeHandler w r p place handlerType node context = some ⟨w.leaf place node context, []⟩ := by
  simp only [List.mem_cons, List.not_mem_nil, or_false, not_or] at hleaf
  unfold executeHandler
  rw [if_neg hleaf.1, if_neg hleaf.2.1, if_neg hleaf.2.2]

/-- A step at a node run by a leaf handler that returns. -/
theorem subgraphStep_leaf {place : Place} {node : Node} (r : Runners) (last : Option Outcome)
    {context c : PipelineContext} {o : Outcome} (hcut : w.cut place = false)
    (hcancel : w.cancelled place = false) (hn : node.isSubgraphTerminal = false)
    (hrun : LeafRun p node) (hleaf : w.leaf place node context = .done (.returned o, c)) :
    subgraphStep w r p place node last context =
      some (.done (leaveSubgraphNode p.graph node o (applyOutcome c o)),
        [.executed node.id []]) := by
  obtain ⟨hstart, handlerType, hget, htype⟩ := hrun
  unfold subgraphStep
  simp only [hcut, hcancel, hn, hget, hstart, executeHandler_leaf htype, hleaf]
  rfl

theorem selectEdge_eq_none {nodeId : String} {o : Outcome} {c : PipelineContext} {g : Graph}
    (h : g.outgoingEdges nodeId = []) : selectEdge nodeId o c g = none := by
  cases he : selectEdge nodeId o c g with
  | none => rfl
  | some e =>
    have hmem := selectEdge_mem he
    rw [h] at hmem
    exact absurd hmem List.not_mem_nil

omit [Runtime] in
theorem leading_leaf (n : Nat) (os : List (Outcome × PipelineContext)) (place : Place) (node : Node)
    (context : PipelineContext) : ∃ o c,
      (leading n os).leaf place node context = .done (.returned o, c) ∧
        ∀ x, os[n - 1 - place.headD 0]? = some x → x = (o, c) := by
  show ∃ o c, (match os[n - 1 - place.headD 0]? with
    | some (o, c) => Finish.done (HandlerEnd.returned o, c)
    | none => .done (.returned { status := .success }, context)) = .done (.returned o, c) ∧ _
  cases os[n - 1 - place.headD 0]? with
  | none => exact ⟨_, _, rfl, fun x hx => nomatch hx⟩
  | some x => exact ⟨x.1, x.2, rfl, fun y hy => Option.some.inj hy.symm⟩

/-- Led along a way through leaf nodes, a walk stops at its end. -/
theorem leading_stops (r : Runners) (place : Place) {n : Nat} {os : List (Outcome × PipelineContext)}
    {node m : Node} (hleads : Leads p os node m)
    (hleaf : ∀ os' k, Leads p os' node k → k.isSubgraphTerminal = false → LeafRun p k)
    (hstops : Stops p m) (before : List (Outcome × PipelineContext))
    (hlen : before.length + os.length < n) (last : Option Outcome) (context : PipelineContext) :
    ∃ e l, subgraphSteps (leading n (before ++ os)) r p place (n - before.length) node last context =
      some (.done e, l) ∧ e.stop = some m.id := by
  induction hleads generalizing before last context with
  | here node =>
    obtain ⟨left, hleft⟩ : ∃ left, n - before.length = left + 1 := ⟨n - before.length - 1, by omega⟩
    rw [hleft]
    cases hterminal : node.isSubgraphTerminal with
    | true =>
      have hstep : subgraphStep (leading n (before ++ [])) r p (left :: place) node last context =
          some (.done (.ended ⟨.ok (last.getD reachedTerminal), context, some node.id⟩), []) := by
        unfold subgraphStep
        simp only [hterminal]
        rfl
      exact ⟨_, _, subgraphSteps_ended hstep, rfl⟩
    | false =>
      have hnone : p.graph.outgoingEdges node.id = [] := by
        rcases hstops with hyes | hnone
        · rw [hterminal] at hyes
          cases hyes
        · exact hnone
      obtain ⟨o, c, hends, -⟩ := leading_leaf n (before ++ []) (left :: place) node context
      have hstep := subgraphStep_leaf r last rfl rfl hterminal
        (hleaf [] node (.here node) hterminal) hends
      have hleave : leaveSubgraphNode p.graph node o (applyOutcome c o) =
          .ended ⟨.ok o, applyOutcome c o, some node.id⟩ := by
        unfold leaveSubgraphNode
        rw [selectEdge_eq_none hnone, hnone]
        rfl
      rw [hleave] at hstep
      exact ⟨_, _, subgraphSteps_ended hstep, rfl⟩
  | @edge os node next m o c e hn ho he hn' hrest ih =>
    obtain ⟨left, hleft⟩ : ∃ left, n - before.length = left + 1 :=
      ⟨n - before.length - 1, by rw [List.length_cons] at hlen; omega⟩
    rw [hleft]
    obtain ⟨o', c', hends, hsame⟩ :=
      leading_leaf n (before ++ (o, c) :: os) (left :: place) node context
    have hindex : (before ++ (o, c) :: os)[n - 1 - left]? = some (o, c) := by
      have hpos : n - 1 - left = before.length := by omega
      rw [hpos, List.getElem?_append_right (Nat.le_refl _), Nat.sub_self]
      rfl
    cases hsame (o, c) hindex
    have hstep := subgraphStep_leaf r last rfl rfl hn
      (hleaf [] node (.here node) hn) hends
    have hleave : leaveSubgraphNode p.graph node o (applyOutcome c o) =
        .goto next (applyOutcome c o) o := by
      unfold leaveSubgraphNode
      simp only [he, hn']
    rw [hleave] at hstep
    have hlen' : (before ++ [(o, c)]).length + os.length < n := by
      simp only [List.length_append, List.length_cons, List.length_nil] at hlen ⊢
      omega
    obtain ⟨end_, l, hwalk, hstop⟩ := ih
      (fun os' k hk => hleaf ((o, c) :: os') k (.edge hn ho he hn' hk)) hstops (before ++ [(o, c)])
      hlen' (some o) (applyOutcome c o)
    have hleft' : n - (before ++ [(o, c)]).length = left := by
      rw [List.length_append, List.length_singleton]
      omega
    rw [hleft', List.append_assoc, List.singleton_append] at hwalk
    refine ⟨end_, [.executed node.id []] ++ ([.went next.id] ++ l), ?_, hstop⟩
    rw [subgraphSteps_goto hstep, hwalk]
    rfl

/-- A walk that may stop at a node does so in some world. -/
theorem mayStop_realised [JsonReader] {roots : List String} (hleaf : LeafBranches p roots)
    {root s : String} (hroot : root ∈ roots) (h : MayStop p root s) :
    ∃ w e l, (runners w 1).subgraph p [] root {} = some (.done e, l) ∧ e.stop = some s := by
  obtain ⟨os, n, m, hn, hleads, hlen, hstops, rfl⟩ := h
  let w := leading (maxSteps p.graph).toNat os
  obtain ⟨e, l, hwalk, hstop⟩ := leading_stops (runners w 0) [] hleads
    (fun os' k hk => hleaf root hroot os' n k hn hk) hstops []
    (by rw [List.length_nil, Nat.zero_add]; exact hlen) none {}
  refine ⟨w, e, l, ?_, hstop⟩
  show runSubgraph w (runners w 0) p [] root {} = some (.done e, l)
  unfold runSubgraph
  rw [hn]
  exact hwalk

variable [JsonReader]

/-- The fan-in is where the branches meet, whatever the order of the sets, when
there is no common descendant or the shallowest is one and no walk of a branch
can stop elsewhere; and only then, where no branch starts walks of its own. -/
theorem fan_in_meets_branches (p : PipelineEngine) (roots : List String) :
    (p.graph.commonDescendants roots = [] ∨ MeetsAtShallowest p roots → FanInMeets p roots) ∧
    (LeafBranches p roots → FanInMeets p roots →
      p.graph.commonDescendants roots = [] ∨ MeetsAtShallowest p roots) := by
  constructor
  · intro hcond ord f hf
    rcases hcond with hnone | ⟨hone, hmeet⟩
    · rw [Graph.findFanInNode_eq_none.mpr hnone] at hf
      cases hf
    · refine ⟨fun ord' => ?_, fun w d place root context e l s hroot hrun hs => ?_⟩
      · rw [Graph.findFanInNode_eq hone ord' ord]
        exact hf
      · have hmay : MayStop p root s := by
          cases d with
          | zero => cases hrun
          | succ d => exact runSubgraph_stop hrun hs
        have hshallow := hmeet root hroot s hmay
        have hfan := Graph.findFanInNode_shallowest hf
        exact hone s hshallow.1 f hfan.1 hshallow.2 hfan.2
  · intro hleaf hmeets
    cases hfound : p.graph.findFanInNode .insertion roots with
    | none => exact .inl (Graph.findFanInNode_eq_none.mp hfound)
    | some f =>
      refine .inr ⟨fun a ha b hb hamin hbmin => ?_, fun root hroot s hmay => ?_⟩
      · obtain ⟨ord, hord⟩ := Graph.exists_findFanInNode ⟨ha, hamin⟩
        obtain ⟨ord', hord'⟩ := Graph.exists_findFanInNode ⟨hb, hbmin⟩
        have hsame := (hmeets ord a hord).1 ord'
        exact Option.some.inj (hsame.symm.trans hord')
      · obtain ⟨w, e, l, hrun, hstop⟩ := mayStop_realised hleaf hroot hmay
        have hsame : s = f := (hmeets .insertion f hfound).2 w 1 [] root {} e l s hroot hrun hstop
        rw [hsame]
        exact Graph.findFanInNode_shallowest hfound

end Meeting

section Demo

open Py.Ascii

theorem fork_meetsAtShallowest : MeetsAtShallowest forkPipeline ["gate", "other"] := by
  have hcommon : forkPipeline.graph.commonDescendants ["gate", "other"] = ["join", "done"] := by
    decide +kernel
  have hjoin : forkPipeline.graph.Shallowest ["gate", "other"] "join" := by
    unfold Graph.Shallowest
    rw [hcommon]
    decide +kernel
  have hone : ∀ a, forkPipeline.graph.Shallowest ["gate", "other"] a → a = "join" := by
    intro a ha
    have hmem := ha.1
    rw [hcommon, List.mem_pair] at hmem
    rcases hmem with rfl | rfl
    · rfl
    · have hle := ha.2 "join" (by rw [hcommon]; decide)
      exact absurd hle (by decide +kernel)
  refine ⟨fun a ha b hb hamin hbmin => ?_, fun root hroot s hmay => ?_⟩
  · rw [hone a ⟨ha, hamin⟩, hone b ⟨hb, hbmin⟩]
  · have hids : root ∈ ["gate", "other", "join"] := List.mem_append_left ["join"] hroot
    obtain ⟨hmem, m, hm, hstops⟩ := hmay.mem_closed _ (by decide) hids
    have hpassed : ∀ n, forkPipeline.graph.node? s = some n → n.isSubgraphTerminal = false →
        forkPipeline.graph.outgoingEdges n.id ≠ [] → False := by
      intro n hn hterminal hout
      have hsame : n = m := Option.some.inj (hn.symm.trans hm)
      subst hsame
      rcases hstops with hyes | hnone
      · rw [hterminal] at hyes
        cases hyes
      · exact hout hnone
    simp only [List.mem_cons, List.not_mem_nil, or_false] at hmem
    rcases hmem with rfl | rfl | rfl
    · exact (hpassed _ rfl rfl (by simp [Graph.outgoingEdges, forkPipeline, Graph.ofNodes])).elim
    · exact (hpassed _ rfl rfl (by simp [Graph.outgoingEdges, forkPipeline, Graph.ofNodes])).elim
    · exact hjoin

theorem fan_in_meets_branches_fork : FanInMeets forkPipeline ["gate", "other"] :=
  (fan_in_meets_branches forkPipeline ["gate", "other"]).1 (.inr fork_meetsAtShallowest)

/-- Branches that come together at a work node before the fan-in. -/
def earlyMeetingPipeline : PipelineEngine where
  graph := Graph.ofNodes
    [{ id := "begin", shape := "Mdiamond" }, { id := "fork", shape := "component" },
      { id := "left" }, { id := "right" }, { id := "merge" },
      { id := "join", shape := "tripleoctagon" }, { id := "done", shape := "Msquare" }]
    [{ fromNode := "begin", toNode := "fork" }, { fromNode := "fork", toNode := "left" },
      { fromNode := "fork", toNode := "right" }, { fromNode := "left", toNode := "merge" },
      { fromNode := "right", toNode := "merge" }, { fromNode := "merge", toNode := "join" },
      { fromNode := "join", toNode := "done" }]
  logsRoot := "/logs"
  handlerRegistry := ⟨standardHandlers⟩

/-- Two branches that each lead to the same two fan-ins. -/
def crossingPipeline : PipelineEngine where
  graph := Graph.ofNodes
    [{ id := "begin", shape := "Mdiamond" }, { id := "fork", shape := "component" },
      { id := "left" }, { id := "right" }, { id := "high", shape := "tripleoctagon" },
      { id := "low", shape := "tripleoctagon" }, { id := "done", shape := "Msquare" }]
    [{ fromNode := "begin", toNode := "fork" }, { fromNode := "fork", toNode := "left" },
      { fromNode := "fork", toNode := "right" }, { fromNode := "left", toNode := "high" },
      { fromNode := "left", toNode := "low" }, { fromNode := "right", toNode := "high" },
      { fromNode := "right", toNode := "low" }, { fromNode := "high", toNode := "done" },
      { fromNode := "low", toNode := "done" }]
  logsRoot := "/logs"
  handlerRegistry := ⟨standardHandlers⟩

def stopOf (x : Option (Finish SubgraphEnd × List Mark)) : Option String :=
  match x with
  | some (.done e, _) => e.stop
  | _ => none

/-- The main loop goes on at a work node while both branches stop at the fan-in
behind it; and where two fan-ins are as shallow, the order of a set decides. -/
theorem branches_stop_behind_fan_in :
    (earlyMeetingPipeline.graph.findFanInNode .insertion ["left", "right"] = some "merge" ∧
      ∀ root ∈ earlyMeetingPipeline.graph.successors "fork",
        stopOf ((runners succeedsEverywhere 1).subgraph earlyMeetingPipeline [] root {}) =
          some "join") ∧
    crossingPipeline.graph.findFanInNode .insertion ["left", "right"] = some "high" ∧
      crossingPipeline.graph.findFanInNode .backwards ["left", "right"] = some "low" := by
  decide +kernel

end Demo

end DotRunner
