import DotRunner.Engine.Coherence
import DotRunner.Nested.Branches

/-!
# Branches that run once

When the branches of a parallel node execute no node twice between them, and the
walk goes on at a node none of them executed.
-/

namespace DotRunner

open Py Approx

/-- The node a walk goes on to next. -/
def nextNode : List Mark → Option String
  | [] => none
  | .went nodeId :: _ => some nodeId
  | .executed _ _ :: l => nextNode l

/-- `Q` holds of every visit in the log: the node, the walks it started and the
node the walk went on to. -/
def EveryVisit (Q : String → List (List String) → Option String → Prop) : List Mark → Prop
  | [] => True
  | .executed nodeId nested :: l => Q nodeId nested (nextNode l) ∧ EveryVisit Q l
  | .went _ :: l => EveryVisit Q l

/-- The walks of a visit have no node in common, and the walk goes on at a fan-in
none of them executed. -/
structure VisitedOnce (fanIn : String → Prop) (nested : List (List String))
    (next : Option String) : Prop where
  apart : nested.Pairwise List.Disjoint
  meets : ∀ n, next = some n → fanIn n ∧ n ∉ nested.flatten

/-- The visits of one node, then the rest of the log. -/
theorem everyVisit_append {Q : String → List (List String) → Option String → Prop}
    (nodeId : String) {l l' : List Mark}
    (h : ∀ x ∈ l, ∃ nested, x = .executed nodeId nested ∧ Q nodeId nested (nextNode l'))
    (hl' : EveryVisit Q l') : EveryVisit Q (l ++ l') := by
  have hnext : ∀ l : List Mark, (∀ x ∈ l, ∃ nested, x = .executed nodeId nested ∧
      Q nodeId nested (nextNode l')) → nextNode (l ++ l') = nextNode l' := by
    intro l h
    induction l with
    | nil => rfl
    | cons x rest ih =>
      obtain ⟨nested, rfl, -⟩ := h x List.mem_cons_self
      exact ih fun y hy => h y (List.mem_cons_of_mem _ hy)
  induction l with
  | nil => exact hl'
  | cons x rest ih =>
    have hrest := fun y hy => h y (List.mem_cons_of_mem x hy)
    obtain ⟨nested, rfl, hQ⟩ := h x List.mem_cons_self
    rw [List.cons_append]
    refine ⟨?_, ih hrest⟩
    rw [hnext rest hrest]
    exact hQ

section Visits

variable [Runtime]

/-- A node branch walks stop at. -/
def Graph.EndsBranches (g : Graph) (nodeId : String) : Prop :=
  ∃ n, g.node? nodeId = some n ∧ n.isSubgraphTerminal = true

/-- The fan-in of the main loop: what the discovery can give, where it is used. -/
def Graph.IsFanIn (g : Graph) (node : Node) (nodeId : String) : Prop :=
  match Walk.branchRoots g node with
  | some roots => ∃ ord, g.findFanInNode ord roots = some nodeId
  | none => g.EndsBranches nodeId

section Conditions

variable (p : PipelineEngine)

/-- No node may be executed by two branches. -/
def BranchesApart (nodeId : String) : Prop :=
  (p.graph.outgoingEdges nodeId).Pairwise fun e e' => ∀ id, MayExecute p e.toNode id →
    ¬MayExecute p e'.toNode id

/-- No branch may execute `next`. -/
def Spares (nodeId next : String) : Prop :=
  ∀ e ∈ p.graph.outgoingEdges nodeId, ¬MayExecute p e.toNode next

/-- Every edge selected for such an outcome ends where the walks of the branches
do. -/
def LeavesByFanIn (nodeId : String) (ends : Outcome → Prop) : Prop :=
  ∀ o c e, ends o → selectEdge nodeId o c p.graph = some e → p.graph.EndsBranches e.toNode

/-- The main loop goes on where no branch has been: the shallowest common
descendants are executed by none, or every way to leave the node ends where the
walks of the branches do. -/
def ContinuesApart (node : Node) : Prop :=
  match Walk.branchRoots p.graph node with
  | some roots => ∀ f, p.graph.Shallowest roots f → Spares p node.id f
  | none => LeavesByFanIn p node.id (fun _ => True) ∧ ∀ t, resolveFailureRetryTarget p.graph node = some t →
      (∃ o c, selectEdge node.id o c p.graph = none) → p.graph.EndsBranches t.id

/-- What a visit by the main loop comes to. -/
def LoopVisit (nodeId : String) (nested : List (List String)) (next : Option String) : Prop :=
  ∀ node, p.graph.node? nodeId = some node → p.handlerRegistry.get node = .ok "parallel" →
    BranchesApart p nodeId → ContinuesApart p node → VisitedOnce (p.graph.IsFanIn node) nested next

/-- What a visit by a walk inside another comes to. -/
def InnerVisit (nodeId : String) (nested : List (List String)) (next : Option String) : Prop :=
  ∀ node, p.graph.node? nodeId = some node → p.handlerRegistry.get node = .ok "parallel" →
    BranchesApart p nodeId → LeavesByFanIn p nodeId (MayEndWith p node) →
      VisitedOnce p.graph.EndsBranches nested next

end Conditions

variable {w : World} {r : Runners} {p : PipelineEngine}

theorem spares_of_endsBranches {nodeId next : String} (h : p.graph.EndsBranches next) :
    Spares p nodeId next := by
  intro e he hmay
  obtain ⟨n, hn, hterminal⟩ := h
  obtain ⟨m, hm, hnot⟩ := hmay.stored
  have hsame : n = m := Option.some.inj (hn.symm.trans hm)
  rw [hsame, hnot] at hterminal
  cases hterminal

/-! ## One visit -/

theorem executeParallel_apart (hr : r.Confined p) {place : Place} {node : Node}
    {context : PipelineContext} {run : HandlerRun} (hb : BranchesApart p node.id)
    (h : executeParallel w r p place node context = some run) :
    run.nested.Pairwise List.Disjoint := by
  obtain ⟨indices, hnodup, hnested⟩ := executeParallel_nested hr h
  refine pairwise_of_forall₂ (fun {i i' ids ids'} hi hi' hne => ?_) hnested hnodup
  obtain ⟨e, he, hexec⟩ := hi
  obtain ⟨e', he', hexec'⟩ := hi'
  obtain ⟨hlt, rfl⟩ := List.getElem?_eq_some_iff.mp he
  obtain ⟨hlt', rfl⟩ := List.getElem?_eq_some_iff.mp he'
  have hpairs := List.pairwise_iff_getElem.mp hb
  intro id hid hid'
  rcases Nat.lt_or_gt_of_ne hne with hbefore | hafter
  · exact hpairs i i' hlt hlt' hbefore id (hexec id hid) (hexec' id hid')
  · exact hpairs i' i hlt' hlt hafter id (hexec' id hid') (hexec id hid)

theorem executeParallel_spares (hr : r.Confined p) {place : Place} {node : Node}
    {context : PipelineContext} {run : HandlerRun} {next : String} (hs : Spares p node.id next)
    (h : executeParallel w r p place node context = some run) : next ∉ run.nested.flatten := by
  intro hmem
  obtain ⟨ids, hids, hin⟩ := List.mem_flatten.mp hmem
  obtain ⟨indices, -, hnested⟩ := executeParallel_nested hr h
  obtain ⟨i, -, e, he, hexec⟩ := mem_of_forall₂ hnested hids
  exact hs e (List.mem_of_getElem? he) (hexec next hin)

/-- A visit of a parallel node whose branches are apart, where the walk goes on
to a fan-in they spare. -/
theorem ExecutedAt.visitedOnce (hr : r.Confined p) {node : Node} {x : Mark}
    (hx : ExecutedAt w r p node x) : ∃ nested, x = .executed node.id nested ∧
      (p.handlerRegistry.get node = .ok "parallel" → BranchesApart p node.id →
        ∀ (fanIn : String → Prop) next,
          (∀ n, next = some n → fanIn n ∧ Spares p node.id n) → VisitedOnce fanIn nested next) := by
  obtain ⟨place, handlerType, context, run, hget, hrun, rfl⟩ := hx
  refine ⟨run.nested, rfl, fun hparallel hapart fanIn next hnext => ?_⟩
  have htype : handlerType = "parallel" := Except.ok.inj (hget.symm.trans hparallel)
  unfold executeHandler at hrun
  rw [if_pos htype] at hrun
  exact ⟨executeParallel_apart hr hapart hrun, fun n hn =>
    ⟨(hnext n hn).1, executeParallel_spares hr (hnext n hn).2 hrun⟩⟩

/-! ## Whole walks -/

/-- The main loop leaves a parallel node for a fan-in its branches spare. -/
theorem route_continuesApart {w₁ w₂ : Walk} {node : Node} {ord : SetOrder} {o : Outcome} {m : Move}
    (hnode : w₁.currentNode = node) (hc : ContinuesApart p node)
    (h : w₁.route p.graph ord o = .goto m w₂) :
    p.graph.IsFanIn node w₂.currentNode.id ∧ Spares p node.id w₂.currentNode.id := by
  subst hnode
  unfold Walk.route at h
  unfold ContinuesApart at hc
  unfold Graph.IsFanIn
  cases hroots : Walk.branchRoots p.graph w₁.currentNode with
  | some roots =>
    rw [hroots] at h hc
    dsimp only at h hc ⊢
    split at h
    · cases h
    · rename_i fanIn hfound
      split at h
      · obtain ⟨n, hn, rfl, rfl⟩ := jump_goto h
        show (∃ ord, p.graph.findFanInNode ord roots = some n.id) ∧ Spares p _ n.id
        rw [p.graph.id_of_node? hn]
        exact ⟨⟨ord, hfound⟩, hc fanIn (Graph.findFanInNode_shallowest hfound)⟩
      · cases h
  | none =>
    rw [hroots] at h hc
    dsimp only at h hc ⊢
    obtain ⟨hedges, hretry⟩ := hc
    have hends : p.graph.EndsBranches w₂.currentNode.id := by
      unfold Walk.selectAndGo at h
      split at h
      · rename_i e he
        unfold Walk.follow at h
        obtain ⟨n, hn, rfl, rfl⟩ := jump_goto h
        have hend := hedges _ _ e trivial he
        rw [← p.graph.id_of_node? hn] at hend
        exact hend
      · rename_i hnone
        obtain ⟨t, ht, rfl, hmoved⟩ := failureRoute_moved h
        cases hmoved
        exact hretry t ht ⟨_, _, hnone⟩
    exact ⟨hends, spares_of_endsBranches hends⟩

theorem subgraphSteps_visits (hr : r.Confined p) {place : Place} {left : Nat} {node : Node}
    {last : Option Outcome} {context : PipelineContext} {e : Finish SubgraphEnd} {l : List Mark}
    (hnode : p.graph.node? node.id = some node)
    (h : subgraphSteps w r p place left node last context = some (e, l)) :
    EveryVisit (InnerVisit p) l := by
  induction left generalizing node last context e l with
  | zero =>
    cases h
    trivial
  | succ left ih =>
    have hhere : ∀ {s l₁ l₂}, subgraphStep w r p (left :: place) node last context = some (s, l₁) →
        (∀ n, nextNode l₂ = some n → LeavesByFanIn p node.id (MayEndWith p node) →
          p.graph.EndsBranches n) →
        EveryVisit (InnerVisit p) l₂ → EveryVisit (InnerVisit p) (l₁ ++ l₂) := by
      intro s l₁ l₂ hs hnext hrest
      refine everyVisit_append node.id (fun x hx => ?_) hrest
      obtain ⟨nested, rfl, honce⟩ := (subgraphStep_logs s l₁ hs x hx).1.visitedOnce hr
      refine ⟨nested, rfl, fun node' hnode' hparallel hapart hleaves => ?_⟩
      have hsame : node' = node := Option.some.inj (hnode'.symm.trans hnode)
      subst hsame
      refine honce hparallel hapart _ _ fun n hn => ?_
      exact ⟨hnext n hn hleaves, spares_of_endsBranches (hnext n hn hleaves)⟩
    rcases Logged.bind_eq_some h with ⟨-, hcut⟩ | ⟨s, l₁, l₂, hs, hrest, rfl⟩
    · rw [← List.append_nil l]
      exact hhere hcut (fun n hn => nomatch hn) trivial
    · split at hrest
      · cases hrest
        exact hhere hs (fun n hn => nomatch hn) trivial
      · rename_i next context' o
        obtain ⟨-, ho, c, e', he, hn⟩ := subgraphStep_goto hs
        rcases Logged.bind_eq_some hrest with ⟨-, hcut⟩ | ⟨_, l₃, l₄, htell, hwalk, rfl⟩
        · cases hcut
        · cases htell
          have hlater := ih (node?_id hn) hwalk
          refine hhere hs (fun n hnext hleaves => ?_) hlater
          cases hnext
          have hends := hleaves _ _ e' ho he
          rw [← p.graph.id_of_node? hn] at hends
          exact hends

variable [JsonReader]

theorem runLoop_visits (hr : r.Confined p) {place : Place} {left : Nat} {walk : Walk}
    {h : List Event} {docs : List Value} {e : Finish RunEnd} {l : List Mark}
    (run : Runs p h docs (some walk)) (hl : runLoop w r p place left walk = some (e, l)) :
    EveryVisit (LoopVisit p) l := by
  induction left generalizing walk h docs e l with
  | zero => cases hl
  | succ left ih =>
    have hnode := run.coherent.current
    have hhere : ∀ {it l₁ l₂}, nestedIterate w r p (left :: place) walk = some (it, l₁) →
        (∀ n, nextNode l₂ = some n → l₁ ≠ [] → ContinuesApart p walk.currentNode →
          p.graph.IsFanIn walk.currentNode n ∧ Spares p walk.currentNode.id n) →
        EveryVisit (LoopVisit p) l₂ → EveryVisit (LoopVisit p) (l₁ ++ l₂) := by
      intro it l₁ l₂ hit hnext hrest
      refine everyVisit_append walk.currentNode.id (fun x hx => ?_) hrest
      obtain ⟨nested, rfl, honce⟩ := (nestedIterate_logs it l₁ hit x hx).visitedOnce hr
      refine ⟨nested, rfl, fun node hnode' hparallel hapart hcontinues => ?_⟩
      have hsame : node = walk.currentNode := Option.some.inj (hnode'.symm.trans hnode)
      subst hsame
      exact honce hparallel hapart _ _ fun n hn => hnext n hn (List.ne_nil_of_mem hx) hcontinues
    rcases Logged.bind_eq_some hl with ⟨-, hcut⟩ | ⟨it, l₁, l₂, hit, hrest, rfl⟩
    · rw [← List.append_nil l]
      exact hhere hcut (fun n hn => nomatch hn) trivial
    · split at hrest
      · rename_i m next hgoto
        rcases Logged.bind_eq_some hrest with ⟨-, hcut⟩ | ⟨_, l₃, l₄, htell, hloop, rfl⟩
        · cases hcut
        · cases htell
          obtain ⟨tick, htick⟩ := nestedIterate_returns ⟨l₁, hit⟩
          have hstep : (engineSystem p).step walk (.iterated walk tick)
              ((iterate p tick walk).saved.map Written.doc) (some next) :=
            ⟨tick, rfl, rfl, by rw [htick, hgoto]; rfl⟩
          have hlater := ih (Recovery.Run.step run hstep) hloop
          refine hhere hit (fun n hn hne hcontinues => ?_) hlater
          cases hn
          obtain ⟨-, w₁, o, hcurrent, hroute⟩ := nestedIterate_routes hit hne hgoto
          exact route_continuesApart hcurrent hcontinues hroute
      · cases hrest
        exact hhere hit (fun n hn => nomatch hn) trivial
      · cases hrest
        exact hhere hit (fun n hn => nomatch hn) trivial

/-- Branches run once.  From wherever a run has come, killed and resumed however
often, and in every walk inside another, at any depth: where no node may be
executed by two branches of a parallel node, and the walk leaves it for fan-ins
the branches spare, its branches execute no node twice between them and the walk
goes on to a fan-in none of them executed. -/
theorem components_run_once (w : World) (d : Nat) (p : PipelineEngine) (place : Place) :
    (∀ h docs walk left e l, Runs p h docs (some walk) →
      runLoop w (runners w d) p place left walk = some (e, l) → EveryVisit (LoopVisit p) l) ∧
    ∀ root context e l, (runners w d).subgraph p place root context = some (e, l) →
      EveryVisit (InnerVisit p) l := by
  constructor
  · intro h docs walk left e l run hl
    exact runLoop_visits (runners_confined w p d) run hl
  · intro root context e l hl
    cases d with
    | zero => cases hl
    | succ d =>
      have hwalk : runSubgraph w (runners w d) p place root context = some (e, l) := hl
      unfold runSubgraph at hwalk
      split at hwalk
      · cases hwalk
        trivial
      · rename_i n hn
        exact subgraphSteps_visits (runners_confined w p d) (node?_id hn) hwalk

end Visits

section Demo

open Py.Ascii

def forkNode : Node := { id := "fork", shape := "component" }

theorem fork_apart : BranchesApart forkPipeline "fork" := by
  refine List.pairwise_pair.mpr fun id hgate hother => ?_
  have hleft := hgate.mem_closed ["gate", "join"] (by decide) (by decide)
  have hright := hother.mem_closed ["other", "join"] (by decide) (by decide)
  have hjoin : id = "join" := by
    simp only [List.mem_cons, List.not_mem_nil, or_false] at hleft hright
    rcases hleft with rfl | rfl
    · simp at hright
    · rfl
  subst hjoin
  have hspared : Spares forkPipeline "fork" "join" := spares_of_endsBranches ⟨_, rfl, rfl⟩
  exact hspared _ List.mem_cons_self hgate

theorem fork_continuesApart : ContinuesApart forkPipeline forkNode := by
  intro f hf
  have hcommon : forkPipeline.graph.commonDescendants ["gate", "other"] = ["join", "done"] := by
    decide +kernel
  have hmem : f ∈ forkPipeline.graph.commonDescendants ["gate", "other"] := hf.1
  rw [hcommon, List.mem_pair] at hmem
  rcases hmem with rfl | rfl
  · exact spares_of_endsBranches ⟨_, rfl, rfl⟩
  · exact spares_of_endsBranches ⟨_, rfl, rfl⟩

/-- The condition is met by a parallel node whose two branches meet in a fan-in. -/
theorem components_run_once_fork : ∃ e,
    runLoop succeedsEverywhere (runners succeedsEverywhere 1) forkPipeline [] 10 forkStart =
      some (e, forkLog) ∧
    VisitedOnce (forkPipeline.graph.IsFanIn forkNode) [["gate"], ["other"]] (some "join") := by
  have hlog : (runLoop succeedsEverywhere (runners succeedsEverywhere 1) forkPipeline [] 10
      forkStart).map Prod.snd = some forkLog := by decide +kernel
  obtain ⟨⟨e, l⟩, hrun, rfl⟩ := Option.map_eq_some_iff.mp hlog
  have hvisits := (components_run_once succeedsEverywhere 1 forkPipeline []).1 [] [] forkStart 10 e _
    forkStart_runs hrun
  obtain ⟨-, hfork, -⟩ := hvisits
  exact ⟨e, hrun, hfork forkNode rfl rfl fork_apart fork_continuesApart⟩

/-- A parallel node with one branch. -/
def loneBranchPipeline : PipelineEngine where
  graph := Graph.ofNodes
    [{ id := "begin", shape := "Mdiamond" }, { id := "fork", shape := "component" },
      { id := "work" }, { id := "done", shape := "Msquare" }]
    [{ fromNode := "begin", toNode := "fork" }, { fromNode := "fork", toNode := "work" },
      { fromNode := "work", toNode := "done" }]
  logsRoot := "/logs"
  handlerRegistry := ⟨standardHandlers⟩

/-- The one branch executes its node, and the walk goes on to execute it again. -/
theorem lone_branch_runs_twice :
    logOf (runEngine succeedsEverywhere (runners succeedsEverywhere 1) loneBranchPipeline [] none
        {}) = some [.executed "begin" [], .went "fork", .executed "fork" [["work"]], .went "work",
          .executed "work" [], .went "done"] ∧
      ∀ fanIn, ¬VisitedOnce fanIn [["work"]] (some "work") := by
  refine ⟨by decide +kernel, fun fanIn h => ?_⟩
  exact (h.meets "work" rfl).2 (by decide)

end Demo

end DotRunner
