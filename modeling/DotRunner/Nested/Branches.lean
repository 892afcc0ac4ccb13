import DotRunner.Nested.Refinement
import Mathlib.Logic.Relation

/-!
# What a branch executes

The nodes a walk inside a parallel node may execute, from the edges that can be
selected and the walks its handlers may start.
-/

namespace DotRunner

open Py Approx

variable [Runtime]

section Reach

variable (p : PipelineEngine)

/-- The outcomes a walk inside another may leave the node with: those the branches
are joined to, where the node is a parallel one. -/
def MayEndWith (n : Node) (o : Outcome) : Prop :=
  n.isStartNode = false → p.handlerRegistry.get n = .ok "parallel" →
    ∃ results, o = applyJoinPolicy results (joinPolicy n)

/-- A walk inside a walk may go from the first node to the second, or the
handler of the first start one at the second. -/
inductive Enters : Node → Node → Prop
  | edge {n m : Node} {o : Outcome} {c : PipelineContext} {e : Edge}
      (hn : n.isSubgraphTerminal = false) (ho : MayEndWith p n o)
      (he : selectEdge n.id o (applyOutcome c o) p.graph = some e)
      (hm : p.graph.node? e.toNode = some m) : Enters n m
  | branch {n m : Node} {e : Edge} (hn : n.isSubgraphTerminal = false)
      (ht : p.handlerRegistry.get n = .ok "parallel") (he : e ∈ p.graph.outgoingEdges n.id)
      (hm : p.graph.node? e.toNode = some m) : Enters n m
  | child {n m : Node} {e : Edge} {rest : List Edge} (hn : n.isSubgraphTerminal = false)
      (ht : p.handlerRegistry.get n = .ok "stack.manager_loop")
      (hd : (managerConfig p.graph n 0).childDotfile.truthy = false)
      (he : p.graph.outgoingEdges n.id = e :: rest) (hm : p.graph.node? e.toNode = some m) :
      Enters n m

def MayExecuteFrom (n : Node) (id : String) : Prop :=
  ∃ m, Relation.ReflTransGen (Enters p) n m ∧ m.isSubgraphTerminal = false ∧
    m.isStartNode = false ∧ m.id = id

/-- A walk that starts at `root` may execute the node `id`. -/
def MayExecute (root id : String) : Prop := ∃ n, p.graph.node? root = some n ∧ MayExecuteFrom p n id

/-- The handler of the first node may start a walk at the second. -/
inductive MayStart : Node → Node → Prop
  | branch {n m : Node} {e : Edge} (ht : p.handlerRegistry.get n = .ok "parallel")
      (he : e ∈ p.graph.outgoingEdges n.id) (hm : p.graph.node? e.toNode = some m) : MayStart n m
  | child {n m : Node} {e : Edge} {rest : List Edge}
      (ht : p.handlerRegistry.get n = .ok "stack.manager_loop")
      (hd : (managerConfig p.graph n 0).childDotfile.truthy = false)
      (he : p.graph.outgoingEdges n.id = e :: rest) (hm : p.graph.node? e.toNode = some m) :
      MayStart n m

end Reach

variable {w : World} {r : Runners} {p : PipelineEngine}

theorem MayExecuteFrom.step {n m : Node} {id : String} (h : Enters p n m)
    (hm : MayExecuteFrom p m id) : MayExecuteFrom p n id := by
  obtain ⟨k, hreach, hk⟩ := hm
  exact ⟨k, .head h hreach, hk⟩

theorem MayStart.enters {n m : Node} (h : MayStart p n m) (hn : n.isSubgraphTerminal = false) :
    Enters p n m := by
  cases h with
  | branch ht he hm => exact .branch hn ht he hm
  | child ht hd he hm => exact .child hn ht hd he hm

theorem Enters.stored {n m : Node} (h : Enters p n m) : p.graph.node? m.id = some m := by
  cases h with
  | edge hn ho he hm => exact node?_id hm
  | branch hn ht he hm => exact node?_id hm
  | child hn ht hd he hm => exact node?_id hm

/-- Walks and handlers come to nodes an edge leads to. -/
theorem Enters.outgoing {n m : Node} (h : Enters p n m) : n.isSubgraphTerminal = false ∧
    ∃ e ∈ p.graph.outgoingEdges n.id, p.graph.node? e.toNode = some m := by
  cases h with
  | edge hn ho he hm => exact ⟨hn, _, selectEdge_mem he, hm⟩
  | branch hn ht he hm => exact ⟨hn, _, he, hm⟩
  | child hn ht hd he hm => exact ⟨hn, _, he ▸ List.mem_cons_self, hm⟩

theorem stored_of_reach {n m : Node} (hreach : Relation.ReflTransGen (Enters p) n m)
    (hn : p.graph.node? n.id = some n) : p.graph.node? m.id = some m := by
  rcases hreach.cases_tail with rfl | ⟨k, -, hk⟩
  · exact hn
  · exact hk.stored

/-- A node that may be executed is one of the graph, and no walk stops there. -/
theorem MayExecute.stored {root nodeId : String} (h : MayExecute p root nodeId) :
    ∃ m, p.graph.node? nodeId = some m ∧ m.isSubgraphTerminal = false := by
  obtain ⟨n, hn, m, hreach, hterminal, -, rfl⟩ := h
  exact ⟨m, stored_of_reach hreach (node?_id hn), hterminal⟩

/-- No edge leads out of these nodes, but from where walks stop. -/
def Graph.closed (g : Graph) (ids : List String) : Bool :=
  ids.all fun id => match g.node? id with
    | some n => n.isSubgraphTerminal || (g.successors id).all ids.contains
    | none => true

theorem Enters.mem_closed {ids : List String} (hc : p.graph.closed ids = true) {n m : Node}
    (h : Enters p n m) (hn : p.graph.node? n.id = some n) (hmem : n.id ∈ ids) : m.id ∈ ids := by
  obtain ⟨hterminal, e, he, hm⟩ := h.outgoing
  have hid := List.all_eq_true.mp hc n.id hmem
  rw [hn] at hid
  dsimp only at hid
  rw [hterminal, Bool.false_or, List.all_eq_true] at hid
  rw [p.graph.id_of_node? hm]
  exact List.contains_iff_mem.mp (hid e.toNode (List.mem_map_of_mem he))

/-- A walk stays in the closed set it starts in. -/
theorem mem_of_reach {ids : List String} (hc : p.graph.closed ids = true) {n m : Node}
    (hreach : Relation.ReflTransGen (Enters p) n m) (hn : p.graph.node? n.id = some n)
    (hmem : n.id ∈ ids) : m.id ∈ ids := by
  induction hreach with
  | refl => exact hmem
  | tail hfirst hstep ih => exact hstep.mem_closed hc (stored_of_reach hfirst hn) ih

theorem MayExecute.mem_closed {root nodeId : String} (h : MayExecute p root nodeId)
    (ids : List String) (hc : p.graph.closed ids = true) (hroot : root ∈ ids) : nodeId ∈ ids := by
  obtain ⟨n, hn, m, hreach, -, -, rfl⟩ := h
  refine mem_of_reach hc hreach (node?_id hn) ?_
  rw [p.graph.id_of_node? hn]
  exact hroot

/-- The walks of the level below stay where their roots lead. -/
def Runners.Confined (r : Runners) (p : PipelineEngine) : Prop :=
  ∀ place root context e l, r.subgraph p place root context = some (e, l) →
    ∀ id ∈ executedIds l, MayExecute p root id

/-! ## The walks a handler starts -/

omit [Runtime] in
theorem begun_nodup {n : Nat} (s : Schedule n) (errorPolicy joinPolicy : String) :
    (s.begun errorPolicy joinPolicy).flatten.Nodup := by
  have hgroups : s.groups.flatten.Nodup := s.perm.nodup_iff.mpr List.nodup_range
  unfold Schedule.begun
  split
  · rw [← List.filter_flatten]
    exact hgroups.filter _
  · split
    · exact hgroups
    · rw [List.flatten_singleton]
      exact List.nodup_range

omit [Runtime] in
theorem lt_of_mem_begun {n : Nat} {s : Schedule n} {errorPolicy joinPolicy : String} {i : Nat}
    (h : i ∈ (s.begun errorPolicy joinPolicy).flatten) : i < n := by
  have hgroups : ∀ j ∈ s.groups.flatten, j < n := fun j hj =>
    List.mem_range.mp (s.perm.mem_iff.mp hj)
  unfold Schedule.begun at h
  split at h
  · rw [← List.filter_flatten] at h
    exact hgroups i (List.mem_of_mem_filter h)
  · split at h
    · exact hgroups i h
    · rw [List.flatten_singleton] at h
      exact List.mem_range.mp h

/-- Each walk of a parallel node is one of a branch, and no branch has two. -/
theorem executeParallel_nested (hr : r.Confined p) {place : Place} {node : Node}
    {context : PipelineContext} {run : HandlerRun}
    (h : executeParallel w r p place node context = some run) :
    ∃ indices : List Nat, indices.Nodup ∧ List.Forall₂ (fun i ids => ∃ e,
      (p.graph.outgoingEdges node.id)[i]? = some e ∧ ∀ id ∈ ids, MayExecute p e.toNode id)
      indices run.nested := by
  unfold executeParallel at h
  dsimp only at h
  split at h
  · cases h
    exact ⟨[], .nil, .nil⟩
  · split at h
    · cases h
      exact ⟨[], .nil, .nil⟩
    · split at h
      · cases h
        exact ⟨[], .nil, .nil⟩
      · split at h
        · split at h
          · cases h
            exact ⟨[], .nil, .nil⟩
          · cases h
        · obtain ⟨runs, hruns, rfl⟩ := Option.map_eq_some_iff.mp h
          have hgroups := (forall₂_of_mapM hruns).imp fun _ _ => forall₂_of_mapM
          refine ⟨_, ?_, List.forall₂_map_right_iff.mpr
            ((List.rel_flatten hgroups).imp fun i b hb => ?_)⟩
          · exact begun_nodup _ _ _
          · obtain ⟨e, he, hbranch⟩ := Option.bind_eq_some_iff.mp hb
            obtain ⟨⟨ended, l⟩, hl, rfl⟩ := Option.map_eq_some_iff.mp hbranch
            exact ⟨e, he, hr _ _ _ _ _ hl⟩

theorem superviseChild_executed (hr : r.Confined p) {place : Place} {node : Node}
    {cfg : ManagerConfig} {context : PipelineContext} {child : ChildRun}
    (h : superviseChild w r p place node cfg context = some child) {id : String}
    (hid : id ∈ child.executed) :
    cfg.childDotfile.truthy = false ∧ MayExecute p cfg.childStart id := by
  unfold superviseChild at h
  split at h
  · split at h
    · cases h
      exact absurd hid List.not_mem_nil
    · cases h
      exact absurd hid List.not_mem_nil
    · cases h
      exact absurd hid List.not_mem_nil
    · obtain ⟨e, -, rfl⟩ := Option.map_eq_some_iff.mp h
      exact absurd hid List.not_mem_nil
  · rename_i hdot
    obtain ⟨⟨ended, l⟩, hl, rfl⟩ := Option.map_eq_some_iff.mp h
    exact ⟨eq_false_of_ne_true hdot, hr _ _ _ _ _ hl id hid⟩

theorem superviseCycles_nested (hr : r.Confined p) {place : Place} {node : Node}
    {cfg : ManagerConfig} {left cycle : Nat} {last : Option Outcome} {context : PipelineContext}
    {run : HandlerRun} (h : superviseCycles w r p place node cfg left cycle last context = some run)
    {id : String} (hid : id ∈ run.nested.flatten) :
    cfg.childDotfile.truthy = false ∧ MayExecute p cfg.childStart id := by
  induction left generalizing cycle last context run with
  | zero =>
    cases h
    exact absurd hid List.not_mem_nil
  | succ left ih =>
    obtain ⟨child, hchild, h⟩ := Option.bind_eq_some_iff.mp h
    have hexecuted : id ∈ child.executed → _ := superviseChild_executed hr hchild
    split at h
    · cases h
      rw [List.flatten_singleton] at hid
      exact hexecuted hid
    · dsimp only at h
      split at h
      · cases h
        rw [List.flatten_singleton] at hid
        exact hexecuted hid
      · obtain ⟨rest, hrest, rfl⟩ := Option.map_eq_some_iff.mp h
        rcases List.mem_append.mp (List.flatten_cons ▸ hid) with hnow | hlater
        · exact hexecuted hnow
        · exact ih hrest hlater

theorem executeManager_nested (hr : r.Confined p) {place : Place} {node : Node}
    {context : PipelineContext} {run : HandlerRun}
    (hget : p.handlerRegistry.get node = .ok "stack.manager_loop")
    (h : executeManager w r p place node context = some run) {id : String}
    (hid : id ∈ run.nested.flatten) : ∃ m, MayStart p node m ∧ MayExecuteFrom p m id := by
  unfold executeManager at h
  split at h
  · cases h
    exact absurd hid List.not_mem_nil
  · rename_i maxCycles hmax
    dsimp only at h
    split at h
    · cases h
      exact absurd hid List.not_mem_nil
    · rename_i hguard
      obtain ⟨hdot, m, hm, hfrom⟩ := superviseCycles_nested hr h hid
      cases hout : p.graph.outgoingEdges node.id with
      | nil =>
        rw [hdot, hout] at hguard
        exact absurd rfl hguard
      | cons e rest =>
        have hstart : (managerConfig p.graph node maxCycles).childStart = e.toNode := by
          unfold managerConfig
          dsimp only
          rw [hout]
        rw [hstart] at hm
        exact ⟨m, .child hget hdot hout hm, hfrom⟩

theorem executePipeline_nested {place : Place} {node : Node} {context : PipelineContext}
    {run : HandlerRun} (h : executePipeline w r p place node context = some run) :
    run.nested = [] := by
  unfold executePipeline at h
  split at h
  · cases h
    rfl
  · split at h
    · cases h
      rfl
    · cases h
      rfl
    · cases h
      rfl
    · obtain ⟨e, -, rfl⟩ := Option.map_eq_some_iff.mp h
      rfl

/-- Every node a handler's walks execute lies behind a node one of them starts at. -/
theorem executeHandler_started (hr : r.Confined p) {place : Place} {handlerType : String}
    {node : Node} {context : PipelineContext} {run : HandlerRun}
    (hget : p.handlerRegistry.get node = .ok handlerType)
    (h : executeHandler w r p place handlerType node context = some run) {id : String}
    (hid : id ∈ run.nested.flatten) : ∃ m, MayStart p node m ∧ MayExecuteFrom p m id := by
  unfold executeHandler at h
  split at h
  · rename_i htype
    obtain ⟨indices, -, hnested⟩ := executeParallel_nested hr h
    obtain ⟨ids, hids, hmem⟩ := List.mem_flatten.mp hid
    obtain ⟨i, -, e, he, hexec⟩ := mem_of_forall₂ hnested hids
    obtain ⟨m, hm, hfrom⟩ := hexec id hmem
    exact ⟨m, .branch (htype ▸ hget) (List.mem_of_getElem? he) hm, hfrom⟩
  · split at h
    · rename_i htype
      exact executeManager_nested hr (htype ▸ hget) h hid
    · split at h
      · rw [executePipeline_nested h] at hid
        exact absurd hid List.not_mem_nil
      · cases h
        exact absurd hid List.not_mem_nil

/-- Every node a handler's walks execute lies behind the node of the handler. -/
theorem executeHandler_nested (hr : r.Confined p) {place : Place} {handlerType : String}
    {node : Node} {context : PipelineContext} {run : HandlerRun}
    (hn : node.isSubgraphTerminal = false) (hget : p.handlerRegistry.get node = .ok handlerType)
    (h : executeHandler w r p place handlerType node context = some run) {id : String}
    (hid : id ∈ run.nested.flatten) : MayExecuteFrom p node id := by
  obtain ⟨m, hstart, hfrom⟩ := executeHandler_started hr hget h hid
  exact hfrom.step (hstart.enters hn)

/-! ## The walks themselves -/

/-- What a step of a subgraph walk logs was executed at its node, which is none
the walk stops at or passes by. -/
theorem subgraphStep_logs {place : Place} {node : Node} {last : Option Outcome}
    {context : PipelineContext} :
    (subgraphStep w r p place node last context).Logs fun x => ExecutedAt w r p node x ∧
      node.isSubgraphTerminal = false ∧ node.isStartNode = false := by
  intro e l h x hx
  have hpure : ∀ s : SubgraphStep, (pure s : Nest SubgraphStep) ≠ some (e, l) := by
    intro s heq
    cases heq
    exact absurd hx List.not_mem_nil
  unfold subgraphStep at h
  split at h
  · cases h
    exact absurd hx List.not_mem_nil
  · split at h
    · exact absurd h (hpure _)
    · split at h
      · exact absurd h (hpure _)
      · rename_i hterminal
        split at h
        · exact absurd h (hpure _)
        · rename_i handlerType hget
          split at h
          · exact absurd h (hpure _)
          · rename_i hstart
            split at h
            · cases h
            · rename_i run hrun
              cases h
              obtain rfl := List.mem_singleton.mp hx
              exact ⟨⟨place, handlerType, context, run, hget, hrun, rfl⟩,
                eq_false_of_ne_true hterminal, eq_false_of_ne_true hstart⟩

theorem leaveSubgraphNode_goto {g : Graph} {node next : Node} {o o' : Outcome}
    {context context' : PipelineContext}
    (h : leaveSubgraphNode g node o context = .goto next context' o') :
    o' = o ∧ ∃ e, selectEdge node.id o context g = some e ∧ g.node? e.toNode = some next := by
  unfold leaveSubgraphNode at h
  split at h
  · split at h <;> cases h
  · rename_i e he
    split at h
    · rename_i n hn
      cases h
      exact ⟨rfl, e, he, hn⟩
    · cases h

/-- A parallel node that is left has joined its branches. -/
theorem executeParallel_returned {place : Place} {node : Node} {context c : PipelineContext}
    {run : HandlerRun} {o : Outcome} (h : executeParallel w r p place node context = some run)
    (ho : run.ended = .done (.returned o, c)) (hout : p.graph.outgoingEdges node.id ≠ []) :
    ∃ results, o = applyJoinPolicy results (joinPolicy node) := by
  obtain ⟨runs, kept, -, -, hjoin, -⟩ := executeParallel_joined h ho hout
  exact ⟨_, hjoin⟩

/-- A walk goes on by an edge selected for the outcome of its node. -/
theorem subgraphStep_goto {place : Place} {node next : Node} {last : Option Outcome}
    {context context' : PipelineContext} {o : Outcome} {l : List Mark}
    (h : subgraphStep w r p place node last context = some (.done (.goto next context' o), l)) :
    node.isSubgraphTerminal = false ∧ MayEndWith p node o ∧ ∃ c e,
      selectEdge node.id o (applyOutcome c o) p.graph = some e ∧
        p.graph.node? e.toNode = some next := by
  have hafter : ∀ ended, afterSubgraphNode p.graph node ended = .goto next context' o →
      ended.1 = .returned o ∧ ∃ e, selectEdge node.id o (applyOutcome ended.2 o) p.graph = some e ∧
        p.graph.node? e.toNode = some next := by
    intro ended hgoto
    unfold afterSubgraphNode at hgoto
    split at hgoto
    · cases hgoto
    · cases hgoto
    · rename_i hended
      obtain ⟨rfl, e, he, hn⟩ := leaveSubgraphNode_goto hgoto
      exact ⟨hended, e, he, hn⟩
  unfold subgraphStep at h
  split at h
  · cases h
  · split at h
    · cases h
    · split at h
      · cases h
      · rename_i hterminal
        refine ⟨eq_false_of_ne_true hterminal, ?_⟩
        split at h
        · cases h
        · rename_i handlerType hget
          split at h
          · rename_i hstart
            obtain ⟨-, hgoto⟩ := hafter _ (Finish.done.inj (congrArg Prod.fst (Option.some.inj h)))
            refine ⟨fun hnot => ?_, _, hgoto⟩
            rw [hstart] at hnot
            cases hnot
          · split at h
            · cases h
            · rename_i run hrun
              obtain ⟨ended, hended, hgoto⟩ :=
                Finish.map_eq_done (congrArg Prod.fst (Option.some.inj h))
              obtain ⟨hreturned, e, he, hn⟩ := hafter ended hgoto
              refine ⟨fun _ hparallel => ?_, ended.2, e, he, hn⟩
              have htype : handlerType = "parallel" := Except.ok.inj (hget.symm.trans hparallel)
              unfold executeHandler at hrun
              rw [if_pos htype] at hrun
              have hout : p.graph.outgoingEdges node.id ≠ [] :=
                List.ne_nil_of_mem (selectEdge_mem he)
              have hdone : run.ended = .done (.returned o, ended.2) := by
                rw [hended, ← hreturned]
              exact executeParallel_returned hrun hdone hout

theorem subgraphSteps_executed (hr : r.Confined p) {place : Place} {left : Nat} {node : Node}
    {last : Option Outcome} {context : PipelineContext} {e : Finish SubgraphEnd} {l : List Mark}
    (h : subgraphSteps w r p place left node last context = some (e, l)) {id : String}
    (hid : id ∈ executedIds l) : MayExecuteFrom p node id := by
  induction left generalizing node last context e l with
  | zero =>
    cases h
    exact absurd hid List.not_mem_nil
  | succ left ih =>
    have hhere : ∀ {s l'}, subgraphStep w r p (left :: place) node last context = some (s, l') →
        id ∈ executedIds l' → MayExecuteFrom p node id := by
      intro s l' hs hmem
      obtain ⟨x, hx, hin⟩ := List.mem_flatMap.mp hmem
      obtain ⟨⟨place', handlerType, context', run, hget, hrun, rfl⟩, hterminal, hstart⟩ :=
        subgraphStep_logs s l' hs x hx
      rcases List.mem_cons.mp hin with rfl | hnested
      · exact ⟨node, .refl, hterminal, hstart, rfl⟩
      · exact executeHandler_nested hr hterminal hget hrun hnested
    rcases Logged.bind_eq_some h with ⟨-, hcut⟩ | ⟨s, l₁, l₂, hs, hrest, rfl⟩
    · exact hhere hcut hid
    · rw [executedIds, List.flatMap_append] at hid
      rcases List.mem_append.mp hid with hnow | hlater
      · exact hhere hs hnow
      · split at hrest
        · cases hrest
          exact absurd hlater List.not_mem_nil
        · rename_i next context' o
          obtain ⟨hterminal, ho, c, e', he, hn⟩ := subgraphStep_goto hs
          rcases Logged.bind_eq_some hrest with ⟨-, hcut⟩ | ⟨_, l₃, l₄, htell, hnext, rfl⟩
          · cases hcut
          · cases htell
            exact (ih hnext hlater).step (.edge hterminal ho he hn)

/-- However deep calls nest, a walk executes what lies behind its root. -/
theorem runners_confined (w : World) (p : PipelineEngine) [JsonReader] (d : Nat) :
    (runners w d).Confined p := by
  induction d with
  | zero =>
    intro place root context e l h
    cases h
  | succ d ih =>
    intro place root context e l h id hid
    have hwalk : runSubgraph w (runners w d) p place root context = some (e, l) := h
    unfold runSubgraph at hwalk
    split at hwalk
    · cases hwalk
      exact absurd hid List.not_mem_nil
    · rename_i n hn
      exact ⟨n, hn, subgraphSteps_executed ih hwalk hid⟩

end DotRunner
