import DotRunner.Components
import DotRunner.Lint.Rules

/-!
# Cycles

The back edges and the strongly connected components that the rules on loops read.
Both searches keep their own stack.  Each is the depth-first search of the library, so
its order of closing is known, and what is known of that.
-/

namespace DotRunner

open Py DepthFirst

namespace Graph

/-! ## Back edges -/

structure BackEdgeSearch where
  visited : List String := []
  inStack : List String := []
  backEdges : List (String × String) := []
  stack : List (String × List String) := []

namespace BackEdgeSearch

/-- The first visit to the node on top builds the list of its neighbors. -/
def enter (g : Graph) (c : BackEdgeSearch) : BackEdgeSearch :=
  match c.stack with
  | [] => c
  | (nodeId, _) :: below =>
    if nodeId ∈ c.visited then c
    else { c with
      visited := nodeId :: c.visited
      inStack := nodeId :: c.inStack
      stack := (nodeId, linked g nodeId) :: below }

/-- Find the next unprocessed neighbor.  The flag is `found_child`. -/
def scan (nodeId : String) (below : List (String × List String)) :
    List String → BackEdgeSearch → BackEdgeSearch × Bool
  | [], c => (c, false)
  | neighbor :: neighbors, c =>
    let c := { c with stack := (nodeId, neighbors) :: below }
    if neighbor ∈ c.inStack then
      scan nodeId below neighbors { c with backEdges := c.backEdges.insert (nodeId, neighbor) }
    else if neighbor ∉ c.visited then
      ({ c with stack := (neighbor, []) :: c.stack }, true)
    else scan nodeId below neighbors c

/-- One turn of `while stack`. -/
def turn (g : Graph) (c : BackEdgeSearch) : BackEdgeSearch :=
  let c := c.enter g
  match c.stack with
  | [] => c
  | (nodeId, neighbors) :: below =>
    match scan nodeId below neighbors c with
    | (c, true) => c
    | (c, false) => { c with stack := below, inStack := c.inStack.filter (· != nodeId) }

end BackEdgeSearch

/-- Enough turns for a search to end: two for every node and edge it can come to. -/
def searchTurns (next : String → List String) (g : Graph) : Nat :=
  (g.nodes.keys.map fun nodeId => (next nodeId).length + 1).sum

/-- `_find_back_edges` -/
def findBackEdges (g : Graph) : List (String × String) :=
  (g.nodes.keys.foldl (fun c nodeId =>
    if decide (nodeId ∈ c.visited) then c
    else (BackEdgeSearch.turn g)^[searchTurns (linked g) g]
      { c with stack := [(nodeId, [])] }) {}).backEdges

/-! ## Components -/

/-- `adj[node]` -/
def adj (g : Graph) (node : String) : List String :=
  (g.edges.filter fun e => e.fromNode == node && (g.hasNode e.fromNode && g.hasNode e.toNode)).map
    Edge.toNode

/-- `radj[node]` -/
def radj (g : Graph) (node : String) : List String :=
  (g.edges.filter fun e => e.toNode == node && (g.hasNode e.fromNode && g.hasNode e.toNode)).map
    Edge.fromNode

def selfLoopNodes (g : Graph) : List String :=
  (g.edges.filter fun e => e.fromNode == e.toNode && g.hasNode e.fromNode).map Edge.fromNode

structure FinishSearch where
  visited : List String := []
  finishOrder : List String := []
  stack : List (String × Nat) := []

namespace FinishSearch

def enter (c : FinishSearch) : FinishSearch :=
  match c.stack with
  | [] => c
  | (node, _) :: _ => if node ∈ c.visited then c else { c with visited := node :: c.visited }

/-- One turn of `while stack` in `dfs1`. -/
def turn (g : Graph) (c : FinishSearch) : FinishSearch :=
  let c := c.enter
  match c.stack with
  | [] => c
  | (node, idx) :: below =>
    match (adj g node)[idx]? with
    | some nxt =>
      if nxt ∉ c.visited then { c with stack := (nxt, 0) :: (node, idx + 1) :: below }
      else { c with stack := (node, idx + 1) :: below }
    | none => { c with stack := below, finishOrder := c.finishOrder ++ [node] }

end FinishSearch

/-- The order in which `dfs1` finishes the nodes. -/
def finishOrder (g : Graph) : List String :=
  (g.nodes.keys.foldl (fun c nodeId =>
    if decide (nodeId ∈ c.visited) then c
    else (FinishSearch.turn g)^[searchTurns (adj g) g] { c with stack := [(nodeId, 0)] })
    {}).finishOrder

/-- A component of two nodes or more, or of one with an edge to itself. -/
def hasLoop (g : Graph) : List String → Bool
  | [] => false
  | [node] => decide (node ∈ selfLoopNodes g)
  | _ => true

/-- `_compute_sccs`: the second pass, over the reversed edges, is `dfs2`. -/
def computeSccs (g : Graph) : List (List String) :=
  (Components.sweep (radj g) (1 + (g.nodes.keys.map fun node => (radj g node).length).sum)
    (hasLoop g) (finishOrder g).reverse).2

/-! ## The graph between its nodes -/

/-- An edge between two nodes of the graph. -/
def Link (g : Graph) (a b : String) : Prop :=
  ∃ e ∈ g.edges, e.fromNode = a ∧ e.toNode = b ∧ g.hasNode a = true ∧ g.hasNode b = true

theorem mem_linked {g : Graph} {a b : String} (ha : g.hasNode a = true) :
    b ∈ linked g a ↔ Link g a b := by
  simp only [linked, successors, List.mem_filter, List.mem_map, mem_outgoingEdges]
  constructor
  · rintro ⟨⟨e, ⟨he, hfrom⟩, hto⟩, hb⟩
    exact ⟨e, he, hfrom, hto, ha, hb⟩
  · rintro ⟨e, he, hfrom, hto, -, hb⟩
    exact ⟨⟨e, ⟨he, hfrom⟩, hto⟩, hb⟩

theorem mem_adj {g : Graph} {a b : String} : b ∈ adj g a ↔ Link g a b := by
  simp only [adj, List.mem_filter, List.mem_map, Bool.and_eq_true, beq_iff_eq]
  constructor
  · rintro ⟨e, ⟨he, rfl, ha, hb⟩, rfl⟩
    exact ⟨e, he, rfl, rfl, ha, hb⟩
  · rintro ⟨e, he, rfl, rfl, ha, hb⟩
    exact ⟨e, ⟨he, rfl, ha, hb⟩, rfl⟩

theorem mem_radj {g : Graph} {a b : String} : b ∈ radj g a ↔ a ∈ adj g b := by
  rw [mem_adj]
  simp only [radj, List.mem_filter, List.mem_map, Bool.and_eq_true, beq_iff_eq]
  constructor
  · rintro ⟨e, ⟨he, rfl, hb, ha⟩, rfl⟩
    exact ⟨e, he, rfl, rfl, hb, ha⟩
  · rintro ⟨e, he, rfl, rfl, hb, ha⟩
    exact ⟨e, ⟨he, rfl, hb, ha⟩, rfl⟩

theorem mem_selfLoopNodes {g : Graph} {a : String} : a ∈ selfLoopNodes g ↔ Link g a a := by
  simp only [selfLoopNodes, List.mem_filter, List.mem_map, Bool.and_eq_true, beq_iff_eq]
  constructor
  · rintro ⟨e, ⟨he, heq, ha⟩, rfl⟩
    exact ⟨e, he, rfl, heq.symm, ha, ha⟩
  · rintro ⟨e, he, rfl, hto, ha, -⟩
    exact ⟨e, ⟨he, hto.symm, ha⟩, rfl⟩

/-! ## The search for back edges is depth-first -/

namespace BackEdgeSearch

/-- Both searches stand at the same point. -/
structure Entered (c : BackEdgeSearch) (s : State String) : Prop where
  stack : s.opened = c.stack
  visited : ∀ a, a ∈ c.visited ↔ a ∈ s.met
  inStack : ∀ a, a ∈ c.inStack ↔ a ∈ s.path
  backEdges : ∀ p, p ∈ c.backEdges ↔ p ∈ s.back

variable {g : Graph} {c : BackEdgeSearch} {s : State String} {nodeId : String}
  {below : List (String × List String)}

theorem enter_of_visited {neighbors : List String} (hc : c.stack = (nodeId, neighbors) :: below)
    (h : nodeId ∈ c.visited) : c.enter g = c := by
  rw [enter, hc]
  exact if_pos h

theorem Entered.look (h : Entered c s) {neighbors rest : List String}
    (hc : c.stack = (nodeId, neighbors) :: below) {back : List (String × String)}
    {backEdges : List (String × String)} (hback : ∀ p, p ∈ backEdges ↔ p ∈ back) :
    Entered { c with stack := (nodeId, rest) :: below, backEdges := backEdges }
      { s with opened := (nodeId, rest) :: below, back := back } := by
  have hpath : State.path { s with opened := (nodeId, rest) :: below, back := back } = s.path :=
    State.path_eq (h.stack.trans hc) rfl
  constructor
  case stack => rfl
  case visited =>
    intro a
    rw [State.met, hpath]
    exact h.visited a
  case inStack =>
    intro a
    rw [hpath]
    exact h.inStack a
  case backEdges => exact hback

/-- The scan has taken the search on: to the child it found, or past the last neighbor. -/
def ScanEnds (g : Graph) (s : State String) (nodeId : String)
    (below : List (String × List String)) (r : BackEdgeSearch × Bool) : Prop :=
  ∃ s', Onward (linked g) g.nodes.keys s s' ∧
    if r.2 then Entered (r.1.enter g) s' ∧
      cost (linked g) g.nodes.keys s' < cost (linked g) g.nodes.keys s
    else Entered { r.1 with stack := (nodeId, []) :: below } s'

theorem ScanEnds.from {s₁ : State String} {r : BackEdgeSearch × Bool}
    (h : ScanEnds g s₁ nodeId below r) (hafter : Onward (linked g) g.nodes.keys s s₁) :
    ScanEnds g s nodeId below r := by
  obtain ⟨s', hafter', hends⟩ := h
  refine ⟨s', hafter.trans hafter', ?_⟩
  split
  · rename_i hr
    rw [if_pos hr] at hends
    exact ⟨hends.1, Nat.lt_of_lt_of_le hends.2 hafter.cost⟩
  · rename_i hr
    rw [if_neg hr] at hends
    exact hends

theorem scan_ends {neighbors : List String}
    (hdomain : ∀ a ∈ g.nodes.keys, ∀ b ∈ linked g a, b ∈ g.nodes.keys)
    (hs : Sound (linked g) s) (hw : Within g.nodes.keys s) (h : Entered c s)
    (hc : c.stack = (nodeId, neighbors) :: below) :
    ScanEnds g s nodeId below (scan nodeId below neighbors c) := by
  induction neighbors generalizing c s with
  | nil =>
    refine ⟨s, .refl hs hw, ?_⟩
    rw [scan, if_neg Bool.false_ne_true, ← hc]
    exact h
  | cons neighbor neighbors ih =>
    have ho : s.opened = (nodeId, neighbor :: neighbors) :: below := h.stack.trans hc
    have hne : s.opened ≠ [] := by rw [ho]; exact List.cons_ne_nil _ _
    have hafter := after_advance hdomain hs hw hne
    have hless := cost_advance hdomain hw hs hne
    by_cases hin : neighbor ∈ c.inStack
    · have hadvance : s.advance (linked g) = { s with
          opened := (nodeId, neighbors) :: below, back := (nodeId, neighbor) :: s.back } := by
        rw [State.advance, ho]
        exact if_pos ((h.inStack neighbor).mp hin)
      rw [hadvance] at hafter
      rw [scan, if_pos hin]
      have hback : ∀ p, p ∈ c.backEdges.insert (nodeId, neighbor) ↔
          p ∈ (nodeId, neighbor) :: s.back := by
        intro p
        rw [List.mem_insert_iff, List.mem_cons, h.backEdges p]
      exact (ih hafter.sound hafter.within (h.look hc hback) rfl).from hafter
    · have hpath : neighbor ∉ s.path := fun hmem => hin ((h.inStack neighbor).mpr hmem)
      by_cases hvisited : neighbor ∈ c.visited
      · have hclosed : neighbor ∈ s.closed :=
          (State.mem_met.mp ((h.visited neighbor).mp hvisited)).resolve_left hpath
        have hadvance : s.advance (linked g) =
            { s with opened := (nodeId, neighbors) :: below } := by
          rw [State.advance, ho]
          exact (if_neg hpath).trans (if_pos hclosed)
        rw [hadvance] at hafter
        rw [scan, if_neg hin, if_neg (not_not.mpr hvisited)]
        exact (ih hafter.sound hafter.within (h.look hc h.backEdges) rfl).from hafter
      · have hmet : neighbor ∉ s.met := fun hmem => hvisited ((h.visited neighbor).mpr hmem)
        have hadvance : s.advance (linked g) = { s with
            opened := (neighbor, linked g neighbor) :: (nodeId, neighbors) :: below } := by
          rw [State.advance, ho]
          exact (if_neg hpath).trans (if_neg fun hmem => hmet (State.mem_met.mpr (.inr hmem)))
        rw [hadvance] at hafter hless
        refine ⟨_, hafter, ?_⟩
        rw [scan, if_neg hin, if_pos hvisited, if_pos rfl]
        refine ⟨?_, hless⟩
        have hlooked : Entered { c with stack := (nodeId, neighbors) :: below }
            { s with opened := (nodeId, neighbors) :: below } := h.look hc h.backEdges
        have henter : enter g { c with
            stack := (neighbor, []) :: (nodeId, neighbors) :: below } = { c with
              visited := neighbor :: c.visited
              inStack := neighbor :: c.inStack
              stack := (neighbor, linked g neighbor) :: (nodeId, neighbors) :: below } := by
          rw [enter]
          exact if_neg hvisited
        rw [henter]
        constructor
        case stack => rfl
        case visited =>
          intro a
          exact List.mem_cons.trans ((or_congr_right (hlooked.visited a)).trans
            List.mem_cons.symm)
        case inStack =>
          intro a
          exact List.mem_cons.trans ((or_congr_right (hlooked.inStack a)).trans
            List.mem_cons.symm)
        case backEdges => exact h.backEdges

/-- The node on top is left, and what stands below it was entered before. -/
theorem Entered.leave (h : Entered { c with stack := (nodeId, []) :: below } s)
    (hs : Sound (linked g) s) :
    Entered (enter g { c with
      stack := below, inStack := c.inStack.filter (· != nodeId) }) (s.advance (linked g)) := by
  have ho : s.opened = (nodeId, []) :: below := h.stack
  have hpath : s.path = nodeId :: below.map Prod.fst := by rw [State.path, ho]; rfl
  have hadvance : s.advance (linked g) =
      { s with opened := below, closed := nodeId :: s.closed } := by
    rw [State.advance, ho]
  have hstay : enter g { c with stack := below, inStack := c.inStack.filter (· != nodeId) } =
      { c with stack := below, inStack := c.inStack.filter (· != nodeId) } := by
    cases hbelow : below with
    | nil => rfl
    | cons f l =>
      refine enter_of_visited rfl ((h.visited f.1).mpr (State.mem_met.mpr (.inl ?_)))
      rw [hpath, hbelow]
      exact List.mem_cons_of_mem nodeId List.mem_cons_self
  rw [hadvance, hstay]
  constructor
  case stack => rfl
  case visited =>
    intro a
    refine (h.visited a).trans ?_
    rw [State.met, hpath]
    exact List.perm_middle.symm.mem_iff
  case inStack =>
    intro a
    have hfresh : nodeId ∉ below.map Prod.fst := by
      have hnodup := (List.nodup_append.mp hs.fresh).1
      rw [hpath] at hnodup
      exact (List.nodup_cons.mp hnodup).1
    have hin : a ∈ c.inStack ↔ a ∈ nodeId :: below.map Prod.fst := hpath ▸ h.inStack a
    show a ∈ c.inStack.filter (· != nodeId) ↔ a ∈ below.map Prod.fst
    rw [List.mem_filter, hin, List.mem_cons, bne_iff_ne]
    constructor
    · rintro ⟨hmem, hne⟩
      exact hmem.resolve_left hne
    · intro hmem
      exact ⟨.inr hmem, fun heq => hfresh (heq ▸ hmem)⟩
  case backEdges => exact h.backEdges

theorem stack_of_enter (h : (c.enter g).stack = []) : c.enter g = c := by
  unfold enter at h ⊢
  split
  · rfl
  · split
    · rfl
    · rename_i hc hnew
      rw [hc] at h
      simp only [if_neg hnew] at h
      exact (nomatch h)

theorem turn_tracks (hdomain : ∀ a ∈ g.nodes.keys, ∀ b ∈ linked g a, b ∈ g.nodes.keys) :
    Tracks (linked g) g.nodes.keys (fun c nodeId => { c with stack := [(nodeId, [])] }) (turn g)
      (fun c nodeId => decide (nodeId ∈ c.visited)) fun c s => Entered (c.enter g) s := by
  constructor
  case onBegin =>
    intro c s a h ho ha
    rw [stack_of_enter (h.stack.symm.trans ho)] at h
    have hpath : s.path = [] := by rw [State.path, ho]; rfl
    have henter : enter g { c with stack := [(a, [])] } = { c with
        visited := a :: c.visited, inStack := a :: c.inStack, stack := [(a, linked g a)] } := by
      rw [enter]
      exact if_neg fun hmem => ha ((h.visited a).mp hmem)
    rw [henter]
    constructor
    case stack => rfl
    case visited =>
      intro b
      have hmet := h.visited b
      rw [State.met, hpath] at hmet
      exact List.mem_cons.trans ((or_congr_right hmet).trans List.mem_cons.symm)
    case inStack =>
      intro b
      have hin := h.inStack b
      rw [hpath] at hin
      exact List.mem_cons.trans ((or_congr_right hin).trans List.mem_cons.symm)
    case backEdges => exact h.backEdges
  case onTurn =>
    intro c s hs hw h ho
    unfold turn
    obtain ⟨⟨nodeId, neighbors⟩, below, hc⟩ :=
      List.exists_cons_of_ne_nil fun hnil => ho (h.stack.trans hnil)
    simp only [hc]
    obtain ⟨s', hafter, hends⟩ := scan_ends hdomain hs hw h hc
    generalize scan nodeId below neighbors (c.enter g) = r at hends
    obtain ⟨c', found⟩ := r
    cases found with
    | true => exact ⟨s', hends.1, hafter, hends.2⟩
    | false =>
      have hne : s'.opened ≠ [] := by
        rw [hends.stack]
        exact List.cons_ne_nil _ _
      refine ⟨s'.advance (linked g), hends.leave hafter.sound,
        hafter.trans (after_advance hdomain hafter.sound hafter.within hne), ?_⟩
      exact Nat.lt_of_lt_of_le (cost_advance hdomain hafter.within hafter.sound hne) hafter.cost
  case onStop =>
    intro c s h ho
    have hnil : (c.enter g).stack = [] := h.stack.symm.trans ho
    unfold turn
    simp only [hnil]
    exact stack_of_enter hnil
  case onSeen =>
    intro c s a h ho
    rw [stack_of_enter (h.stack.symm.trans ho)] at h
    rw [decide_eq_true_iff]
    exact h.visited a

end BackEdgeSearch

namespace FinishSearch

structure Entered (g : Graph) (c : FinishSearch) (s : State String) : Prop where
  stack : s.opened = c.stack.map fun f => (f.1, (adj g f.1).drop f.2)
  visited : ∀ a, a ∈ c.visited ↔ a ∈ s.met
  finishOrder : s.closed = c.finishOrder.reverse

variable {g : Graph} {c : FinishSearch} {s : State String}

theorem stack_enter (c : FinishSearch) : c.enter.stack = c.stack := by
  unfold enter
  split
  · rfl
  · split <;> rfl

theorem enter_of_visited {node : String} {idx : Nat} {below : List (String × Nat)}
    (hc : c.stack = (node, idx) :: below) (h : node ∈ c.visited) : c.enter = c := by
  rw [enter, hc]
  exact if_pos h

theorem enter_of_new {node : String} {idx : Nat} {below : List (String × Nat)}
    (hc : c.stack = (node, idx) :: below) (h : node ∉ c.visited) :
    c.enter = { c with visited := node :: c.visited } := by
  rw [enter, hc]
  exact if_neg h

theorem stack_eq_nil (h : Entered g c.enter s) : s.opened = [] ↔ c.stack = [] := by
  rw [h.stack, List.map_eq_nil_iff, stack_enter]

theorem entered_of_nil (h : Entered g c.enter s) (ho : s.opened = []) : Entered g c s := by
  have hnil := (stack_eq_nil h).mp ho
  rw [enter, hnil] at h
  exact h

/-- One turn of the loop is one step of the search. -/
theorem turn_advance (h : Entered g c.enter s) (ho : s.opened ≠ []) :
    Entered g (turn g c).enter (s.advance (adj g)) := by
  obtain ⟨⟨node, idx⟩, below, hc⟩ :=
    List.exists_cons_of_ne_nil fun hnil => ho ((stack_eq_nil h).mpr hnil)
  have hstack : c.enter.stack = (node, idx) :: below := (stack_enter c).trans hc
  have hopened := h.stack
  rw [hstack, List.map_cons] at hopened
  have hpath : s.path = node :: below.map Prod.fst := by
    rw [State.path, hopened, List.map_cons, List.map_map]
    rfl
  have hvisited : ∀ a ∈ node :: below.map Prod.fst, a ∈ c.enter.visited := fun a ha =>
    (h.visited a).mpr (State.mem_met.mpr (.inl (hpath ▸ ha)))
  unfold turn
  simp only [hstack]
  cases hnxt : (adj g node)[idx]? with
  | none =>
    rw [List.drop_eq_nil_iff.mpr (List.getElem?_eq_none_iff.mp hnxt)] at hopened
    have hstay : enter { c.enter with
        stack := below, finishOrder := c.enter.finishOrder ++ [node] } =
          { c.enter with stack := below, finishOrder := c.enter.finishOrder ++ [node] } := by
      cases hbelow : below with
      | nil => rfl
      | cons f l =>
        refine enter_of_visited rfl (hvisited f.1 ?_)
        rw [hbelow]
        exact List.mem_cons_of_mem node List.mem_cons_self
    rw [State.advance, hopened, hstay]
    constructor
    case stack => rfl
    case visited =>
      intro a
      refine (h.visited a).trans ?_
      rw [State.met, hpath, State.met, State.path, List.map_map]
      exact List.perm_middle.symm.mem_iff
    case finishOrder =>
      show node :: s.closed = (c.enter.finishOrder ++ [node]).reverse
      rw [List.reverse_concat, h.finishOrder]
  | some nxt =>
    obtain ⟨hidx, hget⟩ := List.getElem?_eq_some_iff.mp hnxt
    rw [List.drop_eq_getElem_cons hidx, hget] at hopened
    have hnext : ∀ {stack : List (String × Nat)}, stack = (node, idx + 1) :: below →
        Entered g { c.enter with stack := stack } { s with
          opened := (node, (adj g node).drop (idx + 1)) ::
            below.map fun f => (f.1, (adj g f.1).drop f.2) } := by
      rintro stack rfl
      constructor
      case stack => rfl
      case visited =>
        intro a
        rw [State.met, State.path_eq hopened rfl]
        exact h.visited a
      case finishOrder => exact h.finishOrder
    dsimp only
    by_cases hmem : nxt ∈ c.enter.visited
    · have hstay : enter { c.enter with stack := (node, idx + 1) :: below } =
          { c.enter with stack := (node, idx + 1) :: below } :=
        enter_of_visited rfl (hvisited node List.mem_cons_self)
      rw [if_neg (not_not.mpr hmem), hstay, State.advance, hopened]
      dsimp only
      by_cases hopen : nxt ∈ s.path
      · rw [if_pos hopen]
        exact ⟨(hnext rfl).stack, (hnext rfl).visited, h.finishOrder⟩
      · have hclosed := (State.mem_met.mp ((h.visited nxt).mp hmem)).resolve_left hopen
        rw [if_neg hopen, if_pos hclosed]
        exact hnext rfl
    · have hmet : nxt ∉ s.met := fun hin => hmem ((h.visited nxt).mpr hin)
      have henter : enter { c.enter with stack := (nxt, 0) :: (node, idx + 1) :: below } =
          { c.enter with
            visited := nxt :: c.enter.visited
            stack := (nxt, 0) :: (node, idx + 1) :: below } := enter_of_new rfl hmem
      rw [if_pos hmem, henter, State.advance, hopened]
      dsimp only
      rw [if_neg fun hin => hmet (State.mem_met.mpr (.inl hin)),
        if_neg fun hin => hmet (State.mem_met.mpr (.inr hin))]
      constructor
      case stack => rfl
      case visited =>
        intro a
        exact List.mem_cons.trans ((or_congr_right ((hnext rfl).visited a)).trans
          List.mem_cons.symm)
      case finishOrder => exact h.finishOrder

theorem turn_tracks (hdomain : ∀ a ∈ g.nodes.keys, ∀ b ∈ adj g a, b ∈ g.nodes.keys) :
    Tracks (adj g) g.nodes.keys (fun c nodeId => { c with stack := [(nodeId, 0)] }) (turn g)
      (fun c nodeId => decide (nodeId ∈ c.visited)) fun c s => Entered g c.enter s := by
  constructor
  case onBegin =>
    intro c s a h ho ha
    have hc := entered_of_nil h ho
    have hpath : s.path = [] := by rw [State.path, ho]; rfl
    have henter : enter { c with stack := [(a, 0)] } =
        { c with visited := a :: c.visited, stack := [(a, 0)] } :=
      enter_of_new rfl fun hmem => ha ((hc.visited a).mp hmem)
    rw [henter]
    constructor
    case stack => rfl
    case visited =>
      intro b
      have hmet := hc.visited b
      rw [State.met, hpath] at hmet
      exact List.mem_cons.trans ((or_congr_right hmet).trans List.mem_cons.symm)
    case finishOrder => exact hc.finishOrder
  case onTurn =>
    intro c s hs hw h ho
    exact ⟨s.advance (adj g), turn_advance h ho, after_advance hdomain hs hw ho,
      cost_advance hdomain hw hs ho⟩
  case onStop =>
    intro c s h ho
    have hnil := (stack_eq_nil h).mp ho
    have hstay : c.enter = c := by rw [enter, hnil]
    unfold turn
    simp only [hstay, hnil]
  case onSeen =>
    intro c s a h ho
    rw [decide_eq_true_iff]
    exact (entered_of_nil h ho).visited a

end FinishSearch

/-! ## What the searches find -/

variable {g : Graph}

theorem within_empty (domain : List String) : Within domain {} :=
  ⟨fun _ ha => absurd ha List.not_mem_nil⟩

theorem mem_closed {s : State String} (hw : Within g.nodes.keys s) (ho : s.opened = [])
    (hall : ∀ a ∈ g.nodes.keys, a ∈ s.met) (a : String) : a ∈ s.closed ↔ a ∈ g.nodes.keys := by
  have hmet : s.met = s.closed := by rw [State.met, State.path, ho]; rfl
  exact ⟨fun ha => hw.met a (hmet ▸ ha), fun ha => hmet ▸ hall a ha⟩

/-- The back edges are those of a finished search. -/
theorem findBackEdges_finished (g : Graph) : ∃ s : State String, Sound (linked g) s ∧
    (∀ a, a ∈ s.closed ↔ a ∈ g.nodes.keys) ∧ Within g.nodes.keys s ∧
      ∀ p, p ∈ findBackEdges g ↔ p ∈ s.back := by
  have hdomain : ∀ a ∈ g.nodes.keys, ∀ b ∈ linked g a, b ∈ g.nodes.keys := fun _ _ _ hb =>
    mem_keys_iff_hasNode.mpr (List.mem_filter.mp hb).2
  have hstart : BackEdgeSearch.Entered (BackEdgeSearch.enter g {}) {} :=
    ⟨rfl, fun _ => Iff.rfl, fun _ => Iff.rfl, fun _ => Iff.rfl⟩
  obtain ⟨s, hmatch, hs, hw, ho, hall⟩ := (BackEdgeSearch.turn_tracks hdomain).explored
    (fun _ ha => ha) hstart .empty (within_empty _) rfl
    (show searchTurns (linked g) g = _ from rfl)
  rw [BackEdgeSearch.stack_of_enter (hmatch.stack.symm.trans ho)] at hmatch
  exact ⟨s, hs, mem_closed hw ho fun a ha => hall a (.inr ha), hw, hmatch.backEdges⟩

/-- The order of finishing is that of a finished search. -/
theorem finishOrder_finished (g : Graph) : ∃ s : State String, Sound (adj g) s ∧
    (∀ a, a ∈ s.closed ↔ a ∈ g.nodes.keys) ∧ s.closed = (finishOrder g).reverse := by
  have hdomain : ∀ a ∈ g.nodes.keys, ∀ b ∈ adj g a, b ∈ g.nodes.keys := by
    intro a _ b hb
    obtain ⟨-, -, -, -, -, hnode⟩ := mem_adj.mp hb
    exact mem_keys_iff_hasNode.mpr hnode
  have hstart : FinishSearch.Entered g (FinishSearch.enter {}) {} :=
    ⟨rfl, fun _ => Iff.rfl, rfl⟩
  obtain ⟨s, hmatch, hs, hw, ho, hall⟩ := (FinishSearch.turn_tracks hdomain).explored
    (fun _ ha => ha) hstart .empty (within_empty _) rfl
    (show searchTurns (adj g) g = _ from rfl)
  exact ⟨s, hs, mem_closed hw ho fun a ha => hall a (.inr ha),
    (FinishSearch.entered_of_nil hmatch ho).finishOrder⟩

def OnCycle (g : Graph) (a : String) : Prop := Relation.TransGen (Link g) a a

/-- Each of the two nodes can be reached from the other. -/
def Connected (g : Graph) (a b : String) : Prop :=
  Relation.ReflTransGen (Link g) a b ∧ Relation.ReflTransGen (Link g) b a

theorem reach_adj {a b : String} :
    Search.Reach (adj g) a b ↔ Relation.ReflTransGen (Link g) a b := by
  have hstep : Search.Step (adj g) = Link g := by
    funext a b
    exact propext mem_adj
  rw [Search.Reach, hstep]

theorem mutual_adj {a b : String} : Mutual (adj g) a b ↔ Connected g a b :=
  and_congr reach_adj reach_adj

theorem reach_linked {a b : String} (ha : g.hasNode a = true) (h : Search.Reach (linked g) a b) :
    Relation.ReflTransGen (Link g) a b ∧ g.hasNode b = true := by
  induction h with
  | refl => exact ⟨.refl, ha⟩
  | tail _ harc ih =>
    have hlink := (mem_linked ih.2).mp harc
    obtain ⟨-, -, -, -, -, hnode⟩ := id hlink
    exact ⟨ih.1.tail hlink, hnode⟩

theorem hasNode_of_onCycle {a : String} (h : OnCycle g a) : g.hasNode a = true := by
  cases h with
  | single hlink => exact hlink.choose_spec.2.2.2.2
  | tail _ hlink => exact hlink.choose_spec.2.2.2.2

theorem onCycle_of_connected {a b : String} (h : Connected g a b) (hne : a ≠ b) : OnCycle g a := by
  rcases Relation.reflTransGen_iff_eq_or_transGen.mp h.1 with heq | hthere
  · exact absurd heq.symm hne
  · exact hthere.trans_left h.2

/-- A component has a loop if it has a cycle. -/
theorem hasLoop_iff {a : String} {component : List String}
    (h : Components.IsComponent (adj g) a component) :
    hasLoop g component = true ↔ OnCycle g a := by
  have hmem : ∀ b, b ∈ component ↔ Connected g a b := fun b => (h.mem b).trans mutual_adj
  have ha : a ∈ component := (hmem a).mpr ⟨.refl, .refl⟩
  match component, h.nodup with
  | [], _ => exact absurd ha List.not_mem_nil
  | [node], _ =>
    obtain rfl := List.mem_singleton.mp ha
    rw [hasLoop, decide_eq_true_iff, mem_selfLoopNodes]
    constructor
    · exact fun hlink => .single hlink
    · intro hcycle
      obtain ⟨b, hlink, hback⟩ := Relation.TransGen.head'_iff.mp hcycle
      obtain rfl := List.mem_singleton.mp ((hmem b).mpr ⟨.single hlink, hback⟩)
      exact hlink
  | b :: c :: rest, hnodup =>
    refine ⟨fun _ => ?_, fun _ => rfl⟩
    have hbc : b ≠ c := fun heq => (List.nodup_cons.mp hnodup).1 (heq ▸ List.mem_cons_self)
    by_cases hb : a = b
    · have hc := (hmem c).mp (List.mem_cons_of_mem b List.mem_cons_self)
      exact onCycle_of_connected hc (hb ▸ hbc)
    · exact onCycle_of_connected ((hmem b).mp List.mem_cons_self) hb

theorem swept_computeSccs (g : Graph) : ∃ order visited,
    (∀ a, a ∈ order ↔ a ∈ g.nodes.keys) ∧
      Components.Swept (adj g) (hasLoop g) order (visited, computeSccs g) := by
  obtain ⟨s, hs, hclosed, horder⟩ := finishOrder_finished g
  have hdomain : ∀ a ∈ g.nodes.keys, ∀ b ∈ radj g a, b ∈ g.nodes.keys := by
    intro a _ b hb
    obtain ⟨-, -, -, -, hnode, -⟩ := mem_adj.mp (mem_radj.mp hb)
    exact mem_keys_iff_hasNode.mpr hnode
  have hswept : Components.Swept (adj g) (hasLoop g) s.closed _ :=
    Components.swept_sweep (fun _ _ => mem_radj) hdomain hs.ordered
      (fun a => (hclosed a).symm) (Nat.le_refl _)
  rw [horder] at hswept hclosed
  exact ⟨_, _, hclosed, hswept⟩

/-! ## Both analyses are exact -/

/-- The components are those that have a cycle, and the back edges are enough to break
every cycle and lie on one. -/
structure CyclesExact (g : Graph) : Prop where
  cyclic : ∀ scc ∈ computeSccs g, ∃ a, OnCycle g a ∧ ∀ b, b ∈ scc ↔ Connected g a b
  all : ∀ a, OnCycle g a → ∃ scc ∈ computeSccs g, ∀ b, b ∈ scc ↔ Connected g a b
  once : (computeSccs g).Pairwise List.Disjoint
  backEdges : findBackEdges g ≠ [] ↔ ∃ a, OnCycle g a
  inside : ∀ p ∈ findBackEdges g, Link g p.1 p.2 ∧ ∃ scc ∈ computeSccs g, p.1 ∈ scc ∧ p.2 ∈ scc
  acyclic : ∀ a, ¬ Relation.TransGen (fun a b => Link g a b ∧ (a, b) ∉ findBackEdges g) a a

theorem cycleAnalysis_exact (g : Graph) : CyclesExact g := by
  obtain ⟨order, visited, horder, hswept⟩ := swept_computeSccs g
  obtain ⟨s, hs, hclosed, hw, hback⟩ := findBackEdges_finished g
  have hall : ∀ a, OnCycle g a → ∃ scc ∈ computeSccs g, ∀ b, b ∈ scc ↔ Connected g a b := by
    intro a ha
    obtain ⟨scc, hscc, hlisted⟩ :=
      hswept.all a ((horder a).mpr (mem_keys_iff_hasNode.mpr (hasNode_of_onCycle ha)))
    exact ⟨scc, hlisted ((hasLoop_iff hscc).mpr ha), fun b => (hscc.mem b).trans mutual_adj⟩
  have hedge : ∀ p ∈ findBackEdges g, Link g p.1 p.2 ∧ Connected g p.1 p.2 := by
    intro p hp
    obtain ⟨harc, hreach⟩ := hs.back p ((hback p).mp hp)
    have hnode := mem_keys_iff_hasNode.mp (hw.met _ (hs.backMet p ((hback p).mp hp)))
    obtain ⟨hreturn, hsource⟩ := reach_linked hnode hreach
    have hlink := (mem_linked hsource).mp harc
    exact ⟨hlink, .single hlink, hreturn⟩
  have honCycle : ∀ p ∈ findBackEdges g, OnCycle g p.1 := fun p hp =>
    .head' (hedge p hp).1 (hedge p hp).2.2
  have hacyclic : ∀ a,
      ¬ Relation.TransGen (fun a b => Link g a b ∧ (a, b) ∉ findBackEdges g) a a := by
    intro a hcycle
    have hnode : g.hasNode a = true :=
      hasNode_of_onCycle (Relation.TransGen.mono (fun _ _ h => h.1) _ _ hcycle)
    refine hs.acyclic ((hclosed a).mpr (mem_keys_iff_hasNode.mpr hnode))
      (Relation.TransGen.mono ?_ _ _ hcycle)
    rintro b c ⟨hlink, hnot⟩
    have hb : g.hasNode b = true := hlink.choose_spec.2.2.2.1
    exact ⟨(mem_linked hb).mpr hlink, fun hmem => hnot ((hback (b, c)).mpr hmem)⟩
  constructor
  case cyclic =>
    intro scc hscc
    obtain ⟨hloop, a, -, hcomponent⟩ := hswept.kept scc hscc
    exact ⟨a, (hasLoop_iff hcomponent).mp hloop, fun b => (hcomponent.mem b).trans mutual_adj⟩
  case all => exact hall
  case once => exact hswept.apart
  case backEdges =>
    constructor
    · intro hne
      obtain ⟨p, hp⟩ := List.exists_mem_of_ne_nil _ hne
      exact ⟨p.1, honCycle p hp⟩
    · rintro ⟨a, ha⟩ hnil
      refine hacyclic a (Relation.TransGen.mono (fun b c hlink => ⟨hlink, ?_⟩) _ _ ha)
      rw [hnil]
      exact List.not_mem_nil
  case inside =>
    intro p hp
    obtain ⟨hlink, hconnected⟩ := hedge p hp
    obtain ⟨scc, hscc, hmem⟩ := hall p.1 (honCycle p hp)
    exact ⟨hlink, scc, hscc, (hmem p.1).mpr ⟨.refl, .refl⟩, (hmem p.2).mpr hconnected⟩
  case acyclic => exact hacyclic

def loops : Graph := Graph.ofNodes (["a", "b", "c", "d"].map fun id => { id := id })
  ([("a", "b"), ("b", "a"), ("b", "c"), ("c", "c"), ("c", "d"), ("d", "e"), ("e", "d")].map
    fun (a, b) => { fromNode := a, toNode := b })

example : findBackEdges loops = [("c", "c"), ("b", "a")] ∧
    computeSccs loops = [["b", "a"], ["c"]] := by decide +kernel

end Graph

end DotRunner
