import DotRunner.Graph
import Mathlib.Data.List.MinMax

/-!
# Fan-in discovery

The node a walk continues at after a parallel node: the shallowest common
descendant of its branches.
-/

namespace DotRunner

open Py

/-- The order in which one process iterates over a set of strings.  It is a
permutation of the members and otherwise unknown: string hashes are seeded
anew in every process. -/
structure SetOrder where
  iter : List String → List String
  perm : ∀ l, (iter l).Perm l

namespace SetOrder

def insertion : SetOrder := ⟨id, fun _ => .refl _⟩

def backwards : SetOrder := ⟨List.reverse, fun l => l.reverse_perm⟩

theorem mem_iter (ord : SetOrder) {l : List String} {x : String} : x ∈ ord.iter l ↔ x ∈ l :=
  (ord.perm l).mem_iff

end SetOrder

/-- The breadth-first search, one queue entry at a time. -/
def bfs (next : String → List String) :
    Nat → List (String × Nat) → Dict String Nat → Dict String Nat
  | 0, _, visited => visited
  | _ + 1, [], visited => visited
  | fuel + 1, (nodeId, depth) :: queue, visited =>
    if visited.contains nodeId then bfs next fuel queue visited
    else
      let visited' := visited.set nodeId depth
      let found := ((next nodeId).filter fun v => !visited'.contains v).map fun v => (v, depth + 1)
      bfs next fuel (queue ++ found) visited'

/-- What holds of the queue and is handed on to the successors holds of every node visited. -/
theorem bfs_keys {next : String → List String} {P : String → Prop}
    (hnext : ∀ v, P v → ∀ u ∈ next v, P u) (fuel : Nat) (queue : List (String × Nat))
    (visited : Dict String Nat) (hq : ∀ v ∈ queue, P v.1) (hv : ∀ v ∈ visited.keys, P v) :
    ∀ v ∈ (bfs next fuel queue visited).keys, P v := by
  induction fuel generalizing queue visited with
  | zero => exact hv
  | succ fuel ih =>
    cases queue with
    | nil => exact hv
    | cons entry queue =>
      obtain ⟨nodeId, depth⟩ := entry
      have hnode : P nodeId := hq _ List.mem_cons_self
      have hrest : ∀ v ∈ queue, P v.1 := fun v h => hq v (List.mem_cons_of_mem _ h)
      rw [bfs]
      by_cases hseen : visited.contains nodeId = true
      · rw [if_pos hseen]
        exact ih queue visited hrest hv
      · rw [if_neg hseen]
        refine ih _ _ (fun v h => ?_) (fun v h => ?_)
        · rcases List.mem_append.mp h with h | h
          · exact hrest v h
          · obtain ⟨u, hu, rfl⟩ := List.mem_map.mp h
            exact hnext nodeId hnode u (List.mem_of_mem_filter hu)
        · rcases (Dict.mem_keys_set visited nodeId depth v).mp h with rfl | h
          · exact hnode
          · exact hv v h

namespace Graph

def successors (g : Graph) (nodeId : String) : List String :=
  (g.outgoingEdges nodeId).map Edge.toNode

/-- The depth of every node reachable from a branch root.  Every edge puts at
most one entry on the queue, besides the root. -/
def reachableFrom (g : Graph) (root : String) : Dict String Nat :=
  bfs g.successors (g.edges.length + 2) [(root, 0)] Dict.empty

/-- The nodes every branch reaches, the branch roots left out. -/
def commonDescendants (g : Graph) (roots : List String) : List String :=
  match roots.map g.reachableFrom with
  | [] => []
  | first :: others =>
    first.keys.filter fun n => others.all (·.contains n) && !roots.contains n

/-- `max(r[n] for r in reachable_per_branch)` -/
def maxDepth (g : Graph) (roots : List String) (n : String) : Nat :=
  (roots.map fun root => (g.reachableFrom root).getD n 0).foldl max 0

def findFanInNode (g : Graph) (ord : SetOrder) (roots : List String) : Option String :=
  (ord.iter (g.commonDescendants roots)).argmin (g.maxDepth roots)

/-- A common descendant no other is shallower than. -/
def Shallowest (g : Graph) (roots : List String) (n : String) : Prop :=
  n ∈ g.commonDescendants roots ∧
    ∀ c ∈ g.commonDescendants roots, g.maxDepth roots n ≤ g.maxDepth roots c

/-- No two common descendants are equally shallow. -/
def UnambiguousFanIn (g : Graph) (roots : List String) : Prop :=
  ∀ a ∈ g.commonDescendants roots, ∀ b ∈ g.commonDescendants roots,
    (∀ c ∈ g.commonDescendants roots, g.maxDepth roots a ≤ g.maxDepth roots c) →
    (∀ c ∈ g.commonDescendants roots, g.maxDepth roots b ≤ g.maxDepth roots c) → a = b

theorem findFanInNode_mem {g : Graph} {ord : SetOrder} {roots : List String} {n : String}
    (h : g.findFanInNode ord roots = some n) : n ∈ g.commonDescendants roots :=
  ord.mem_iter.mp (List.argmin_mem h)

/-- A fan-in node lies on a branch, so an edge leads to it. -/
theorem edge_to_findFanInNode {g : Graph} {ord : SetOrder} {nodeId n : String}
    (h : g.findFanInNode ord (g.successors nodeId) = some n) : ∃ e ∈ g.edges, e.toNode = n := by
  have hsucc : ∀ v, ∀ u ∈ g.successors v, ∃ e ∈ g.edges, e.toNode = u := by
    intro v u hu
    obtain ⟨e, he, rfl⟩ := List.mem_map.mp hu
    exact ⟨e, List.mem_of_mem_filter he, rfl⟩
  have hmem := findFanInNode_mem h
  unfold commonDescendants at hmem
  split at hmem
  · exact absurd hmem List.not_mem_nil
  · rename_i first others hroots
    obtain ⟨root, hroot, rfl⟩ := List.mem_map.mp (hroots ▸ List.mem_cons_self : first ∈ _)
    refine bfs_keys (fun v _ u hu => hsucc v u hu) _ _ _ (fun v hv => ?_)
      (fun v hv => absurd hv List.not_mem_nil) n (List.mem_of_mem_filter hmem)
    rw [List.mem_singleton.mp hv]
    exact hsucc nodeId root hroot

theorem findFanInNode_le {g : Graph} {ord : SetOrder} {roots : List String} {n : String}
    (h : g.findFanInNode ord roots = some n) :
    ∀ c ∈ g.commonDescendants roots, g.maxDepth roots n ≤ g.maxDepth roots c :=
  fun _ hc => List.le_of_mem_argmin (ord.mem_iter.mpr hc) h

theorem findFanInNode_shallowest {g : Graph} {ord : SetOrder} {roots : List String} {n : String}
    (h : g.findFanInNode ord roots = some n) : g.Shallowest roots n :=
  ⟨findFanInNode_mem h, findFanInNode_le h⟩

/-- Every shallowest common descendant is the choice of some process. -/
theorem exists_findFanInNode {g : Graph} {roots : List String} {n : String}
    (h : g.Shallowest roots n) : ∃ ord, g.findFanInNode ord roots = some n := by
  have hperm : ∀ l : List String, (if n ∈ l then n :: l.erase n else l).Perm l := by
    intro l
    by_cases hn : n ∈ l
    · rw [if_pos hn]
      exact (List.perm_cons_erase hn).symm
    · rw [if_neg hn]
  refine ⟨⟨fun l => if n ∈ l then n :: l.erase n else l, hperm⟩, ?_⟩
  show List.argmin (g.maxDepth roots) (if n ∈ g.commonDescendants roots then
    n :: (g.commonDescendants roots).erase n else g.commonDescendants roots) = some n
  rw [if_pos h.1, List.argmin_cons]
  cases hrest : List.argmin (g.maxDepth roots) ((g.commonDescendants roots).erase n) with
  | none => rfl
  | some c =>
    have hc : c ∈ g.commonDescendants roots := List.mem_of_mem_erase (List.argmin_mem hrest)
    exact if_neg (Nat.not_lt.mpr (h.2 c hc))

theorem findFanInNode_eq_none {g : Graph} {ord : SetOrder} {roots : List String} :
    g.findFanInNode ord roots = none ↔ g.commonDescendants roots = [] := by
  rw [findFanInNode, List.argmin_eq_none]
  exact ⟨fun h => List.Perm.eq_nil (h ▸ (ord.perm _).symm), fun h => by
    have hp := ord.perm (g.commonDescendants roots)
    rw [h] at hp ⊢
    exact hp.eq_nil⟩

/-- Without a tie the choice is the same whatever the iteration order. -/
theorem findFanInNode_eq {g : Graph} {roots : List String} (h : g.UnambiguousFanIn roots)
    (ord ord' : SetOrder) : g.findFanInNode ord roots = g.findFanInNode ord' roots := by
  cases ha : g.findFanInNode ord roots with
  | none => exact (findFanInNode_eq_none.mpr (findFanInNode_eq_none.mp ha)).symm
  | some a =>
    cases hb : g.findFanInNode ord' roots with
    | none =>
      have hnil := findFanInNode_eq_none.mp hb
      have hmem := findFanInNode_mem ha
      rw [hnil] at hmem
      exact absurd hmem List.not_mem_nil
    | some b =>
      have hab : a = b := h a (findFanInNode_mem ha) b (findFanInNode_mem hb)
        (findFanInNode_le ha) (findFanInNode_le hb)
      rw [hab]

end Graph

end DotRunner
