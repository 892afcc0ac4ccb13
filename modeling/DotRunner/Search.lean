/-
Worklist search.

The values to visit stand in a queue.  One that was visited is dropped; any other
is visited and its successors join the queue.  The fuel counts the values taken
from the queue, and a finite domain that the search does not leave bounds it.
-/
import Mathlib.Algebra.GroupWithZero.Nat
import Mathlib.Data.List.Basic
import Mathlib.Logic.Relation

namespace Search

universe u

variable {α : Type u} [DecidableEq α]

def collect (next : α → List α) : Nat → List α → List α → List α
  | 0, _, visited => visited
  | _ + 1, [], visited => visited
  | fuel + 1, a :: queue, visited =>
    if a ∈ visited then collect next fuel queue visited
    else collect next fuel (queue ++ next a) (a :: visited)

/-- One step of the search. -/
def Step (next : α → List α) (a b : α) : Prop := b ∈ next a

def Reach (next : α → List α) : α → α → Prop := Relation.ReflTransGen (Step next)

/-- What a search at this point may still take from the queue. -/
def cost (next : α → List α) (domain queue visited : List α) : Nat :=
  queue.length + ((domain.filter fun a => a ∉ visited).map fun a => (next a).length).sum

theorem collect_sound (next : α → List α) (fuel : Nat) (queue visited : List α) {b : α}
    (h : b ∈ collect next fuel queue visited) : b ∈ visited ∨ ∃ a ∈ queue, Reach next a b := by
  induction fuel generalizing queue visited with
  | zero => exact .inl h
  | succ fuel ih =>
    cases queue with
    | nil => exact .inl h
    | cons a queue =>
      rw [collect] at h
      by_cases ha : a ∈ visited
      · rw [if_pos ha] at h
        rcases ih queue visited h with hv | ⟨c, hc, hreach⟩
        · exact .inl hv
        · exact .inr ⟨c, List.mem_cons_of_mem a hc, hreach⟩
      · rw [if_neg ha] at h
        rcases ih _ _ h with hv | ⟨c, hc, hreach⟩
        · rcases List.mem_cons.mp hv with rfl | hv
          · exact .inr ⟨b, List.mem_cons_self, .refl⟩
          · exact .inl hv
        · rcases List.mem_append.mp hc with hc | hc
          · exact .inr ⟨c, List.mem_cons_of_mem a hc, hreach⟩
          · exact .inr ⟨a, List.mem_cons_self, .head hc hreach⟩

theorem sum_filter_visit (f : α → Nat) {a : α} {visited : List α} (ha : a ∉ visited)
    {domain : List α} (hmem : a ∈ domain) :
    ((domain.filter fun b => b ∉ a :: visited).map f).sum + f a ≤
      ((domain.filter fun b => b ∉ visited).map f).sum := by
  have hless : ∀ l : List α, ((l.filter fun b => b ∉ a :: visited).map f).sum ≤
      ((l.filter fun b => b ∉ visited).map f).sum := by
    intro l
    induction l with
    | nil => exact Nat.le_refl 0
    | cons b l ih =>
      by_cases hb : b ∈ visited
      · simpa [List.filter_cons, hb] using ih
      · by_cases hba : b = a
        · simp only [List.filter_cons, hba, ha, List.mem_cons_self, not_true_eq_false, decide_false,
            Bool.false_eq_true, if_false, not_false_eq_true, decide_true, if_true, List.map_cons,
            List.sum_cons]
          omega
        · simpa [List.filter_cons, hb, hba] using ih
  induction domain with
  | nil => exact absurd hmem List.not_mem_nil
  | cons b l ih =>
    by_cases hba : b = a
    · have hrest := hless l
      simp only [List.filter_cons, hba, ha, List.mem_cons_self, not_true_eq_false, decide_false,
        Bool.false_eq_true, if_false, not_false_eq_true, decide_true, if_true, List.map_cons,
        List.sum_cons]
      omega
    · have hrest := ih ((List.mem_cons.mp hmem).resolve_left (Ne.symm hba))
      by_cases hb : b ∈ visited
      · simpa [List.filter_cons, hb] using hrest
      · simp only [List.filter_cons, List.mem_cons, hba, hb, or_self, not_false_eq_true,
          decide_true, if_true, List.map_cons, List.sum_cons]
        simp only [List.mem_cons] at hrest
        omega

section Complete

variable {next : α → List α} {domain : List α} (hclosed : ∀ a ∈ domain, ∀ b ∈ next a, b ∈ domain)

include hclosed

/-- With enough fuel the queue is emptied, and what was visited has no successor outside. -/
theorem collect_closed {fuel : Nat} {queue visited : List α} (hqueue : ∀ a ∈ queue, a ∈ domain)
    (hfuel : cost next domain queue visited ≤ fuel)
    (hvisited : ∀ a ∈ visited, ∀ b ∈ next a, b ∈ visited ∨ b ∈ queue) :
    (∀ a, a ∈ visited ∨ a ∈ queue → a ∈ collect next fuel queue visited) ∧
      ∀ a ∈ collect next fuel queue visited, ∀ b ∈ next a, b ∈ collect next fuel queue visited := by
  induction fuel generalizing queue visited with
  | zero =>
    have hempty : queue = [] := by
      unfold cost at hfuel
      exact List.length_eq_zero_iff.mp (by omega)
    subst hempty
    exact ⟨fun a ha => ha.resolve_right List.not_mem_nil,
      fun a ha b hb => (hvisited a ha b hb).resolve_right List.not_mem_nil⟩
  | succ fuel ih =>
    cases queue with
    | nil =>
      exact ⟨fun a ha => ha.resolve_right List.not_mem_nil,
        fun a ha b hb => (hvisited a ha b hb).resolve_right List.not_mem_nil⟩
    | cons a queue =>
      rw [collect]
      have hrest : ∀ b ∈ queue, b ∈ domain := fun b hb => hqueue b (List.mem_cons_of_mem a hb)
      by_cases ha : a ∈ visited
      · rw [if_pos ha]
        have hcost : cost next domain queue visited ≤ fuel := by
          unfold cost at hfuel ⊢
          rw [List.length_cons] at hfuel
          omega
        obtain ⟨hall, hstep⟩ := ih hrest hcost fun b hb c hc => by
          rcases hvisited b hb c hc with hv | hq
          · exact .inl hv
          · rcases List.mem_cons.mp hq with rfl | hq
            · exact .inl ha
            · exact .inr hq
        refine ⟨fun b hb => hall b ?_, hstep⟩
        rcases hb with hb | hb
        · exact .inl hb
        · rcases List.mem_cons.mp hb with rfl | hb
          · exact .inl ha
          · exact .inr hb
      · rw [if_neg ha]
        have hdomain : a ∈ domain := hqueue a List.mem_cons_self
        have hcost : cost next domain (queue ++ next a) (a :: visited) ≤ fuel := by
          have hsum := sum_filter_visit (fun b => (next b).length) ha hdomain
          unfold cost at hfuel ⊢
          rw [List.length_cons] at hfuel
          rw [List.length_append]
          omega
        have hqueue' : ∀ b ∈ queue ++ next a, b ∈ domain := by
          intro b hb
          rcases List.mem_append.mp hb with hb | hb
          · exact hrest b hb
          · exact hclosed a hdomain b hb
        obtain ⟨hall, hstep⟩ := ih hqueue' hcost fun b hb c hc => by
          rcases List.mem_cons.mp hb with rfl | hb
          · exact .inr (List.mem_append_right _ hc)
          · rcases hvisited b hb c hc with hv | hq
            · exact .inl (List.mem_cons_of_mem a hv)
            · rcases List.mem_cons.mp hq with rfl | hq
              · exact .inl List.mem_cons_self
              · exact .inr (List.mem_append_left _ hq)
        refine ⟨fun b hb => hall b ?_, hstep⟩
        rcases hb with hb | hb
        · exact .inl (List.mem_cons_of_mem a hb)
        · rcases List.mem_cons.mp hb with rfl | hb
          · exact .inl List.mem_cons_self
          · exact .inr (List.mem_append_left _ hb)

/-- A search from one value visits what can be reached from it. -/
theorem mem_collect {a : α} (ha : a ∈ domain) {fuel : Nat} (hfuel : cost next domain [a] [] ≤ fuel)
    (b : α) : b ∈ collect next fuel [a] [] ↔ Reach next a b := by
  constructor
  · intro hb
    rcases collect_sound next fuel [a] [] hb with hb | ⟨c, hc, hreach⟩
    · exact absurd hb List.not_mem_nil
    · obtain rfl := List.mem_singleton.mp hc
      exact hreach
  · obtain ⟨hall, hstep⟩ := collect_closed hclosed
      (fun c hc => (List.mem_singleton.mp hc) ▸ ha) hfuel fun c hc => absurd hc List.not_mem_nil
    intro hreach
    induction hreach with
    | refl => exact hall a (.inr List.mem_cons_self)
    | tail _ hlast ih => exact hstep _ ih _ hlast

end Complete

end Search
