/-
The components of a finished depth-first search.

The values are taken from the one closed last to the one closed first, and from each
that is in no component yet the arcs are followed backwards.  What is met that way is
joined to the value, and nothing else is.
-/
import DotRunner.DepthFirst

namespace Components

open Search (Step Reach)
open DepthFirst (Mutual Ordered)

universe u

variable {α : Type u} [DecidableEq α]

/-- What can be met from the stack and was not visited before, the last met first.  The
fuel counts the values taken from the stack. -/
def flood (next : α → List α) : Nat → List α → List α × List α → List α × List α
  | 0, _, found => found
  | _ + 1, [], found => found
  | fuel + 1, a :: stack, (visited, component) =>
    if a ∈ visited then flood next fuel stack (visited, component)
    else
      let joining := (next a).filter fun b => b ∉ a :: visited
      flood next fuel (joining.reverse ++ stack) (a :: visited, a :: component)

/-- The component of a value that is in none yet.  It is listed if it is to be kept. -/
def absorb (next : α → List α) (fuel : Nat) (keep : List α → Bool)
    (found : List α × List (List α)) (a : α) : List α × List (List α) :=
  if a ∈ found.1 then found
  else
    let (visited, component) := flood next fuel [a] (found.1, [])
    (visited, if keep component then found.2 ++ [component] else found.2)

def sweep (next : α → List α) (fuel : Nat) (keep : List α → Bool) (order : List α) :
    List α × List (List α) :=
  order.foldl (absorb next fuel keep) ([], [])

/-- A flood that fills what `inside` bounds. -/
structure Flooding (next : α → List α) (before : List α) (inside : α → Prop)
    (stack : List α) (found : List α × List α) : Prop where
  grown : ∀ a ∈ before, a ∈ found.1
  divided : ∀ a ∈ found.1, a ∈ before ∨ a ∈ found.2
  within : ∀ a ∈ found.2, inside a ∧ a ∈ found.1
  distinct : found.2.Nodup
  waiting : ∀ a ∈ stack, a ∈ before ∨ inside a
  closed : ∀ a ∈ found.2, ∀ b ∈ next a, b ∈ found.1 ∨ b ∈ stack

section Flood

variable {next : α → List α} {before : List α} {inside : α → Prop} {domain : List α}
  (hdomain : ∀ a ∈ domain, ∀ b ∈ next a, b ∈ domain)
  (hinside : ∀ a, inside a → ∀ b ∈ next a, b ∈ before ∨ inside b)

omit [DecidableEq α] in
theorem Flooding.skip {a : α} {stack : List α} {found : List α × List α}
    (h : Flooding next before inside (a :: stack) found) (ha : a ∈ found.1) :
    Flooding next before inside stack found where
  grown := h.grown
  divided := h.divided
  within := h.within
  distinct := h.distinct
  waiting := fun b hb => h.waiting b (List.mem_cons_of_mem a hb)
  closed := by
    intro b hb c hc
    rcases h.closed b hb c hc with hc | hc
    · exact .inl hc
    · rcases List.mem_cons.mp hc with rfl | hc
      · exact .inl ha
      · exact .inr hc

include hinside in
theorem Flooding.take {a : α} {stack visited component : List α}
    (h : Flooding next before inside (a :: stack) (visited, component)) (ha : a ∉ visited) :
    Flooding next before inside
      (((next a).filter fun b => b ∉ a :: visited).reverse ++ stack)
      (a :: visited, a :: component) := by
  have hin : inside a :=
    (h.waiting a List.mem_cons_self).resolve_left fun hb => ha (h.grown a hb)
  constructor
  case grown => exact fun b hb => List.mem_cons_of_mem a (h.grown b hb)
  case divided =>
    intro b hb
    rcases List.mem_cons.mp hb with rfl | hb
    · exact .inr List.mem_cons_self
    · exact (h.divided b hb).imp_right (List.mem_cons_of_mem a)
  case within =>
    intro b hb
    rcases List.mem_cons.mp hb with rfl | hb
    · exact ⟨hin, List.mem_cons_self⟩
    · exact ⟨(h.within b hb).1, List.mem_cons_of_mem a (h.within b hb).2⟩
  case distinct =>
    exact List.nodup_cons.mpr ⟨fun hb => ha (h.within a hb).2, h.distinct⟩
  case waiting =>
    intro b hb
    rcases List.mem_append.mp hb with hb | hb
    · exact hinside a hin b (List.mem_of_mem_filter (List.mem_reverse.mp hb))
    · exact h.waiting b (List.mem_cons_of_mem a hb)
  case closed =>
    intro b hb c hc
    by_cases hmet : c ∈ a :: visited
    · exact .inl hmet
    right
    rcases List.mem_cons.mp hb with rfl | hb
    · have hjoins : c ∈ (next b).filter fun d => d ∉ b :: visited :=
        List.mem_filter.mpr ⟨hc, decide_eq_true hmet⟩
      exact List.mem_append_left _ (List.mem_reverse.mpr hjoins)
    · rcases h.closed b hb c hc with hc | hc
      · exact absurd (List.mem_cons_of_mem a hc) hmet
      · rcases List.mem_cons.mp hc with rfl | hc
        · exact absurd List.mem_cons_self hmet
        · exact List.mem_append_right _ hc

include hdomain hinside in
/-- With enough fuel the flood ends, and what stood on the stack is visited. -/
theorem Flooding.run {fuel : Nat} {stack : List α} {found : List α × List α}
    (h : Flooding next before inside stack found) (hstack : ∀ a ∈ stack, a ∈ domain)
    (hfuel : Search.cost next domain stack found.1 ≤ fuel) :
    Flooding next before inside [] (flood next fuel stack found) ∧
      ∀ a, a ∈ found.1 ∨ a ∈ stack → a ∈ (flood next fuel stack found).1 := by
  induction fuel generalizing stack found with
  | zero =>
    have hempty : stack = [] := by
      unfold Search.cost at hfuel
      exact List.length_eq_zero_iff.mp (by omega)
    subst hempty
    exact ⟨h, fun a ha => ha.resolve_right List.not_mem_nil⟩
  | succ fuel ih =>
    cases stack with
    | nil => exact ⟨h, fun a ha => ha.resolve_right List.not_mem_nil⟩
    | cons a stack =>
      obtain ⟨visited, component⟩ := found
      have hrest : ∀ b ∈ stack, b ∈ domain := fun b hb => hstack b (List.mem_cons_of_mem a hb)
      rw [flood]
      by_cases ha : a ∈ visited
      · rw [if_pos ha]
        have hcost : Search.cost next domain stack visited ≤ fuel := by
          simp only [Search.cost] at hfuel ⊢
          rw [List.length_cons] at hfuel
          omega
        obtain ⟨hflooding, hall⟩ := ih (h.skip ha) hrest hcost
        refine ⟨hflooding, fun b hb => hall b ?_⟩
        rcases hb with hb | hb
        · exact .inl hb
        · rcases List.mem_cons.mp hb with rfl | hb
          · exact .inl ha
          · exact .inr hb
      · rw [if_neg ha]
        have hmem : a ∈ domain := hstack a List.mem_cons_self
        have hcost : Search.cost next domain
            (((next a).filter fun b => b ∉ a :: visited).reverse ++ stack) (a :: visited) ≤
              fuel := by
          have hsum := Search.sum_filter_visit (fun b => (next b).length) ha hmem
          have hfilter := List.length_filter_le (fun b => decide (b ∉ a :: visited)) (next a)
          simp only [Search.cost] at hfuel ⊢
          rw [List.length_cons] at hfuel
          rw [List.length_append, List.length_reverse]
          omega
        have hstack' : ∀ b ∈ ((next a).filter fun b => b ∉ a :: visited).reverse ++ stack,
            b ∈ domain := by
          intro b hb
          rcases List.mem_append.mp hb with hb | hb
          · exact hdomain a hmem b (List.mem_of_mem_filter (List.mem_reverse.mp hb))
          · exact hrest b hb
        obtain ⟨hflooding, hall⟩ := ih (h.take hinside ha) hstack' hcost
        refine ⟨hflooding, fun b hb => hall b ?_⟩
        rcases hb with hb | hb
        · exact .inl (List.mem_cons_of_mem a hb)
        · rcases List.mem_cons.mp hb with rfl | hb
          · exact .inl List.mem_cons_self
          · exact .inr (List.mem_append_right _ hb)

end Flood

/-- The list holds what is joined to the value, each once. -/
structure IsComponent (next : α → List α) (a : α) (component : List α) : Prop where
  mem : ∀ b, b ∈ component ↔ Mutual next a b
  nodup : component.Nodup

omit [DecidableEq α] in
theorem IsComponent.of_mutual {next : α → List α} {a b : α} {component : List α}
    (h : IsComponent next a component) (hmutual : Mutual next a b) :
    IsComponent next b component :=
  ⟨fun c => (h.mem c).trans ⟨hmutual.symm.trans, hmutual.trans⟩, h.nodup⟩

section Sweep

variable {next back : α → List α} {domain : List α}
  (hback : ∀ a b, b ∈ back a ↔ a ∈ next b)

include hback

omit [DecidableEq α] in
theorem reach_back {a b : α} : Reach back a b ↔ Reach next b a := by
  constructor
  · intro h
    induction h with
    | refl => exact .refl
    | tail _ harc ih => exact .head ((hback _ _).mp harc) ih
  · intro h
    induction h with
    | refl => exact .refl
    | tail _ harc ih => exact .head ((hback _ _).mpr harc) ih

variable (hdomain : ∀ a ∈ domain, ∀ b ∈ back a, b ∈ domain)

include hdomain

/-- What reaches the value and is in no component yet is joined to it, where all that was
closed after it is in one. -/
theorem isComponent_flood {visited : List α} {a : α} (ha : a ∈ domain) (hnew : a ∉ visited)
    (hvisited : ∀ b ∈ visited, ∀ c, Mutual next b c → c ∈ visited)
    (horder : ∀ b, b ∉ visited → Reach next b a → Mutual next a b) {fuel : Nat}
    (hfuel : Search.cost back domain [a] visited ≤ fuel) :
    IsComponent next a (flood back fuel [a] (visited, [])).2 ∧
      ∀ b, b ∈ (flood back fuel [a] (visited, [])).1 ↔ b ∈ visited ∨ Mutual next a b := by
  have hinside : ∀ b, Mutual next a b → ∀ c ∈ back b, c ∈ visited ∨ Mutual next a c := by
    intro b hb c hc
    by_cases hmem : c ∈ visited
    · exact .inl hmem
    · exact .inr (horder c hmem (.head ((hback b c).mp hc) hb.2))
  have hstart : Flooding back visited (Mutual next a) [a] (visited, []) := by
    refine ⟨fun _ hb => hb, fun _ hb => .inl hb, fun _ hb => absurd hb List.not_mem_nil,
      List.nodup_nil, fun b hb => ?_, fun _ hb => absurd hb List.not_mem_nil⟩
    obtain rfl := List.mem_singleton.mp hb
    exact .inr (.refl b)
  obtain ⟨hflood, hall⟩ := hstart.run hdomain hinside
    (fun b hb => (List.mem_singleton.mp hb) ▸ ha) hfuel
  have hjoined : ∀ b, Mutual next a b → b ∉ visited := fun b hb hmem =>
    hnew (hvisited b hmem a hb.symm)
  have hfilled : ∀ b, Reach back a b → Mutual next a b →
      b ∈ (flood back fuel [a] (visited, [])).2 := by
    intro b hreach
    induction hreach with
    | refl =>
      intro _
      exact (hflood.divided a (hall a (.inr List.mem_cons_self))).resolve_left hnew
    | @tail b c hab hbc ih =>
      intro hc
      have hb : Mutual next a b :=
        ⟨hc.1.tail ((hback b c).mp hbc), (reach_back hback).mp hab⟩
      have hmet := (hflood.closed b (ih hb) c hbc).resolve_right List.not_mem_nil
      exact (hflood.divided c hmet).resolve_left (hjoined c hc)
  have hmem : ∀ b, b ∈ (flood back fuel [a] (visited, [])).2 ↔ Mutual next a b := fun b =>
    ⟨fun hb => (hflood.within b hb).1, fun hb => hfilled b ((reach_back hback).mpr hb.2) hb⟩
  refine ⟨⟨hmem, hflood.distinct⟩, fun b => ⟨fun hb => ?_, fun hb => ?_⟩⟩
  · exact (hflood.divided b hb).imp_right (hmem b).mp
  · rcases hb with hb | hb
    · exact hflood.grown b hb
    · exact (hflood.within b ((hmem b).mpr hb)).2

/-- What a sweep has found after some of the order. -/
structure Swept (next : α → List α) (keep : List α → Bool) (order : List α)
    (found : List α × List (List α)) : Prop where
  visited : ∀ b, b ∈ found.1 ↔ ∃ a ∈ order, Mutual next a b
  kept : ∀ c ∈ found.2, keep c = true ∧ ∃ a ∈ order, IsComponent next a c
  all : ∀ a ∈ order, ∃ c, IsComponent next a c ∧ (keep c = true → c ∈ found.2)
  apart : found.2.Pairwise List.Disjoint

omit [DecidableEq α] hback hdomain in
theorem exists_of_ordered {closed earlier : List α} {a : α}
    (h : Ordered next (closed ++ a :: earlier)) {b : α} (hreach : Reach next b a) :
    ∃ c, c ∉ earlier ∧ Mutual next b c := by
  induction closed with
  | nil => exact h.1 b hreach
  | cons d closed ih => exact ih h.2

theorem Swept.absorb {keep : List α → Bool} {order earlier : List α}
    {found : List α × List (List α)} {a : α} (h : Swept next keep order found)
    (hordered : Ordered next (order ++ a :: earlier))
    (hcovers : ∀ b, b ∈ domain ↔ b ∈ order ++ a :: earlier) {fuel : Nat}
    (hfuel : 1 + (domain.map fun b => (back b).length).sum ≤ fuel) :
    Swept next keep (order ++ [a]) (absorb back fuel keep found a) := by
  unfold Components.absorb
  by_cases hmem : a ∈ found.1
  · -- The value is in a component already.
    rw [if_pos hmem]
    obtain ⟨b, hb, hmutual⟩ := (h.visited a).mp hmem
    constructor
    case visited =>
      intro c
      refine (h.visited c).trans ⟨fun ⟨d, hd, hc⟩ => ⟨d, List.mem_append_left _ hd, hc⟩, ?_⟩
      rintro ⟨d, hd, hc⟩
      rcases List.mem_append.mp hd with hd | hd
      · exact ⟨d, hd, hc⟩
      · obtain rfl := List.mem_singleton.mp hd
        exact ⟨b, hb, hmutual.trans hc⟩
    case kept =>
      intro c hc
      obtain ⟨hkeep, d, hd, hcomponent⟩ := h.kept c hc
      exact ⟨hkeep, d, List.mem_append_left _ hd, hcomponent⟩
    case all =>
      intro d hd
      rcases List.mem_append.mp hd with hd | hd
      · exact h.all d hd
      · obtain rfl := List.mem_singleton.mp hd
        obtain ⟨c, hcomponent, hlisted⟩ := h.all b hb
        exact ⟨c, hcomponent.of_mutual hmutual, hlisted⟩
    case apart => exact h.apart
  · rw [if_neg hmem]
    have ha : a ∈ domain := (hcovers a).mpr (List.mem_append_right _ List.mem_cons_self)
    have hclosed : ∀ b ∈ found.1, ∀ c, Mutual next b c → c ∈ found.1 := by
      intro b hb c hc
      obtain ⟨d, hd, hmutual⟩ := (h.visited b).mp hb
      exact (h.visited c).mpr ⟨d, hd, hmutual.trans hc⟩
    have hlast : ∀ b, b ∉ found.1 → Reach next b a → Mutual next a b := by
      intro b hb hreach
      obtain ⟨c, hc, hmutual⟩ := exists_of_ordered hordered hreach
      have hdomain' : ∀ d, Reach back a d → d ∈ domain := by
        intro d hd
        induction hd with
        | refl => exact ha
        | tail _ harc ih => exact hdomain _ ih _ harc
      have hcdomain := hdomain' c ((reach_back hback).mpr (hmutual.2.trans hreach))
      rcases List.mem_append.mp ((hcovers c).mp hcdomain) with hbefore | hafter
      · exact absurd ((h.visited b).mpr ⟨c, hbefore, hmutual.symm⟩) hb
      · rcases List.mem_cons.mp hafter with rfl | hafter
        · exact hmutual.symm
        · exact absurd hafter hc
    have hcost : Search.cost back domain [a] found.1 ≤ fuel := by
      have hsum : ((domain.filter fun b => b ∉ found.1).map fun b => (back b).length).sum ≤
          (domain.map fun b => (back b).length).sum :=
        (List.filter_sublist.map _).sum_le_sum fun _ _ => Nat.zero_le _
      rw [Search.cost, List.length_singleton]
      omega
    obtain ⟨hcomponent, hvisited⟩ :=
      isComponent_flood hback hdomain ha hmem hclosed hlast hcost
    generalize flood back fuel [a] (found.1, []) = new at hcomponent hvisited
    have hlisted : ∀ c, c ∈ (if keep new.2 then found.2 ++ [new.2] else found.2) ↔
        c ∈ found.2 ∨ c = new.2 ∧ keep new.2 = true := by
      intro c
      split <;> simp_all
    constructor
    case visited =>
      intro c
      refine (hvisited c).trans ⟨fun hc => ?_, fun ⟨d, hd, hc⟩ => ?_⟩
      · rcases hc with hc | hc
        · obtain ⟨d, hd, hc⟩ := (h.visited c).mp hc
          exact ⟨d, List.mem_append_left _ hd, hc⟩
        · exact ⟨a, List.mem_append_right _ List.mem_cons_self, hc⟩
      · rcases List.mem_append.mp hd with hd | hd
        · exact .inl ((h.visited c).mpr ⟨d, hd, hc⟩)
        · obtain rfl := List.mem_singleton.mp hd
          exact .inr hc
    case kept =>
      intro c hc
      rcases (hlisted c).mp hc with hc | ⟨rfl, hkeep⟩
      · obtain ⟨hkeep, d, hd, hcomponent⟩ := h.kept c hc
        exact ⟨hkeep, d, List.mem_append_left _ hd, hcomponent⟩
      · exact ⟨hkeep, a, List.mem_append_right _ List.mem_cons_self, hcomponent⟩
    case all =>
      intro d hd
      rcases List.mem_append.mp hd with hd | hd
      · obtain ⟨c, hc, hkept⟩ := h.all d hd
        exact ⟨c, hc, fun hkeep => (hlisted c).mpr (.inl (hkept hkeep))⟩
      · obtain rfl := List.mem_singleton.mp hd
        exact ⟨new.2, hcomponent, fun hkeep => (hlisted new.2).mpr (.inr ⟨rfl, hkeep⟩)⟩
    case apart =>
      have hnew : ∀ c ∈ found.2, c.Disjoint new.2 := by
        intro c hc b hb hb'
        obtain ⟨-, d, hd, hold⟩ := h.kept c hc
        have hmet : b ∈ found.1 := (h.visited b).mpr ⟨d, hd, (hold.mem b).mp hb⟩
        exact hmem (hclosed b hmet a ((hcomponent.mem b).mp hb').symm)
      show List.Pairwise List.Disjoint (if keep new.2 then found.2 ++ [new.2] else found.2)
      split
      · refine List.pairwise_append.mpr ⟨h.apart, List.pairwise_singleton .., ?_⟩
        intro c hc d hd
        obtain rfl := List.mem_singleton.mp hd
        exact hnew c hc
      · exact h.apart

theorem swept_sweep {order : List α} (hordered : Ordered next order)
    (hcovers : ∀ a, a ∈ domain ↔ a ∈ order) {keep : List α → Bool} {fuel : Nat}
    (hfuel : 1 + (domain.map fun b => (back b).length).sum ≤ fuel) :
    Swept next keep order (sweep back fuel keep order) := by
  have hrun : ∀ rest done found, order = done ++ rest → Swept next keep done found →
      Swept next keep order (rest.foldl (absorb back fuel keep) found) := by
    intro rest
    induction rest with
    | nil =>
      intro done found heq h
      rw [heq, List.append_nil]
      exact h
    | cons a rest ih =>
      intro done found heq h
      have hstep := h.absorb hback hdomain (heq ▸ hordered) (fun b => heq ▸ hcovers b) hfuel
      exact ih (done ++ [a]) _ (by rw [heq, List.append_assoc]; rfl) hstep
  refine hrun order [] ([], []) rfl ⟨fun b => ?_, fun c hc => ?_, fun a ha => ?_, .nil⟩
  · simp
  · exact absurd hc List.not_mem_nil
  · exact absurd ha List.not_mem_nil

end Sweep

end Components
