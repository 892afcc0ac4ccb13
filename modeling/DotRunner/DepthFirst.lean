/-
Depth-first search with its stack.

The open values stand on a stack, each with those of its successors that were not
looked at yet.  A value is closed when none is left.  A successor that is still open
is an arc back.  What the order of closing says about the arcs, and about the values
that reach one another, holds at every point of the search.
-/
import DotRunner.Search
import Mathlib.Algebra.Order.BigOperators.Group.List
import Mathlib.Algebra.Order.Group.Nat
import Mathlib.Logic.Function.Iterate

namespace DepthFirst

open Search (Step Reach)

universe u

variable {α : Type u}

structure State (α : Type u) where
  opened : List (α × List α) := []
  closed : List α := []
  back : List (α × α) := []

namespace State

def path (s : State α) : List α := s.opened.map Prod.fst

/-- The values met so far. -/
def met (s : State α) : List α := s.path ++ s.closed

def start (next : α → List α) (s : State α) (a : α) : State α :=
  { s with opened := [(a, next a)] }

/-- One successor is looked at, or the value on top is closed. -/
def advance [DecidableEq α] (next : α → List α) (s : State α) : State α :=
  match s.opened with
  | [] => s
  | (a, []) :: below => { s with opened := below, closed := a :: s.closed }
  | (a, b :: rest) :: below =>
    if b ∈ s.path then { s with opened := (a, rest) :: below, back := (a, b) :: s.back }
    else if b ∈ s.closed then { s with opened := (a, rest) :: below }
    else { s with opened := (b, next b) :: (a, rest) :: below }

end State

/-- The two values reach one another. -/
def Mutual (next : α → List α) (a b : α) : Prop := Reach next a b ∧ Reach next b a

section Mutual

variable {next : α → List α} {a b c : α}

theorem Mutual.refl (a : α) : Mutual next a a := ⟨.refl, .refl⟩

theorem Mutual.symm (h : Mutual next a b) : Mutual next b a := ⟨h.2, h.1⟩

theorem Mutual.trans (h : Mutual next a b) (h' : Mutual next b c) : Mutual next a c :=
  ⟨h.1.trans h'.1, h'.2.trans h.2⟩

end Mutual

/-- A later value of the list was closed earlier: an arc from a closed value leads to one
closed before it, or back. -/
def Falls (next : α → List α) (back : List (α × α)) : List α → Prop
  | [] => True
  | a :: earlier => (∀ b ∈ next a, (a, b) ∈ back ∨ b ∈ earlier) ∧ Falls next back earlier

/-- What reaches a closed value is joined to a value that was not closed before it. -/
def Ordered (next : α → List α) : List α → Prop
  | [] => True
  | a :: earlier =>
    (∀ b, Reach next b a → ∃ c, c ∉ earlier ∧ Mutual next b c) ∧ Ordered next earlier

/-- Every open value has looked at the successors it has no longer to look at. -/
def Looked (next : α → List α) (back : List (α × α)) (closed : List α) :
    Option α → List (α × List α) → Prop
  | _, [] => True
  | child, (a, rest) :: below =>
    (∀ b ∈ next a, b ∈ rest ∨ (a, b) ∈ back ∨ b ∈ closed ∨ some b = child) ∧
      Looked next back closed (some a) below

structure Sound (next : α → List α) (s : State α) : Prop where
  fresh : s.met.Nodup
  path : s.path.Pairwise fun a b => Reach next b a
  remaining : ∀ f ∈ s.opened, ∀ b ∈ f.2, b ∈ next f.1
  looked : Looked next s.back s.closed none s.opened
  settled : ∀ a ∈ s.closed, ∀ b ∈ next a, b ∈ s.met
  falls : Falls next s.back s.closed
  back : ∀ p ∈ s.back, p.2 ∈ next p.1 ∧ Reach next p.2 p.1
  backMet : ∀ p ∈ s.back, p.2 ∈ s.met
  joined : ∀ a ∈ s.closed, ∀ b, Reach next a b → b ∈ s.closed ∨ ∃ c ∈ s.path, Mutual next a c
  ordered : Ordered next s.closed

section Steps

variable {next : α → List α} {s s' : State α} {a b : α} {rest : List α}
  {below : List (α × List α)}

theorem State.mem_met {a : α} : a ∈ s.met ↔ a ∈ s.path ∨ a ∈ s.closed := List.mem_append

theorem State.path_eq {rest' : List α} (ho : s.opened = (a, rest) :: below)
    (ho' : s'.opened = (a, rest') :: below) : s'.path = s.path := by
  rw [State.path, State.path, ho, ho']
  rfl

theorem Falls.mono {back back' : List (α × α)} (hback : ∀ p ∈ back, p ∈ back') {l : List α}
    (h : Falls next back l) : Falls next back' l := by
  induction l with
  | nil => trivial
  | cons a l ih =>
    obtain ⟨harcs, hrest⟩ := h
    exact ⟨fun b hb => (harcs b hb).imp_left (hback _), ih hrest⟩

theorem Looked.mono {back back' : List (α × α)} {closed closed' : List α}
    {child child' : Option α} {l : List (α × List α)}
    (hback : ∀ p ∈ back, p ∈ back') (hclosed : ∀ a ∈ closed, a ∈ closed')
    (hchild : ∀ a, some a = child → some a = child' ∨ a ∈ closed')
    (h : Looked next back closed child l) : Looked next back' closed' child' l := by
  induction l generalizing child child' with
  | nil => trivial
  | cons f l ih =>
    obtain ⟨hlooked, hbelow⟩ := h
    refine ⟨fun b hb => ?_, ih (fun _ hc => .inl hc) hbelow⟩
    rcases hlooked b hb with hrest | hb | hc | hc
    · exact .inl hrest
    · exact .inr (.inl (hback _ hb))
    · exact .inr (.inr (.inl (hclosed b hc)))
    · rcases hchild b hc with hc | hc
      · exact .inr (.inr (.inr hc))
      · exact .inr (.inr (.inl hc))

/-- Every value on the stack reaches the one on top. -/
theorem Sound.reach_top (h : Sound next s) (ho : s.opened = (a, rest) :: below) (hb : b ∈ s.path) :
    Reach next b a := by
  have hpath := h.path
  have htop : s.path = a :: below.map Prod.fst := by rw [State.path, ho]; rfl
  rw [htop] at hb hpath
  rcases List.mem_cons.mp hb with rfl | hb
  · exact .refl
  · exact List.rel_of_pairwise_cons hpath hb

theorem Sound.look (h : Sound next s) (ho : s.opened = (a, b :: rest) :: below)
    (ho' : s'.opened = (a, rest) :: below) (hc : s'.closed = s.closed)
    (hsub : ∀ p ∈ s.back, p ∈ s'.back)
    (hnew : ∀ p ∈ s'.back, p ∈ s.back ∨ p = (a, b) ∧ b ∈ s.path)
    (hb : (a, b) ∈ s'.back ∨ b ∈ s.closed) : Sound next s' := by
  have hpath : s'.path = s.path := State.path_eq ho ho'
  have hmet : s'.met = s.met := by rw [State.met, State.met, hpath, hc]
  have harc : b ∈ next a := h.remaining _ (ho ▸ List.mem_cons_self) b List.mem_cons_self
  constructor
  case fresh => exact hmet ▸ h.fresh
  case path => exact hpath ▸ h.path
  case remaining =>
    intro f hf d hd
    rw [ho'] at hf
    rcases List.mem_cons.mp hf with rfl | hf
    · exact h.remaining (a, b :: rest) (ho ▸ List.mem_cons_self) d (List.mem_cons_of_mem b hd)
    · exact h.remaining f (ho ▸ List.mem_cons_of_mem _ hf) d hd
  case looked =>
    have hlooked := h.looked
    rw [ho] at hlooked
    obtain ⟨htop, hbelow⟩ := hlooked
    rw [ho']
    refine ⟨fun d hd => ?_, hbelow.mono hsub (fun _ hd => hc ▸ hd) fun _ hd => .inl hd⟩
    rcases htop d hd with hrest | hd | hd | hd
    · rcases List.mem_cons.mp hrest with rfl | hrest
      · exact .inr (hb.imp_right fun hb => .inl (hc ▸ hb))
      · exact .inl hrest
    · exact .inr (.inl (hsub _ hd))
    · exact .inr (.inr (.inl (hc ▸ hd)))
    · exact (nomatch hd)
  case settled =>
    rw [hc, hmet]
    exact h.settled
  case falls =>
    rw [hc]
    exact h.falls.mono hsub
  case back =>
    intro p hp
    rcases hnew p hp with hp | ⟨rfl, hopen⟩
    · exact h.back p hp
    · exact ⟨harc, h.reach_top ho hopen⟩
  case backMet =>
    intro p hp
    rw [hmet]
    rcases hnew p hp with hp | ⟨rfl, hopen⟩
    · exact h.backMet p hp
    · exact State.mem_met.mpr (.inl hopen)
  case joined =>
    rw [hc, hpath]
    exact h.joined
  case ordered => exact hc ▸ h.ordered

theorem Sound.descend (h : Sound next s) (ho : s.opened = (a, b :: rest) :: below)
    (hb : b ∉ s.met) :
    Sound next { s with opened := (b, next b) :: (a, rest) :: below } := by
  have hpath : s.path = a :: below.map Prod.fst := by rw [State.path, ho]; rfl
  have harc : b ∈ next a := h.remaining _ (ho ▸ List.mem_cons_self) b List.mem_cons_self
  have hmet : ∀ {d : α}, d ∈ s.met → d ∈ b :: a :: below.map Prod.fst ++ s.closed := by
    intro d hd
    rw [State.met, hpath] at hd
    exact List.mem_cons_of_mem b hd
  constructor
  case fresh =>
    have hnodup : (b :: s.met).Nodup := List.nodup_cons.mpr ⟨hb, h.fresh⟩
    rw [State.met, hpath] at hnodup
    exact hnodup
  case path =>
    have hcons : (b :: s.path).Pairwise fun a b => Reach next b a :=
      List.pairwise_cons.mpr ⟨fun c hc => (h.reach_top ho hc).tail harc, h.path⟩
    rw [hpath] at hcons
    exact hcons
  case remaining =>
    intro f hf d hd
    rcases List.mem_cons.mp hf with rfl | hf
    · exact hd
    rcases List.mem_cons.mp hf with rfl | hf
    · exact h.remaining (a, b :: rest) (ho ▸ List.mem_cons_self) d (List.mem_cons_of_mem b hd)
    · exact h.remaining f (ho ▸ List.mem_cons_of_mem _ hf) d hd
  case looked =>
    have hlooked := h.looked
    rw [ho] at hlooked
    obtain ⟨htop, hbelow⟩ := hlooked
    refine ⟨fun d hd => .inl hd, fun d hd => ?_, hbelow⟩
    rcases htop d hd with hrest | hd | hd | hd
    · rcases List.mem_cons.mp hrest with rfl | hrest
      · exact .inr (.inr (.inr rfl))
      · exact .inl hrest
    · exact .inr (.inl hd)
    · exact .inr (.inr (.inl hd))
    · exact (nomatch hd)
  case settled => exact fun c hc d hd => hmet (h.settled c hc d hd)
  case falls => exact h.falls
  case back => exact h.back
  case backMet => exact fun p hp => hmet (h.backMet p hp)
  case joined =>
    intro c hc d hd
    rcases h.joined c hc d hd with hd | ⟨e, he, hmutual⟩
    · exact .inl hd
    · rw [hpath] at he
      exact .inr ⟨e, List.mem_cons_of_mem b he, hmutual⟩
  case ordered => exact h.ordered

/-- Where the value on top has no successor left, each is closed or an arc back. -/
theorem Sound.arcs_top (h : Sound next s) (ho : s.opened = (a, []) :: below) (hb : b ∈ next a) :
    (a, b) ∈ s.back ∨ b ∈ s.closed := by
  have hlooked := h.looked
  rw [ho] at hlooked
  rcases hlooked.1 b hb with hrest | hback | hclosed | hchild
  · exact absurd hrest List.not_mem_nil
  · exact .inl hback
  · exact .inr hclosed
  · exact (nomatch hchild)

/-- The value on top is joined to an open value below it, if it reaches one that is not
closed when it is. -/
theorem Sound.joined_top (h : Sound next s) (ho : s.opened = (a, []) :: below) {c : α}
    (hreach : Reach next a c) (hc : c ∉ a :: s.closed) :
    ∃ d ∈ below.map Prod.fst, Mutual next a d := by
  have hpath : s.path = a :: below.map Prod.fst := by rw [State.path, ho]; rfl
  -- The first value on the way that is not closed stands on the stack.
  have hsettled : ∀ d ∈ a :: s.closed, ∀ e ∈ next d, e ∈ s.met := by
    intro d hd e he
    rcases List.mem_cons.mp hd with rfl | hd
    · rcases h.arcs_top ho he with hback | hclosed
      · exact h.backMet _ hback
      · exact State.mem_met.mpr (.inr hclosed)
    · exact h.settled d hd e he
  have hfirst : ∀ d, Reach next a d → d ∈ a :: s.closed ∨
      ∃ e ∈ below.map Prod.fst, Reach next a e := by
    intro d hd
    induction hd with
    | refl => exact .inl List.mem_cons_self
    | @tail d e hd hde ih =>
      rcases ih with hclosed | hopen
      · have hmet := hsettled d hclosed e hde
        rw [State.met, hpath, List.cons_append] at hmet
        rcases List.mem_cons.mp hmet with rfl | hmet
        · exact .inl List.mem_cons_self
        rcases List.mem_append.mp hmet with hopen | hclosed
        · exact .inr ⟨e, hopen, hd.tail hde⟩
        · exact .inl (List.mem_cons_of_mem a hclosed)
      · exact .inr hopen
  obtain ⟨d, hd, hreach⟩ := (hfirst c hreach).resolve_left hc
  have hopen : d ∈ s.path := by
    rw [hpath]
    exact List.mem_cons_of_mem a hd
  exact ⟨d, hd, hreach, h.reach_top ho hopen⟩

theorem Sound.close (h : Sound next s) (ho : s.opened = (a, []) :: below) :
    Sound next { s with opened := below, closed := a :: s.closed } := by
  have hpath : s.path = a :: below.map Prod.fst := by rw [State.path, ho]; rfl
  have hmem : ∀ {d : α}, d ∈ s.met → d ∈ below.map Prod.fst ++ a :: s.closed := by
    intro d hd
    rw [State.met, hpath] at hd
    exact List.perm_middle.symm.mem_iff.mp hd
  constructor
  case fresh =>
    have hfresh := h.fresh
    rw [State.met, hpath] at hfresh
    exact (List.perm_middle.nodup_iff).mpr hfresh
  case path =>
    have hpairwise := h.path
    rw [hpath] at hpairwise
    exact (List.pairwise_cons.mp hpairwise).2
  case remaining =>
    exact fun f hf => h.remaining f (ho ▸ List.mem_cons_of_mem _ hf)
  case looked =>
    have hlooked := h.looked
    rw [ho] at hlooked
    refine hlooked.2.mono (fun _ hp => hp) (fun _ hc => List.mem_cons_of_mem a hc) fun b hb => ?_
    obtain rfl := Option.some.inj hb
    exact .inr List.mem_cons_self
  case settled =>
    intro c hc b hb
    apply hmem
    rcases List.mem_cons.mp hc with rfl | hc
    · exact (h.arcs_top ho hb).elim (h.backMet _) fun hb => State.mem_met.mpr (.inr hb)
    · exact h.settled c hc b hb
  case falls => exact ⟨fun _ hb => h.arcs_top ho hb, h.falls⟩
  case back => exact h.back
  case backMet => exact fun p hp => hmem (h.backMet p hp)
  case joined =>
    intro c hc d hreach
    by_cases hd : d ∈ a :: s.closed
    · exact .inl hd
    right
    rcases List.mem_cons.mp hc with rfl | hc
    · exact h.joined_top ho hreach hd
    rcases h.joined c hc d hreach with hclosed | ⟨e, he, hmutual⟩
    · exact absurd (List.mem_cons_of_mem a hclosed) hd
    rw [hpath] at he
    rcases List.mem_cons.mp he with rfl | he
    · -- What was joined to the value on top is joined to what that one is joined to.
      obtain ⟨e', he', hmutual'⟩ := h.joined_top ho (hmutual.2.trans hreach) hd
      exact ⟨e', he', hmutual.trans hmutual'⟩
    · exact ⟨e, he, hmutual⟩
  case ordered =>
    refine ⟨fun b hb => ?_, h.ordered⟩
    by_cases hclosed : b ∈ s.closed
    · have hdisjoint := List.nodup_append.mp h.fresh
      have hopen : ∀ {c : α}, c ∈ s.path → c ∉ s.closed := fun hc hc' =>
        hdisjoint.2.2 _ hc _ hc' rfl
      rcases h.joined b hclosed a hb with ha | ⟨c, hc, hmutual⟩
      · exact absurd ha (hopen (hpath ▸ List.mem_cons_self))
      · exact ⟨c, hopen hc, hmutual⟩
    · exact ⟨b, hclosed, .refl b⟩

theorem Sound.empty : Sound next {} where
  fresh := List.nodup_nil
  path := List.Pairwise.nil
  remaining := fun _ hf => absurd hf List.not_mem_nil
  looked := trivial
  settled := fun _ ha => absurd ha List.not_mem_nil
  falls := trivial
  back := fun _ hp => absurd hp List.not_mem_nil
  backMet := fun _ hp => absurd hp List.not_mem_nil
  joined := fun _ ha => absurd ha List.not_mem_nil
  ordered := trivial

/-- A new search starts where the last one ended. -/
theorem Sound.start (h : Sound next s) (ho : s.opened = []) (ha : a ∉ s.met) :
    Sound next (s.start next a) := by
  have hpath : s.path = [] := by rw [State.path, ho]; rfl
  have hmet : s.met = s.closed := by rw [State.met, hpath]; rfl
  have hgrow : ∀ {b : α}, b ∈ s.met → b ∈ a :: s.closed := fun hb =>
    List.mem_cons_of_mem a (hmet ▸ hb)
  constructor
  case fresh =>
    rw [hmet] at ha
    exact List.nodup_cons.mpr ⟨ha, hmet ▸ h.fresh⟩
  case path => exact List.pairwise_singleton ..
  case remaining =>
    intro f hf b hb
    obtain rfl := List.mem_singleton.mp hf
    exact hb
  case looked => exact ⟨fun b hb => .inl hb, trivial⟩
  case settled => exact fun c hc b hb => hgrow (h.settled c hc b hb)
  case falls => exact h.falls
  case back => exact h.back
  case backMet => exact fun p hp => hgrow (h.backMet p hp)
  case joined =>
    intro c hc b hb
    rcases h.joined c hc b hb with hb | ⟨d, hd, -⟩
    · exact .inl hb
    · rw [hpath] at hd
      exact absurd hd List.not_mem_nil
  case ordered => exact h.ordered

variable [DecidableEq α]

theorem Sound.advance (h : Sound next s) : Sound next (s.advance next) := by
  unfold State.advance
  split
  · exact h
  · rename_i ho
    exact h.close ho
  · rename_i a b rest below ho
    split
    · rename_i hb
      refine h.look ho rfl rfl (fun _ hp => List.mem_cons_of_mem _ hp) (fun p hp => ?_)
        (.inl List.mem_cons_self)
      rcases List.mem_cons.mp hp with rfl | hp
      · exact .inr ⟨rfl, hb⟩
      · exact .inl hp
    split
    · rename_i hb
      exact h.look ho rfl rfl (fun _ hp => hp) (fun _ hp => .inl hp) (.inr hb)
    · rename_i hopen hclosed
      exact h.descend ho fun hb => (State.mem_met.mp hb).elim hopen hclosed

theorem mem_met_advance (ha : a ∈ s.met) : a ∈ (s.advance next).met := by
  unfold State.advance
  split
  · exact ha
  · rename_i ho
    rw [State.met, State.path, ho] at ha
    exact List.perm_middle.symm.mem_iff.mp ha
  · rename_i ho
    rw [State.met, State.path, ho] at ha
    split
    · exact ha
    split
    · exact ha
    · exact List.mem_cons_of_mem _ ha

end Steps

section Cost

variable [DecidableEq α] {next : α → List α} {s : State α} {domain : List α}

/-- What a search at this point has still to do: the successors on the stack to look at and
its values to close, and as much for every value that was not met. -/
def cost (next : α → List α) (domain : List α) (s : State α) : Nat :=
  (s.opened.map fun f => f.2.length + 1).sum +
    ((domain.filter fun a => a ∉ s.met).map fun a => (next a).length + 1).sum

structure Within (domain : List α) (s : State α) : Prop where
  met : ∀ a ∈ s.met, a ∈ domain

theorem cost_congr_met {s s' : State α} (h : ∀ a, a ∈ s.met ↔ a ∈ s'.met) :
    (domain.filter fun a => a ∉ s.met) = domain.filter fun a => a ∉ s'.met := by
  apply List.filter_congr
  intro a _
  rw [decide_eq_decide, h a]

variable (hdomain : ∀ a ∈ domain, ∀ b ∈ next a, b ∈ domain)

include hdomain

theorem Within.advance (h : Within domain s) (hs : Sound next s) :
    Within domain (s.advance next) := by
  constructor
  unfold State.advance
  split
  · exact h.met
  · rename_i ho
    have hmet := h.met
    rw [State.met, State.path, ho] at hmet
    exact fun a ha => hmet a (List.perm_middle.mem_iff.mp ha)
  · rename_i a b rest below ho
    have hmet := h.met
    rw [State.met, State.path, ho] at hmet
    split
    · exact hmet
    split
    · exact hmet
    · intro c hc
      rcases List.mem_cons.mp hc with rfl | hc
      · have harc := hs.remaining _ (ho ▸ List.mem_cons_self) c List.mem_cons_self
        exact hdomain a (hmet a List.mem_cons_self) c harc
      · exact hmet c hc

/-- Every step does some of it. -/
theorem cost_advance (h : Within domain s) (hs : Sound next s) (ho : s.opened ≠ []) :
    cost next domain (s.advance next) < cost next domain s := by
  unfold State.advance
  split
  · contradiction
  · rename_i a below ho
    have hmet : ∀ b, b ∈ s.met ↔
        b ∈ State.met { s with opened := below, closed := a :: s.closed } := by
      intro b
      rw [State.met, State.path, ho]
      exact List.perm_middle.symm.mem_iff
    rw [cost, cost, cost_congr_met hmet, ho, List.map_cons, List.sum_cons]
    simp only [List.length_nil]
    omega
  · rename_i a b rest below ho
    have hmet : ∀ back, s.met =
        State.met { s with opened := (a, rest) :: below, back := back } := by
      intro back
      rw [State.met, State.path, ho]
      rfl
    split
    · rw [cost, cost, cost_congr_met fun c => by rw [hmet], ho]
      simp only [List.map_cons, List.sum_cons, List.length_cons]
      omega
    split
    · rw [cost, cost, cost_congr_met fun c => by rw [hmet], ho]
      simp only [List.map_cons, List.sum_cons, List.length_cons]
      omega
    · rename_i hopen hclosed
      have hb : b ∉ s.met := fun hb => (State.mem_met.mp hb).elim hopen hclosed
      have harc := hs.remaining _ (ho ▸ List.mem_cons_self) b List.mem_cons_self
      have ha : a ∈ s.met := by
        rw [State.met, State.path, ho]
        exact List.mem_cons_self
      have hsum := Search.sum_filter_visit (fun c => (next c).length + 1) hb
        (hdomain a (h.met a ha) b harc)
      have hmet : ∀ c, c ∈ b :: s.met ↔
          c ∈ State.met { s with opened := (b, next b) :: (a, rest) :: below } := by
        intro c
        rw [State.met, State.path, ho]
        rfl
      have hfilter : (domain.filter fun c => c ∉ b :: s.met) = domain.filter fun c =>
          c ∉ State.met { s with opened := (b, next b) :: (a, rest) :: below } := by
        apply List.filter_congr
        intro c _
        rw [decide_eq_decide, hmet c]
      rw [cost, cost, ← hfilter, ho]
      simp only [List.map_cons, List.sum_cons, List.length_cons]
      omega

end Cost

section Runs

/-- The state of a search that has gone some way from another one. -/
structure Onward [DecidableEq α] (next : α → List α) (domain : List α) (s s' : State α) : Prop where
  sound : Sound next s'
  within : Within domain s'
  met : ∀ a ∈ s.met, a ∈ s'.met
  cost : cost next domain s' ≤ cost next domain s

variable [DecidableEq α] {next : α → List α} {domain : List α} {s s' s'' : State α}

theorem Onward.refl (h : Sound next s) (hw : Within domain s) : Onward next domain s s :=
  ⟨h, hw, fun _ ha => ha, Nat.le_refl _⟩

theorem Onward.trans (h : Onward next domain s s') (h' : Onward next domain s' s'') :
    Onward next domain s s'' :=
  ⟨h'.sound, h'.within, fun a ha => h'.met a (h.met a ha), Nat.le_trans h'.cost h.cost⟩

variable (hdomain : ∀ a ∈ domain, ∀ b ∈ next a, b ∈ domain)

include hdomain

theorem after_advance (h : Sound next s) (hw : Within domain s) (ho : s.opened ≠ []) :
    Onward next domain s (s.advance next) where
  sound := h.advance
  within := hw.advance hdomain h
  met := fun _ ha => mem_met_advance ha
  cost := Nat.le_of_lt (cost_advance hdomain hw h ho)

omit hdomain in
theorem cost_start_le {a : α} (ha : a ∈ domain) (hmet : a ∉ s.met) (ho : s.opened = []) :
    cost next domain (s.start next a) ≤ (domain.map fun b => (next b).length + 1).sum := by
  have hfilter : (domain.filter fun b => b ∉ a :: s.met) =
      domain.filter fun b => b ∉ (s.start next a).met := by
    apply List.filter_congr
    intro b _
    rw [decide_eq_decide, State.met, State.path, ho]
    rfl
  have hsum := Search.sum_filter_visit (fun b => (next b).length + 1) hmet ha
  have hall : ((domain.filter fun b => b ∉ s.met).map fun b => (next b).length + 1).sum ≤
      (domain.map fun b => (next b).length + 1).sum :=
    (List.filter_sublist.map _).sum_le_sum fun _ _ => Nat.zero_le _
  rw [cost, ← hfilter]
  simp only [State.start, List.map_cons, List.map_nil, List.sum_cons, List.sum_nil]
  omega

/-- A loop that takes the search at least one step on with every turn, and the way it is
begun at a value that was not met. -/
structure Tracks [DecidableEq α] (next : α → List α) (domain : List α) {σ : Type u}
    (begun : σ → α → σ) (turn : σ → σ) (seen : σ → α → Bool) (Match : σ → State α → Prop) :
    Prop where
  onBegin : ∀ c s a, Match c s → s.opened = [] → a ∉ s.met →
    Match (begun c a) (s.start next a)
  onTurn : ∀ c s, Sound next s → Within domain s → Match c s → s.opened ≠ [] →
    ∃ s', Match (turn c) s' ∧ Onward next domain s s' ∧ cost next domain s' < cost next domain s
  onStop : ∀ c s, Match c s → s.opened = [] → turn c = c
  onSeen : ∀ c s a, Match c s → s.opened = [] → (seen c a = true ↔ a ∈ s.met)

omit hdomain

section Tracks

variable {σ : Type u} {begun : σ → α → σ} {turn : σ → σ} {seen : σ → α → Bool}
  {Match : σ → State α → Prop}

/-- With enough turns the search is finished. -/
theorem Tracks.finished (hf : Tracks next domain begun turn seen Match) {c : σ}
    (hmatch : Match c s) (h : Sound next s) (hw : Within domain s) {turns : Nat}
    (hturns : cost next domain s ≤ turns) :
    ∃ s', Match (turn^[turns] c) s' ∧ Onward next domain s s' ∧ s'.opened = [] := by
  induction turns generalizing c s with
  | zero =>
    refine ⟨s, hmatch, .refl h hw, ?_⟩
    cases ho : s.opened with
    | nil => rfl
    | cons f l =>
      rw [DepthFirst.cost, ho, List.map_cons, List.sum_cons] at hturns
      omega
  | succ n ih =>
    rw [Function.iterate_succ_apply]
    by_cases ho : s.opened = []
    · refine ⟨s, ?_, .refl h hw, ho⟩
      have hfixed := hf.onStop c s hmatch ho
      rw [hfixed, Function.iterate_fixed hfixed]
      exact hmatch
    · obtain ⟨s', hmatch', hafter, hless⟩ := hf.onTurn c s h hw hmatch ho
      obtain ⟨s'', hmatch'', hafter', hdone⟩ := ih hmatch' hafter.sound hafter.within (by omega)
      exact ⟨s'', hmatch'', hafter.trans hafter', hdone⟩

/-- Begun at every value in turn, the search meets all of them. -/
theorem Tracks.explored (hf : Tracks next domain begun turn seen Match) {roots : List α}
    (hroots : ∀ a ∈ roots, a ∈ domain) {c : σ} (hmatch : Match c s) (h : Sound next s)
    (hw : Within domain s) (ho : s.opened = []) {turns : Nat}
    (hturns : turns = (domain.map fun a => (next a).length + 1).sum) :
    ∃ s', Match (roots.foldl (fun c a => if seen c a then c else turn^[turns] (begun c a)) c) s' ∧
      Sound next s' ∧ Within domain s' ∧ s'.opened = [] ∧
        ∀ a, a ∈ s.met ∨ a ∈ roots → a ∈ s'.met := by
  induction roots generalizing c s with
  | nil => exact ⟨s, hmatch, h, hw, ho, fun a ha => ha.resolve_right List.not_mem_nil⟩
  | cons a roots ih =>
    rw [List.foldl_cons]
    have hrest := fun b hb => hroots b (List.mem_cons_of_mem a hb)
    by_cases hmet : a ∈ s.met
    · rw [if_pos ((hf.onSeen c s a hmatch ho).mpr hmet)]
      obtain ⟨s', hmatch', hs', hw', ho', hall⟩ := ih hrest hmatch h hw ho
      refine ⟨s', hmatch', hs', hw', ho', fun b hb => hall b ?_⟩
      rcases hb with hb | hb
      · exact .inl hb
      · rcases List.mem_cons.mp hb with rfl | hb
        · exact .inl hmet
        · exact .inr hb
    · rw [if_neg fun hseen => hmet ((hf.onSeen c s a hmatch ho).mp hseen)]
      have ha : a ∈ domain := hroots a List.mem_cons_self
      have hstart : ∀ b, b ∈ (s.start next a).met ↔ b = a ∨ b ∈ s.met := by
        intro b
        rw [State.met, State.met, State.path, State.path, ho]
        exact List.mem_cons
      have hwstart : Within domain (s.start next a) := by
        constructor
        intro b hb
        rcases (hstart b).mp hb with rfl | hb
        · exact ha
        · exact hw.met b hb
      obtain ⟨s₁, hmatch₁, hafter, hdone⟩ := hf.finished (hf.onBegin c s a hmatch ho hmet)
        (h.start ho hmet) hwstart (hturns ▸ cost_start_le ha hmet ho)
      obtain ⟨s', hmatch', hs', hw', ho', hall⟩ :=
        ih hrest hmatch₁ hafter.sound hafter.within hdone
      refine ⟨s', hmatch', hs', hw', ho', fun b hb => hall b ?_⟩
      rcases hb with hb | hb
      · exact .inl (hafter.met b ((hstart b).mpr (.inr hb)))
      · rcases List.mem_cons.mp hb with rfl | hb
        · exact .inl (hafter.met b ((hstart b).mpr (.inl rfl)))
        · exact .inr hb

end Tracks

end Runs

/-! What a finished search says. -/

section Finished

variable [DecidableEq α] {next : α → List α} {s : State α} {a b : α}

theorem Falls.idxOf_lt {back : List (α × α)} {l : List α} (h : Falls next back l)
    (hnodup : l.Nodup) (ha : a ∈ l) (harc : b ∈ next a) (hb : (a, b) ∉ back) :
    b ∈ l ∧ l.idxOf a < l.idxOf b := by
  induction l with
  | nil => exact absurd ha List.not_mem_nil
  | cons c l ih =>
    obtain ⟨hhead, htail⟩ := h
    obtain ⟨hc, hnodup⟩ := List.nodup_cons.mp hnodup
    have hlater : ∀ {d : α}, d ∈ l → (c :: l).idxOf d = l.idxOf d + 1 := by
      intro d hd
      exact List.idxOf_cons_ne _ fun heq => hc (heq ▸ hd)
    rcases List.mem_cons.mp ha with rfl | ha
    · have hmem := (hhead b harc).resolve_left hb
      rw [hlater hmem, List.idxOf_cons_self]
      exact ⟨List.mem_cons_of_mem a hmem, by omega⟩
    · obtain ⟨hmem, hless⟩ := ih htail hnodup ha
      rw [hlater ha, hlater hmem]
      exact ⟨List.mem_cons_of_mem c hmem, by omega⟩

/-- Without its arcs back a finished search has no cycle. -/
theorem Sound.acyclic (h : Sound next s) (ha : a ∈ s.closed) :
    ¬ Relation.TransGen (fun b c => c ∈ next b ∧ (b, c) ∉ s.back) a a := by
  intro hcycle
  have hnodup : s.closed.Nodup := (List.nodup_append.mp h.fresh).2.1
  have hlater : ∀ b, Relation.TransGen (fun b c => c ∈ next b ∧ (b, c) ∉ s.back) a b →
      b ∈ s.closed ∧ s.closed.idxOf a < s.closed.idxOf b := by
    intro b hb
    induction hb with
    | single harc => exact h.falls.idxOf_lt hnodup ha harc.1 harc.2
    | tail _ harc ih =>
      obtain ⟨hmem, hless⟩ := h.falls.idxOf_lt hnodup ih.1 harc.1 harc.2
      exact ⟨hmem, Nat.lt_trans ih.2 hless⟩
  have hless := (hlater a hcycle).2
  omega

end Finished

end DepthFirst
