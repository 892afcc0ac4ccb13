import Mathlib.Data.List.Perm.Subperm

/-!
# Searching for a way out

A breadth-first search that keeps the path to every state it has in its queue and ends
with the first path that leads out.  It finds one if there is one.
-/

namespace PathSearch

variable {σ τ : Type}

/-- Where an arc of a state goes: out, or on to another state.  Its label is what it adds
to a path. -/
inductive Move (σ τ : Type) where
  | out (label : τ)
  | on (s : σ) (label : τ)

/-- The labels of a way out of a state. -/
inductive Leads (moves : σ → List (Move σ τ)) : σ → List τ → Prop
  | out {s : σ} {label : τ} (h : .out label ∈ moves s) : Leads moves s [label]
  | on {s s' : σ} {label : τ} {path : List τ} (h : .on s' label ∈ moves s)
    (rest : Leads moves s' path) : Leads moves s (label :: path)

variable [DecidableEq σ]

/-- The arcs of the state at hand, in order: a path out, or what is seen and in the queue
behind the last arc. -/
def scan (path : List τ) : List (Move σ τ) → List σ → List (σ × List τ) →
    List τ ⊕ (List σ × List (σ × List τ))
  | [], seen, queue => .inr (seen, queue)
  | .out label :: _, _, _ => .inl (path ++ [label])
  | .on s label :: arcs, seen, queue =>
    if s ∈ seen then scan path arcs seen queue
    else scan path arcs (s :: seen) (queue ++ [(s, path ++ [label])])

def search (moves : σ → List (Move σ τ)) : Nat → List (σ × List τ) → List σ → Option (List τ)
  | 0, _, _ => none
  | _ + 1, [], _ => none
  | fuel + 1, (s, path) :: queue, seen => match scan path (moves s) seen queue with
    | .inl found => some found
    | .inr (seen, queue) => search moves fuel queue seen

/-! ## One state -/

theorem scan_inl {path found : List τ} {arcs : List (Move σ τ)} {seen : List σ}
    {queue : List (σ × List τ)} (h : scan path arcs seen queue = .inl found) :
    ∃ label, .out label ∈ arcs ∧ found = path ++ [label] := by
  induction arcs generalizing seen queue with
  | nil => cases h
  | cons arc arcs ih =>
    cases arc with
    | out label =>
      rw [scan] at h
      exact ⟨label, List.mem_cons_self, (Sum.inl.inj h).symm⟩
    | on s label =>
      rw [scan] at h
      have hlater : ∃ last, .out last ∈ arcs ∧ found = path ++ [last] := by
        split at h
        · exact ih h
        · exact ih h
      obtain ⟨last, hmem, hfound⟩ := hlater
      exact ⟨last, List.mem_cons_of_mem _ hmem, hfound⟩

/-- What a state adds to the seen ones and to the queue. -/
structure Scanned (path : List τ) (arcs : List (Move σ τ)) (seen seen' : List σ)
    (queue queue' : List (σ × List τ)) : Prop where
  noWayOut : ∀ label, .out label ∉ arcs
  met : ∀ s label, .on s label ∈ arcs → s ∈ seen'
  added : ∃ new, queue' = queue ++ new ∧ seen' = (new.map Prod.fst).reverse ++ seen ∧
    ∀ entry ∈ new, ∃ label, .on entry.1 label ∈ arcs ∧ entry.2 = path ++ [label]
  nodup : seen.Nodup → seen'.Nodup

theorem scan_inr {path : List τ} {arcs : List (Move σ τ)} {seen seen' : List σ}
    {queue queue' : List (σ × List τ)} (h : scan path arcs seen queue = .inr (seen', queue')) :
    Scanned path arcs seen seen' queue queue' := by
  induction arcs generalizing seen queue with
  | nil =>
    obtain ⟨rfl, rfl⟩ := Prod.mk.inj (Sum.inr.inj h)
    have hnone : ∀ arc : Move σ τ, arc ∉ [] := fun _ => List.not_mem_nil
    exact ⟨fun _ => hnone _, fun _ _ hmem => absurd hmem (hnone _),
      ⟨[], (List.append_nil _).symm, rfl, fun _ hmem => absurd hmem List.not_mem_nil⟩, id⟩
  | cons arc arcs ih =>
    cases arc with
    | out label => cases h
    | on s label =>
      rw [scan] at h
      split at h
      · rename_i hseen
        obtain ⟨hout, hmet, ⟨new, hqueue, hadded, hnew⟩, hnodup⟩ := ih h
        refine ⟨fun last hmem => ?_, fun s' label' hmem => ?_,
          ⟨new, hqueue, hadded, fun entry he => ?_⟩, hnodup⟩
        · rcases List.mem_cons.mp hmem with heq | hmem
          · cases heq
          · exact hout last hmem
        · rcases List.mem_cons.mp hmem with heq | hmem
          · cases heq
            rw [hadded]
            exact List.mem_append_right _ hseen
          · exact hmet s' label' hmem
        · obtain ⟨label', hmem, hpath⟩ := hnew entry he
          exact ⟨label', List.mem_cons_of_mem _ hmem, hpath⟩
      · rename_i hseen
        obtain ⟨hout, hmet, ⟨new, hqueue, hadded, hnew⟩, hnodup⟩ := ih h
        refine ⟨fun last hmem => ?_, fun s' label' hmem => ?_,
          ⟨(s, path ++ [label]) :: new, ?_, ?_, fun entry he => ?_⟩, fun hn => ?_⟩
        · rcases List.mem_cons.mp hmem with heq | hmem
          · cases heq
          · exact hout last hmem
        · rcases List.mem_cons.mp hmem with heq | hmem
          · cases heq
            rw [hadded]
            exact List.mem_append_right _ List.mem_cons_self
          · exact hmet s' label' hmem
        · rw [hqueue, List.append_assoc, List.singleton_append]
        · rw [hadded, List.map_cons, List.reverse_cons, List.append_assoc, List.singleton_append]
        · rcases List.mem_cons.mp he with rfl | he
          · exact ⟨label, List.mem_cons_self, rfl⟩
          · obtain ⟨label', hmem, hpath⟩ := hnew entry he
            exact ⟨label', List.mem_cons_of_mem _ hmem, hpath⟩
        · exact hnodup (List.nodup_cons.mpr ⟨hseen, hn⟩)

/-! ## The search -/

variable {moves : σ → List (Move σ τ)}

/-- What is found leads out of a state of the queue, behind the path to it. -/
theorem search_sound {fuel : Nat} {queue : List (σ × List τ)} {seen : List σ} {found : List τ}
    (h : search moves fuel queue seen = some found) :
    ∃ entry ∈ queue, ∃ path, Leads moves entry.1 path ∧ found = entry.2 ++ path := by
  induction fuel generalizing queue seen with
  | zero => cases h
  | succ fuel ih =>
    cases queue with
    | nil => cases h
    | cons entry queue =>
      obtain ⟨s, path⟩ := entry
      rw [search] at h
      split at h
      · rename_i found' hscan
        obtain ⟨label, hmem, rfl⟩ := scan_inl hscan
        exact ⟨(s, path), List.mem_cons_self, [label], .out hmem, (Option.some.inj h).symm⟩
      · rename_i seen' queue' hscan
        obtain ⟨-, -, ⟨new, rfl, -, hnew⟩, -⟩ := scan_inr hscan
        obtain ⟨entry, he, rest, hleads, rfl⟩ := ih h
        rcases List.mem_append.mp he with he | he
        · exact ⟨entry, List.mem_cons_of_mem _ he, rest, hleads, rfl⟩
        · obtain ⟨label, hmem, hpath⟩ := hnew entry he
          refine ⟨(s, path), List.mem_cons_self, label :: rest, .on hmem hleads, ?_⟩
          rw [hpath, List.append_assoc, List.singleton_append]

/-- Of the states seen, those not in the queue have no arc but to states seen. -/
def Closed (moves : σ → List (Move σ τ)) (seen : List σ) (queue : List (σ × List τ)) : Prop :=
  ∀ s ∈ seen, s ∈ queue.map Prod.fst ∨
    (∀ label, .out label ∉ moves s) ∧ ∀ s' label, .on s' label ∈ moves s → s' ∈ seen

omit [DecidableEq σ] in
theorem not_leads_of_closed {seen : List σ} (h : Closed moves seen []) {s : σ} (hs : s ∈ seen)
    {path : List τ} (hleads : Leads moves s path) : False := by
  induction hleads with
  | out hout =>
    rcases h _ hs with hqueue | ⟨hno, -⟩
    · cases hqueue
    · exact hno _ hout
  | on hon _ ih =>
    rcases h _ hs with hqueue | ⟨-, hseen⟩
    · cases hqueue
    · exact ih (hseen _ _ hon)

theorem search_none {domain : List σ} (hdomain : ∀ s ∈ domain, ∀ s' label, .on s' label ∈ moves s →
    s' ∈ domain) {fuel : Nat} {queue : List (σ × List τ)} {seen : List σ}
    (hsub : ∀ s ∈ seen, s ∈ domain) (hqueue : ∀ entry ∈ queue, entry.1 ∈ seen) (hnodup : seen.Nodup)
    (hclosed : Closed moves seen queue) (hfuel : domain.length + queue.length ≤ fuel + seen.length)
    (h : search moves fuel queue seen = none) : ∀ s ∈ seen, ∀ path, ¬Leads moves s path := by
  induction fuel generalizing queue seen with
  | zero =>
    have hlen : seen.length ≤ domain.length := (List.subperm_of_subset hnodup hsub).length_le
    obtain rfl : queue = [] := List.length_eq_zero_iff.mp (by omega)
    exact fun s hs path hleads => not_leads_of_closed hclosed hs hleads
  | succ fuel ih =>
    cases queue with
    | nil => exact fun s hs path hleads => not_leads_of_closed hclosed hs hleads
    | cons entry queue =>
      obtain ⟨s, path⟩ := entry
      rw [search] at h
      split at h
      · cases h
      · rename_i seen' queue' hscan
        obtain ⟨hout, hmet, ⟨new, rfl, hadded, hnew⟩, hseen⟩ := scan_inr hscan
        have hs : s ∈ seen := hqueue _ List.mem_cons_self
        have hgrow : ∀ a ∈ seen, a ∈ seen' := by
          intro a ha
          rw [hadded]
          exact List.mem_append_right _ ha
        have hnewSeen : ∀ entry ∈ new, entry.1 ∈ seen' := by
          intro entry he
          obtain ⟨label, hmem, -⟩ := hnew entry he
          exact hmet _ label hmem
        refine fun a ha => ih ?_ ?_ (hseen hnodup) ?_ ?_ h a (hgrow a ha)
        · intro b hb
          rw [hadded] at hb
          rcases List.mem_append.mp hb with hb | hb
          · obtain ⟨entry, he, rfl⟩ := List.mem_map.mp (List.mem_reverse.mp hb)
            obtain ⟨label, hmem, -⟩ := hnew entry he
            exact hdomain s (hsub s hs) _ label hmem
          · exact hsub b hb
        · intro entry he
          rcases List.mem_append.mp he with he | he
          · exact hgrow _ (hqueue entry (List.mem_cons_of_mem _ he))
          · exact hnewSeen entry he
        · intro b hb
          have hb' := hb
          rw [hadded] at hb'
          rw [List.map_append]
          rcases List.mem_append.mp hb' with hb' | hb'
          · exact .inl (List.mem_append_right _ (List.mem_reverse.mp hb'))
          · rcases hclosed b hb' with hin | ⟨hno, hon⟩
            · rcases List.mem_cons.mp hin with rfl | hin
              · exact .inr ⟨hout, hmet⟩
              · exact .inl (List.mem_append_left _ hin)
            · exact .inr ⟨hno, fun s' label hmem => hgrow _ (hon s' label hmem)⟩
        · rw [hadded]
          simp only [List.length_append, List.length_reverse, List.length_map, List.length_cons] at hfuel ⊢
          omega

/-- From one state of a finite domain the search finds a way out, if there is one. -/
theorem search_isSome {domain : List σ} (hdomain : ∀ s ∈ domain, ∀ s' label, .on s' label ∈ moves s →
    s' ∈ domain) {s : σ} (hs : s ∈ domain) {fuel : Nat} (hfuel : domain.length ≤ fuel) (path : List τ) :
    (search moves fuel [(s, path)] [s]).isSome = true ↔ ∃ rest, Leads moves s rest := by
  constructor
  · intro h
    obtain ⟨found, hfound⟩ := Option.isSome_iff_exists.mp h
    obtain ⟨entry, he, rest, hleads, -⟩ := search_sound hfound
    obtain rfl := List.mem_singleton.mp he
    exact ⟨rest, hleads⟩
  · rintro ⟨rest, hleads⟩
    by_contra hnone
    rw [Bool.not_eq_true, Option.isSome_eq_false_iff, Option.isNone_iff_eq_none] at hnone
    refine search_none hdomain ?_ ?_ (by simp) ?_ ?_ hnone s
      (List.mem_singleton_self s) rest hleads
    · intro a ha
      rwa [List.mem_singleton.mp ha]
    · intro entry he
      rw [List.mem_singleton.mp he]
      exact List.mem_singleton_self s
    · exact fun a ha => .inl ha
    · simpa using hfuel

end PathSearch
