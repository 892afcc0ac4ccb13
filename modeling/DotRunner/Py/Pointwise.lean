import DotRunner.Py.Dict

/-!
# Dictionaries related value by value

Two dictionaries with the same keys in the same order, whose values are related key
by key.
-/

namespace Py
namespace Dict

universe u v

variable {κ : Type u} {α : Type v} [DecidableEq κ]

/-- An entry under the same key, with a related value. -/
def EntryRel (R : α → α → Prop) (p p' : κ × α) : Prop := p'.1 = p.1 ∧ R p.2 p'.2

omit [DecidableEq κ] in
/-- The same keys, and related values under each. -/
def Pointwise (R : α → α → Prop) (d d' : Dict κ α) : Prop :=
  List.Forall₂ (EntryRel R) d.entries d'.entries

section Entries

variable {R : α → α → Prop} {l l' : List (κ × α)}

omit [DecidableEq κ] in
theorem map_fst_of_forall₂ (h : List.Forall₂ (EntryRel R) l l') : l'.map Prod.fst = l.map Prod.fst := by
  induction h with
  | nil => rfl
  | cons hp _ ih => rw [List.map_cons, List.map_cons, ih, hp.1]

theorem lookup_of_forall₂ (h : List.Forall₂ (EntryRel R) l l') (k : κ) :
    Option.Rel R (lookup k l) (lookup k l') := by
  induction h with
  | nil => exact .none
  | @cons p p' l l' hp _ ih =>
    obtain ⟨x, a⟩ := p
    obtain ⟨x', a'⟩ := p'
    obtain ⟨hx, ha⟩ := hp
    dsimp only at hx ha
    subst hx
    rw [lookup, lookup]
    by_cases hk : x' = k
    · rw [if_pos hk, if_pos hk]
      exact .some ha
    · rw [if_neg hk, if_neg hk]
      exact ih

theorem insertEntry_of_forall₂ (h : List.Forall₂ (EntryRel R) l l') (k : κ) {a a' : α} (ha : R a a') :
    List.Forall₂ (EntryRel R) (insertEntry k a l) (insertEntry k a' l') := by
  induction h with
  | nil => exact .cons ⟨rfl, ha⟩ .nil
  | @cons p p' l l' hp hrest ih =>
    obtain ⟨x, b⟩ := p
    obtain ⟨x', b'⟩ := p'
    obtain ⟨hx, hb⟩ := hp
    dsimp only at hx hb
    subst hx
    rw [insertEntry, insertEntry]
    by_cases hk : x' = k
    · rw [if_pos hk, if_pos hk]
      exact .cons ⟨rfl, ha⟩ hrest
    · rw [if_neg hk, if_neg hk]
      exact .cons ⟨rfl, hb⟩ ih

end Entries

namespace Pointwise

variable {R : α → α → Prop} {d d' e e' : Dict κ α}

omit [DecidableEq κ] in
theorem keys (h : Pointwise R d d') : d'.keys = d.keys := map_fst_of_forall₂ h

omit [DecidableEq κ] in
theorem refl (hR : ∀ a, R a a) (d : Dict κ α) : Pointwise R d d := by
  unfold Pointwise
  induction d.entries with
  | nil => exact .nil
  | cons p l ih => exact .cons ⟨rfl, hR p.2⟩ ih

theorem get? (h : Pointwise R d d') (k : κ) : Option.Rel R (d.get? k) (d'.get? k) :=
  lookup_of_forall₂ h k

theorem set (h : Pointwise R d d') (k : κ) {a a' : α} (ha : R a a') :
    Pointwise R (d.set k a) (d'.set k a') :=
  insertEntry_of_forall₂ h k ha

theorem erase (h : Pointwise R d d') (k : κ) : Pointwise R (d.erase k) (d'.erase k) := by
  have hlist : ∀ l l' : List (κ × α), List.Forall₂ (EntryRel R) l l' →
      List.Forall₂ (EntryRel R) (l.filter fun p => !(p.1 == k)) (l'.filter fun p => !(p.1 == k)) := by
    intro l l' h
    induction h with
    | nil => exact .nil
    | @cons p p' l l' hp _ ih =>
      rw [List.filter_cons, List.filter_cons, hp.1]
      by_cases hk : (!(p.1 == k)) = true
      · rw [if_pos hk, if_pos hk]
        exact .cons hp ih
      · rw [if_neg hk, if_neg hk]
        exact ih
  exact hlist _ _ h

theorem setAll (h : Pointwise R d d') {l l' : List (κ × α)} (hl : List.Forall₂ (EntryRel R) l l') :
    Pointwise R (d.setAll l) (d'.setAll l') := by
  induction hl generalizing d d' with
  | nil => exact h
  | @cons p p' l l' hp _ ih =>
    obtain ⟨x, a⟩ := p
    obtain ⟨x', a'⟩ := p'
    obtain ⟨hx, ha⟩ := hp
    dsimp only at hx ha
    subst hx
    exact ih (h.set x' ha)

theorem update (h : Pointwise R d d') (he : Pointwise R e e') :
    Pointwise R (d.update e) (d'.update e') :=
  h.setAll he

theorem ofList {l l' : List (κ × α)} (hl : List.Forall₂ (EntryRel R) l l') :
    Pointwise R (Dict.ofList l) (Dict.ofList l') := by
  have hempty : Pointwise R (empty : Dict κ α) empty := .nil
  exact hempty.setAll hl

omit [DecidableEq κ] in
theorem mapVals {S : α → α → Prop} {f f' : κ → α → α} (h : Pointwise R d d')
    (hf : ∀ k a a', R a a' → S (f k a) (f' k a')) : Pointwise S (d.mapVals f) (d'.mapVals f') := by
  have hlist : ∀ l l' : List (κ × α), List.Forall₂ (EntryRel R) l l' →
      List.Forall₂ (EntryRel S) (l.map fun p => (p.1, f p.1 p.2)) (l'.map fun p => (p.1, f' p.1 p.2)) := by
    intro l l' h
    induction h with
    | nil => exact .nil
    | @cons p p' l l' hp _ ih =>
      refine .cons ⟨hp.1, ?_⟩ ih
      show S (f p.1 p.2) (f' p'.1 p'.2)
      rw [hp.1]
      exact hf _ _ _ hp.2
  exact hlist _ _ h

end Pointwise

/-! ## Keys alone -/

omit [DecidableEq κ] in
theorem pointwise_true_iff {d d' : Dict κ α} :
    Pointwise (fun _ _ => True) d d' ↔ d'.keys = d.keys := by
  have hlist : ∀ l l' : List (κ × α), l'.map Prod.fst = l.map Prod.fst →
      List.Forall₂ (EntryRel fun _ _ => True) l l' := by
    intro l
    induction l with
    | nil =>
      intro l' h
      rw [List.map_eq_nil_iff.mp h]
      exact .nil
    | cons p l ih =>
      intro l' h
      cases l' with
      | nil => cases h
      | cons p' l' =>
        rw [List.map_cons, List.map_cons, List.cons.injEq] at h
        exact .cons ⟨h.1, trivial⟩ (ih l' h.2)
  exact ⟨Pointwise.keys, hlist _ _⟩

/-- A key that is there keeps its place. -/
theorem keys_set_of_mem {d : Dict κ α} {k : κ} (h : k ∈ d.keys) (a : α) : (d.set k a).keys = d.keys := by
  have hlist : ∀ l : List (κ × α), k ∈ l.map Prod.fst →
      (insertEntry k a l).map Prod.fst = l.map Prod.fst := by
    intro l
    induction l with
    | nil => exact fun h => absurd h List.not_mem_nil
    | cons p l ih =>
      obtain ⟨x, b⟩ := p
      intro h
      rw [insertEntry]
      by_cases hk : x = k
      · rw [if_pos hk]
        rfl
      · rw [if_neg hk, List.map_cons, List.map_cons]
        rw [List.map_cons, List.mem_cons] at h
        rw [ih (h.resolve_left fun h => hk h.symm)]
  exact hlist d.entries h

/-! ## Values that may raise -/

section Traverse

universe w x

variable {β : Type w} {ε : Type x} (f : α → Except ε β)

/-- The entries with every value replaced, until one of them raises. -/
def traverseEntries : (l : List (κ × α)) →
    Except ε { l' : List (κ × β) // l'.map Prod.fst = l.map Prod.fst }
  | [] => .ok ⟨[], rfl⟩
  | (k, a) :: rest =>
    match f a with
    | .error e => .error e
    | .ok b => match traverseEntries rest with
      | .error e => .error e
      | .ok done => .ok ⟨(k, b) :: done.1, by rw [List.map_cons, List.map_cons, done.2]⟩

def traverse (d : Dict κ α) : Except ε (Dict κ β) :=
  match traverseEntries f d.entries with
  | .error e => .error e
  | .ok done => .ok ⟨done.1, by rw [done.2]; exact d.nodup⟩

variable {f}

omit [DecidableEq κ] in
theorem traverse_congr {f' : α → Except ε β} {d : Dict κ α} (h : ∀ a ∈ d.values, f a = f' a) :
    d.traverse f = d.traverse f' := by
  have hlist : ∀ l : List (κ × α), (∀ a ∈ l.map Prod.snd, f a = f' a) →
      traverseEntries f l = traverseEntries f' l := by
    intro l
    induction l with
    | nil => exact fun _ => rfl
    | cons p rest ih =>
      intro h
      rw [traverseEntries, traverseEntries, h p.2 List.mem_cons_self,
        ih fun a ha => h a (List.mem_cons_of_mem _ ha)]
  rw [traverse, traverse, hlist d.entries h]

omit [DecidableEq κ] in
/-- What a value determines of its replacement, the values determine of the replacements. -/
theorem map_values_of_traverse {γ : Type*} {φ : β → γ} {ψ : α → γ}
    (hf : ∀ a b, f a = .ok b → φ b = ψ a) {d : Dict κ α} {d' : Dict κ β}
    (h : d.traverse f = .ok d') : d'.values.map φ = d.values.map ψ := by
  have hlist : ∀ (l : List (κ × α)) done, traverseEntries f l = .ok done →
      (done.1.map Prod.snd).map φ = (l.map Prod.snd).map ψ := by
    intro l
    induction l with
    | nil =>
      intro done hdone
      obtain rfl := Except.ok.inj hdone
      rfl
    | cons p rest ih =>
      intro done hdone
      rw [traverseEntries] at hdone
      cases hvalue : f p.2 with
      | error e =>
        rw [hvalue] at hdone
        cases hdone
      | ok b =>
        cases hrest : traverseEntries f rest with
        | error e =>
          rw [hvalue, hrest] at hdone
          cases hdone
        | ok done' =>
          rw [hvalue, hrest] at hdone
          obtain rfl := Except.ok.inj hdone
          simp only [List.map_cons, hf p.2 b hvalue, ih done' hrest]
  rw [traverse] at h
  cases hdone : traverseEntries f d.entries with
  | error e =>
    rw [hdone] at h
    cases h
  | ok done =>
    rw [hdone] at h
    obtain rfl := Except.ok.inj h
    exact hlist d.entries done hdone

section Replaced

variable {f : α → Except ε α}

omit [DecidableEq κ] in
theorem traverseEntries_ok {l : List (κ × α)} {done : { l' : List (κ × α) // l'.map Prod.fst = l.map Prod.fst }}
    (h : traverseEntries f l = .ok done) :
    List.Forall₂ (EntryRel fun a b => f a = .ok b) l done.1 := by
  induction l with
  | nil =>
    obtain rfl := Except.ok.inj h
    exact .nil
  | cons p rest ih =>
    rw [traverseEntries] at h
    cases hvalue : f p.2 with
    | error e =>
      rw [hvalue] at h
      cases h
    | ok b =>
      cases hrest : traverseEntries f rest with
      | error e =>
        rw [hvalue, hrest] at h
        cases h
      | ok done' =>
        rw [hvalue, hrest] at h
        obtain rfl := Except.ok.inj h
        exact .cons ⟨rfl, hvalue⟩ (ih hrest)

omit [DecidableEq κ] in
theorem traverseEntries_of_forall₂ {l l' : List (κ × α)}
    (h : List.Forall₂ (EntryRel fun a b => f a = .ok b) l l') :
    ∃ hkeys, traverseEntries f l = .ok ⟨l', hkeys⟩ := by
  induction h with
  | nil => exact ⟨rfl, rfl⟩
  | @cons p p' l l' hp hrest ih =>
    obtain ⟨hkeys, hrest⟩ := ih
    obtain ⟨k, a⟩ := p
    obtain ⟨k', b⟩ := p'
    obtain ⟨hk, hvalue⟩ := hp
    dsimp only at hk hvalue
    subst hk
    refine ⟨by rw [List.map_cons, List.map_cons, hkeys], ?_⟩
    rw [traverseEntries, hvalue, hrest]

omit [DecidableEq κ] in
theorem traverse_eq_ok_iff {d d' : Dict κ α} :
    d.traverse f = .ok d' ↔ Pointwise (fun a b => f a = .ok b) d d' := by
  constructor
  · intro h
    rw [traverse] at h
    cases hdone : traverseEntries f d.entries with
    | error e =>
      rw [hdone] at h
      cases h
    | ok done =>
      rw [hdone] at h
      obtain rfl := Except.ok.inj h
      exact traverseEntries_ok hdone
  · intro h
    obtain ⟨hkeys, hdone⟩ := traverseEntries_of_forall₂ h
    rw [traverse, hdone]

omit [DecidableEq κ] in
theorem exists_traverse {d : Dict κ α} (h : ∀ a ∈ d.values, ∃ b, f a = .ok b) :
    ∃ d', d.traverse f = .ok d' := by
  have hlist : ∀ l : List (κ × α), (∀ a ∈ l.map Prod.snd, ∃ b, f a = .ok b) →
      ∃ done, traverseEntries f l = .ok done := by
    intro l
    induction l with
    | nil => exact fun _ => ⟨_, rfl⟩
    | cons p rest ih =>
      intro h
      obtain ⟨b, hb⟩ := h p.2 List.mem_cons_self
      obtain ⟨done, hdone⟩ := ih fun a ha => h a (List.mem_cons_of_mem _ ha)
      exact ⟨_, by rw [traverseEntries, hb, hdone]⟩
  obtain ⟨done, hdone⟩ := hlist d.entries h
  exact ⟨_, by rw [traverse, hdone]⟩

end Replaced

end Traverse

end Dict
end Py
