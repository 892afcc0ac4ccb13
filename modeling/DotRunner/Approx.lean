/-
Computations given by finite approximations.

A computation that may call itself is described by the results it has when its
calls may nest at most `d` deep, for every `d`.  It returns when some depth has
a result that every greater depth has too.  The computations here also keep a
log, as a writer does, and may be cut off from outside, their log kept.
-/
import Mathlib.Data.List.Forall2

namespace Approx

universe u v

/-- How a computation that returned ended: with its value, or cut off. -/
inductive Finish (α : Type v) where
  | done (a : α)
  | cut

namespace Finish

variable {α β : Type v}

def map (f : α → β) : Finish α → Finish β
  | done a => done (f a)
  | cut => cut

def done? : Finish α → Option α
  | done a => some a
  | cut => none

theorem map_eq_done {f : α → β} {x : Finish α} {b : β} (h : x.map f = .done b) :
    ∃ a, x = .done a ∧ f a = b := by
  cases x with
  | done a => exact ⟨a, rfl, Finish.done.inj h⟩
  | cut => exact (nomatch h)

end Finish

/-- A computation that may not return, with the log of what it did. -/
def Logged (ε : Type u) (α : Type v) := Option (Finish α × List ε)

namespace Logged

variable {ε : Type u} {α β : Type v}

def ret (a : α) : Logged ε α := some (.done a, [])

def cut : Logged ε α := some (.cut, [])

def tell (e : ε) : Logged ε PUnit.{v + 1} := some (.done ⟨⟩, [e])

def andThen (x : Logged ε α) (f : α → Logged ε β) : Logged ε β :=
  match x with
  | none => none
  | some (.cut, l) => some (.cut, l)
  | some (.done a, l) => match f a with
    | none => none
    | some (b, l') => some (b, l ++ l')

instance : Monad (Logged ε) where
  pure := ret
  bind := andThen

/-- Wait for the computation without its value. -/
def abandon (x : Logged ε α) : Logged ε PUnit.{v + 1} :=
  match x with
  | none => none
  | some (_, l) => some (.done ⟨⟩, l)

/-- The computation returns `a`. -/
def Returns (x : Logged ε α) (a : α) : Prop := ∃ l, x = some (.done a, l)

/-- Everything the computation logs satisfies `P`. -/
def Logs (P : ε → Prop) (x : Logged ε α) : Prop := ∀ r l, x = some (r, l) → ∀ e ∈ l, P e

/-- The computation logs at most `n` entries. -/
def LogsMost (n : Nat) (x : Logged ε α) : Prop := ∀ r l, x = some (r, l) → l.length ≤ n

theorem bind_eq_some {x : Logged ε α} {f : α → Logged ε β} {r : Finish β} {l : List ε}
    (h : (x >>= f) = some (r, l)) :
    (r = .cut ∧ x = some (.cut, l)) ∨
      ∃ a l₁ l₂, x = some (.done a, l₁) ∧ f a = some (r, l₂) ∧ l = l₁ ++ l₂ := by
  have hb : andThen x f = some (r, l) := h
  unfold andThen at hb
  split at hb
  · cases hb
  · cases hb
    exact .inl ⟨rfl, rfl⟩
  · rename_i a l₁
    split at hb
    · cases hb
    · rename_i b l₂ hf
      cases hb
      exact .inr ⟨a, l₁, l₂, rfl, hf, rfl⟩

theorem returns_pure {a b : α} (h : (pure a : Logged ε α).Returns b) : b = a := by
  obtain ⟨l, hl⟩ := h
  cases hl
  rfl

theorem returns_bind {x : Logged ε α} {f : α → Logged ε β} {b : β} (h : (x >>= f).Returns b) :
    ∃ a, x.Returns a ∧ (f a).Returns b := by
  obtain ⟨l, hl⟩ := h
  rcases bind_eq_some hl with ⟨hcut, -⟩ | ⟨a, l₁, l₂, hx, hf, -⟩
  · cases hcut
  · exact ⟨a, ⟨l₁, hx⟩, l₂, hf⟩

theorem logs_pure (P : ε → Prop) (a : α) : (pure a : Logged ε α).Logs P := by
  intro r l h e he
  cases h
  exact absurd he List.not_mem_nil

theorem logs_bind {P : ε → Prop} {x : Logged ε α} {f : α → Logged ε β} (hx : x.Logs P)
    (hf : ∀ a, (f a).Logs P) : (x >>= f).Logs P := by
  intro r l h e he
  rcases bind_eq_some h with ⟨-, hc⟩ | ⟨a, l₁, l₂, h₁, h₂, rfl⟩
  · exact hx .cut l hc e he
  · rcases List.mem_append.mp he with hl | hr
    · exact hx (.done a) l₁ h₁ e hl
    · exact hf a r l₂ h₂ e hr

theorem logs_abandon {P : ε → Prop} {x : Logged ε α} (hx : x.Logs P) : (abandon x).Logs P := by
  intro r l h e he
  unfold abandon at h
  split at h
  · cases h
  · rename_i r' l'
    cases h
    exact hx r' l rfl e he

theorem logsMost_pure (n : Nat) (a : α) : (pure a : Logged ε α).LogsMost n := by
  intro r l h
  cases h
  exact Nat.zero_le n

theorem logsMost_bind {m n : Nat} {x : Logged ε α} {f : α → Logged ε β} (hx : x.LogsMost m)
    (hf : ∀ a, (f a).LogsMost n) : (x >>= f).LogsMost (m + n) := by
  intro r l h
  rcases bind_eq_some h with ⟨-, hc⟩ | ⟨a, l₁, l₂, h₁, h₂, rfl⟩
  · have hlength := hx .cut l hc
    omega
  · have hfirst := hx (.done a) l₁ h₁
    have hrest := hf a r l₂ h₂
    rw [List.length_append]
    omega

theorem logsMost_abandon {n : Nat} {x : Logged ε α} (hx : x.LogsMost n) : (abandon x).LogsMost n := by
  intro r l h
  unfold abandon at h
  split at h
  · cases h
  · cases h
    exact hx _ _ rfl

end Logged

section Sequences

variable {α β : Type v}

theorem forall₂_of_mapM {f : α → Option β} {l : List α} {l' : List β} (h : l.mapM f = some l') :
    List.Forall₂ (fun a b => f a = some b) l l' := by
  induction l generalizing l' with
  | nil =>
    cases h
    exact .nil
  | cons a rest ih =>
    rw [List.mapM_cons] at h
    obtain ⟨b, hb, h⟩ := Option.bind_eq_some_iff.mp h
    obtain ⟨rest', hrest, h⟩ := Option.bind_eq_some_iff.mp h
    cases h
    exact .cons hb (ih hrest)

theorem mem_of_forall₂ {R : α → β → Prop} {l : List α} {l' : List β} (h : List.Forall₂ R l l')
    {b : β} (hb : b ∈ l') : ∃ a ∈ l, R a b := by
  induction h with
  | nil => exact absurd hb List.not_mem_nil
  | cons hab _ ih =>
    rcases List.mem_cons.mp hb with rfl | hrest
    · exact ⟨_, List.mem_cons_self, hab⟩
    · obtain ⟨a, ha, hR⟩ := ih hrest
      exact ⟨a, List.mem_cons_of_mem _ ha, hR⟩

theorem pairwise_of_forall₂ {R : α → β → Prop} {P : α → α → Prop} {Q : β → β → Prop}
    (hQ : ∀ {a a' b b'}, R a b → R a' b' → P a a' → Q b b') {l : List α} {l' : List β}
    (h : List.Forall₂ R l l') (hp : l.Pairwise P) : l'.Pairwise Q := by
  induction h with
  | nil => exact .nil
  | cons hab hrest ih =>
    obtain ⟨hfirst, hp⟩ := List.pairwise_cons.mp hp
    refine List.pairwise_cons.mpr ⟨fun b' hb' => ?_, ih hp⟩
    obtain ⟨a', ha', hR⟩ := mem_of_forall₂ hrest hb'
    exact hQ hab hR (hfirst a' ha')

end Sequences

/-- From some depth on the approximations have one result. -/
def Settles {α : Type v} (f : Nat → Option α) : Prop := ∃ d a, ∀ d', d ≤ d' → f d' = some a

section Settles

variable {ε : Type u} {α β : Type v}

theorem settles_some (a : α) : Settles fun _ => some a := ⟨0, a, fun _ _ => rfl⟩

theorem settles_pure (a : α) : Settles fun _ => (pure a : Logged ε α) :=
  settles_some (Finish.done a, ([] : List ε))

theorem Settles.exists {f : Nat → Option α} (h : Settles f) : ∃ d a, f d = some a := by
  obtain ⟨d, a, hd⟩ := h
  exact ⟨d, a, hd d (Nat.le_refl d)⟩

/-- A call one level down settles when what it calls does. -/
theorem Settles.shift {f g : Nat → Option α} (h : Settles f) (hg : ∀ d, g (d + 1) = f d) :
    Settles g := by
  obtain ⟨d, a, hd⟩ := h
  refine ⟨d + 1, a, fun d' hle => ?_⟩
  obtain ⟨k, rfl⟩ : ∃ k, d' = k + 1 := ⟨d' - 1, by omega⟩
  rw [hg]
  exact hd k (by omega)

theorem Settles.option_bind {f : Nat → Option α} {g : Nat → α → Option β} (hf : Settles f)
    (hg : ∀ d a, f d = some a → Settles fun d => g d a) : Settles fun d => (f d).bind (g d) := by
  obtain ⟨d₁, a, h₁⟩ := hf
  obtain ⟨d₂, b, h₂⟩ := hg d₁ a (h₁ d₁ (Nat.le_refl d₁))
  refine ⟨max d₁ d₂, b, fun d hd => ?_⟩
  show (f d).bind (g d) = some b
  rw [h₁ d (by omega), Option.bind_some]
  exact h₂ d (by omega)

theorem Settles.option_map {f : Nat → Option α} (hf : Settles f) (g : α → β) :
    Settles fun d => (f d).map g := by
  obtain ⟨d, a, hd⟩ := hf
  refine ⟨d, g a, fun d' hle => ?_⟩
  show (f d').map g = some (g a)
  rw [hd d' hle, Option.map_some]

theorem Settles.mapM {γ : Type v} {f : Nat → γ → Option α} :
    ∀ {l : List γ}, (∀ x ∈ l, Settles fun d => f d x) → Settles fun d => l.mapM (f d)
  | [], _ => settles_some []
  | x :: rest, h => by
    have hx : Settles fun d => f d x := h x List.mem_cons_self
    have hrest : Settles fun d => rest.mapM (f d) :=
      Settles.mapM fun y hy => h y (List.mem_cons_of_mem x hy)
    simp only [List.mapM_cons]
    exact hx.option_bind fun _ a _ => hrest.option_bind fun _ l _ => settles_some (a :: l)

theorem Settles.bind {f : Nat → Logged ε α} {g : Nat → α → Logged ε β} (hf : Settles f)
    (hg : ∀ d a, (f d).Returns a → Settles fun d => g d a) : Settles fun d => (f d >>= g d : Logged ε β) := by
  obtain ⟨d₁, ⟨r, l₁⟩, h₁⟩ := hf
  cases r with
  | cut =>
    refine ⟨d₁, (.cut, l₁), fun d hd => ?_⟩
    have hfirst : f d = some (.cut, l₁) := h₁ d hd
    show Logged.andThen (f d) (g d) = some (.cut, l₁)
    simp only [Logged.andThen, hfirst]
    rfl
  | done a =>
    obtain ⟨d₂, ⟨r, l₂⟩, h₂⟩ := hg d₁ a ⟨l₁, h₁ d₁ (Nat.le_refl d₁)⟩
    refine ⟨max d₁ d₂, (r, l₁ ++ l₂), fun d hd => ?_⟩
    have hfirst : f d = some (.done a, l₁) := h₁ d (by omega)
    have hrest : g d a = some (r, l₂) := h₂ d (by omega)
    show Logged.andThen (f d) (g d) = some (r, l₁ ++ l₂)
    simp only [Logged.andThen, hfirst, hrest]
    rfl

theorem Settles.abandon {f : Nat → Logged ε α} (hf : Settles f) :
    Settles fun d => (f d).abandon := by
  obtain ⟨d, ⟨r, l⟩, hd⟩ := hf
  refine ⟨d, (.done ⟨⟩, l), fun d' hle => ?_⟩
  have hx : f d' = some (r, l) := hd d' hle
  show Logged.abandon (f d') = some (.done ⟨⟩, l)
  simp only [Logged.abandon, hx]
  rfl

end Settles

end Approx
