/-
Machines that answer every input with a list of outputs, and monitors that read
a list and may refuse it.

A machine is its step function.  Two rules carry the results here: a relation
kept by every step carries a whole run past the monitor, and a list made of
blocks is accepted from a resting state when every block is.
-/
import Mathlib.Data.List.Forall2

namespace Transducer

universe u v w x y

variable {σ : Type u} {α : Type v} {β : Type w}

section Machine

variable (step : σ → α → σ × List β)

/-- The state after the inputs. -/
def final (s : σ) : List α → σ
  | [] => s
  | a :: as => final (step s a).1 as

/-- All outputs, in order. -/
def emitted (s : σ) : List α → List β
  | [] => []
  | a :: as => (step s a).2 ++ emitted (step s a).1 as

theorem final_append (s : σ) (l l' : List α) :
    final step s (l ++ l') = final step (final step s l) l' := by
  induction l generalizing s with
  | nil => rfl
  | cons a l ih => exact ih (step s a).1

theorem emitted_append (s : σ) (l l' : List α) :
    emitted step s (l ++ l') = emitted step s l ++ emitted step (final step s l) l' := by
  induction l generalizing s with
  | nil => rfl
  | cons a l ih =>
    show (step s a).2 ++ emitted step (step s a).1 (l ++ l') =
      (step s a).2 ++ emitted step (step s a).1 l ++ _
    rw [ih, List.append_assoc]
    rfl

/-- What holds before and is kept by every step holds after. -/
theorem final_of_step {P : σ → Prop} {Q : α → Prop} {s : σ} {l : List α}
    (hstep : ∀ s a, P s → Q a → P (step s a).1) (hs : P s) (hl : ∀ a ∈ l, Q a) :
    P (final step s l) := by
  induction l generalizing s with
  | nil => exact hs
  | cons a l ih =>
    exact ih (hstep s a hs (hl a List.mem_cons_self)) fun b hb => hl b (List.mem_cons_of_mem _ hb)

/-- From `s` the inputs lead to `s'` and make the machine say `out`. -/
structure Runs (s : σ) (l : List α) (s' : σ) (out : List β) : Prop where
  final_eq : final step s l = s'
  emitted_eq : emitted step s l = out

variable {step}

theorem Runs.nil (s : σ) : Runs step s [] s [] := ⟨rfl, rfl⟩

theorem Runs.single (s : σ) (a : α) : Runs step s [a] (step s a).1 (step s a).2 :=
  ⟨rfl, List.append_nil _⟩

theorem Runs.append {s s' s'' : σ} {l l' : List α} {out out' : List β}
    (h : Runs step s l s' out) (h' : Runs step s' l' s'' out') :
    Runs step s (l ++ l') s'' (out ++ out') := by
  refine ⟨?_, ?_⟩
  · rw [final_append, h.final_eq, h'.final_eq]
  · rw [emitted_append, h.emitted_eq, h.final_eq, h'.emitted_eq]

theorem Runs.cons {s s' : σ} {a : α} {l : List α} {out : List β}
    (h : Runs step (step s a).1 l s' out) : Runs step s (a :: l) s' ((step s a).2 ++ out) :=
  (Runs.single s a).append h

/-- Inputs that leave the state as it is are answered one by one. -/
theorem Runs.map {γ : Type w} {s : σ} {f : γ → α} {g : γ → β} (h : ∀ c, step s (f c) = (s, [g c]))
    (l : List γ) : Runs step s (l.map f) s (l.map g) := by
  induction l with
  | nil => exact .nil s
  | cons c l ih =>
    have hcons : Runs step s (f c :: l.map f) s ((step s (f c)).2 ++ l.map g) :=
      .cons (by rw [h c]; exact ih)
    rwa [h c] at hcons

/-- Blocks that each lead from a state of the kind `P` to another, and make the
machine say something of which `Q` holds. -/
theorem Runs.blocks {γ : Type w} {P : σ → Prop} {f : γ → List α} {Q : γ → List β → Prop}
    (h : ∀ s c, P s → ∃ s' out, Runs step s (f c) s' out ∧ P s' ∧ Q c out) {s : σ} (hs : P s)
    (l : List γ) : ∃ s' outs, Runs step s (l.flatMap f) s' (List.flatten outs) ∧ P s' ∧
      List.Forall₂ Q l outs := by
  induction l generalizing s with
  | nil => exact ⟨s, [], .nil s, hs, .nil⟩
  | cons c l ih =>
    obtain ⟨s', out, hrun, hs', hout⟩ := h s c hs
    obtain ⟨s'', outs, hrest, hs'', houts⟩ := ih hs'
    exact ⟨s'', out :: outs, hrun.append hrest, hs'', .cons hout houts⟩

/-- Blocks that make the machine say the same whatever came before them. -/
theorem Runs.flatMap {γ : Type w} {P : σ → Prop} {f : γ → List α} {out : γ → List β}
    (h : ∀ s c, P s → ∃ s', Runs step s (f c) s' (out c) ∧ P s') {s : σ} (hs : P s) (l : List γ) :
    ∃ s', Runs step s (l.flatMap f) s' (l.flatMap out) ∧ P s' := by
  obtain ⟨s', outs, hrun, hs', houts⟩ := Runs.blocks (Q := fun c o => o = out c)
    (fun s c hs => (h s c hs).elim fun s' hs' => ⟨s', out c, hs'.1, hs'.2, rfl⟩) hs l
  have hflat : outs.flatten = l.flatMap out := by
    clear hrun
    induction houts with
    | nil => rfl
    | cons hout _ ih => rw [List.flatten_cons, List.flatMap_cons, hout, ih]
  exact ⟨s', hflat ▸ hrun, hs'⟩

/-- Inputs the machine ignores may as well not be there. -/
theorem Runs.of_filter {p : α → Bool} (hp : ∀ s a, p a = false → step s a = (s, [])) {s s' : σ}
    {l : List α} {out : List β} (h : Runs step s (l.filter p) s' out) : Runs step s l s' out := by
  induction l generalizing s out with
  | nil => exact h
  | cons a l ih =>
    rw [List.filter_cons] at h
    cases ha : p a with
    | false =>
      rw [ha] at h
      have hskip : Runs step s (a :: l) s' ((step s a).2 ++ out) :=
        .cons (by rw [hp s a ha]; exact ih h)
      rwa [hp s a ha] at hskip
    | true =>
      rw [ha] at h
      refine ⟨?_, ?_⟩
      · exact (ih ⟨h.final_eq, rfl⟩).final_eq
      · rw [← h.emitted_eq]
        show (step s a).2 ++ emitted step (step s a).1 l = (step s a).2 ++ _
        rw [(ih ⟨h.final_eq, rfl⟩).emitted_eq]

end Machine

section Monitor

variable {τ : Type x} {ε : Type y} (next : τ → β → Except ε τ)

/-- The state of the monitor after the list, or what it refuses it with. -/
def check (t : τ) : List β → Except ε τ
  | [] => .ok t
  | b :: bs => match next t b with
    | .error e => .error e
    | .ok t' => check t' bs

def Refuses (t : τ) (l : List β) : Prop := ∃ e, check next t l = .error e

theorem check_append (t : τ) (l l' : List β) : check next t (l ++ l') =
    match check next t l with
    | .error e => .error e
    | .ok t' => check next t' l' := by
  induction l generalizing t with
  | nil => rfl
  | cons b l ih =>
    rw [List.cons_append, check, check]
    cases next t b with
    | error e => rfl
    | ok t' => exact ih t'

variable {next}

theorem check_append_ok {t t' : τ} {l l' : List β} (h : check next t l = .ok t') :
    check next t (l ++ l') = check next t' l' := by
  rw [check_append, h]

theorem Refuses.append {t : τ} {l : List β} (h : Refuses next t l) (l' : List β) :
    Refuses next t (l ++ l') := by
  obtain ⟨e, he⟩ := h
  exact ⟨e, by rw [check_append, he]⟩

/-- What is refused is not accepted. -/
theorem Refuses.not_ok {t t' : τ} {l : List β} (h : Refuses next t l) :
    check next t l ≠ .ok t' := by
  obtain ⟨e, he⟩ := h
  rw [he]
  exact nofun

/-- Blocks that each leave the monitor where it was, but for the bad ones. -/
theorem check_flatten {t : τ} {good : α → Prop} {l : List α} {outs : List (List β)}
    (h : List.Forall₂ (fun a out => (good a → check next t out = .ok t) ∧
      (¬good a → Refuses next t out)) l outs) :
    ((∀ a ∈ l, good a) → check next t outs.flatten = .ok t) ∧
      ((¬∀ a ∈ l, good a) → Refuses next t outs.flatten) := by
  induction h with
  | nil => exact ⟨fun _ => rfl, fun h => absurd nofun h⟩
  | @cons a out l outs hout _ ih =>
    rw [List.flatten_cons, List.forall_mem_cons]
    by_cases ha : good a
    · rw [Refuses, check_append_ok (hout.1 ha)]
      exact ⟨fun h => ih.1 h.2, fun h => ih.2 fun hl => h ⟨ha, hl⟩⟩
    · exact ⟨fun h => absurd h.1 ha, fun _ => (hout.2 ha).append _⟩

theorem check_flatMap {t : τ} {f : α → List β} {good : α → Prop}
    (hgood : ∀ a, good a → check next t (f a) = .ok t)
    (hbad : ∀ a, ¬good a → Refuses next t (f a)) (l : List α) :
    ((∀ a ∈ l, good a) → check next t (l.flatMap f) = .ok t) ∧
      ((¬∀ a ∈ l, good a) → Refuses next t (l.flatMap f)) := by
  have hblocks : List.Forall₂ (fun a out => (good a → check next t out = .ok t) ∧
      (¬good a → Refuses next t out)) l (l.map f) := by
    rw [List.forall₂_map_right_iff]
    exact List.forall₂_same.mpr fun a _ => ⟨hgood a, hbad a⟩
  exact check_flatten hblocks

/-- A relation kept by every step takes the monitor through the whole run. -/
theorem check_emitted {step : σ → α → σ × List β} {R : σ → τ → Prop}
    (hstep : ∀ s t a, R s t → ∃ t', check next t (step s a).2 = .ok t' ∧ R (step s a).1 t')
    {s : σ} {t : τ} (h : R s t) (l : List α) :
    ∃ t', check next t (emitted step s l) = .ok t' ∧ R (final step s l) t' := by
  induction l generalizing s t with
  | nil => exact ⟨t, rfl, h⟩
  | cons a l ih =>
    obtain ⟨t', hcheck, hR⟩ := hstep s t a h
    obtain ⟨t'', hrest, hR'⟩ := ih hR
    exact ⟨t'', by rw [emitted, check_append_ok hcheck, hrest], hR'⟩

end Monitor

end Transducer
