/-
Runs of a system that moves in labelled steps.

A system is its step relation.  A run keeps the steps it took, each with the
state before and after, so that a condition on steps can speak of both.  The
rules: an invariant, an invariant that only steps meeting a condition keep, and
the exchange of one condition on all steps of a run for another.  A system may
keep a log; a promise about it speaks of an entry among those before and after.
-/
import Mathlib.Data.List.Basic
import Mathlib.Order.WellFounded

namespace Behaviour

universe u v w

variable {σ : Type u} {α : Type v} {β : Type w}

/-- One step, as it was taken. -/
structure Transition (σ : Type u) (α : Type v) where
  source : σ
  action : α
  target : σ

variable (Step : σ → α → σ → Prop)

/-- From the first state the steps lead to the last one. -/
inductive Run (s : σ) : List (Transition σ α) → σ → Prop where
  | nil : Run s [] s
  | snoc {s' s'' : σ} {ts : List (Transition σ α)} {a : α} (run : Run s ts s')
      (step : Step s' a s'') :
      Run s (ts ++ [⟨s', a, s''⟩]) s''

variable {Step}

namespace Run

/-- What holds at first and is kept by the steps that meet a condition holds after a run
of such steps. -/
theorem invariant_of {P : σ → Prop} {Q : Transition σ α → Prop}
    (hstep : ∀ t : Transition σ α, Step t.source t.action t.target → Q t → P t.source → P t.target)
    {s s' : σ} {ts : List (Transition σ α)} (run : Run Step s ts s') (hs : P s)
    (hok : ∀ t ∈ ts, Q t) : P s' := by
  induction run with
  | nil => exact hs
  | @snoc s' s'' ts a run step ih =>
    have hs' : P s' := ih fun t ht => hok t (List.mem_append_left _ ht)
    exact hstep ⟨s', a, s''⟩ step (hok _ (List.mem_append_right _ List.mem_cons_self)) hs'

theorem invariant {P : σ → Prop} (hstep : ∀ s a s', Step s a s' → P s → P s')
    {s s' : σ} {ts : List (Transition σ α)} (run : Run Step s ts s') (hs : P s) : P s' :=
  invariant_of (Q := fun _ => True) (fun t step _ => hstep t.source t.action t.target step)
    run hs fun _ _ => trivial

/-- As `invariant_of`, for what speaks of the steps taken so far. -/
theorem invariant_log {P : List (Transition σ α) → σ → Prop} {Q : Transition σ α → Prop}
    (hstep : ∀ (ts : List (Transition σ α)) (t : Transition σ α),
      Step t.source t.action t.target → Q t → P ts t.source → P (ts ++ [t]) t.target)
    {s s' : σ} {ts : List (Transition σ α)} (run : Run Step s ts s') (hs : P [] s)
    (hok : ∀ t ∈ ts, Q t) : P ts s' := by
  induction run with
  | nil => exact hs
  | @snoc s' s'' ts a run step ih =>
    have hs' : P ts s' := ih fun t ht => hok t (List.mem_append_left _ ht)
    exact hstep ts ⟨s', a, s''⟩ step (hok _ (List.mem_append_right _ List.mem_cons_self)) hs'

theorem append {s s' s'' : σ} {ts ts' : List (Transition σ α)} (h : Run Step s ts s')
    (h' : Run Step s' ts' s'') : Run Step s (ts ++ ts') s'' := by
  induction h' with
  | nil => rw [List.append_nil]; exact h
  | snoc _ step ih => rw [← List.append_assoc]; exact ih.snoc step

/-- A step of a run was taken where the steps before it had led. -/
theorem before {s s' : σ} {ts : List (Transition σ α)} (run : Run Step s ts s') {t : Transition σ α}
    (ht : t ∈ ts) :
    Step t.source t.action t.target ∧
      ∃ earlier, earlier ++ [t] <+: ts ∧ Run Step s earlier t.source := by
  induction run with
  | nil => cases ht
  | @snoc s' s'' ts a run step ih =>
    rcases List.mem_append.mp ht with ht | ht
    · obtain ⟨hstep, earlier, hprefix, hrun⟩ := ih ht
      exact ⟨hstep, earlier, hprefix.trans (List.prefix_append _ _), hrun⟩
    · obtain rfl := List.mem_singleton.mp ht
      exact ⟨step, ts, List.prefix_refl _, run⟩

/-- Two conditions that agree at the states an invariant allows, the first of which keeps the
invariant, hold of all steps of the same runs. -/
theorem forall_iff {P : σ → Prop} {A B : Transition σ α → Prop}
    (hiff : ∀ t : Transition σ α, Step t.source t.action t.target → P t.source → (A t ↔ B t))
    (hnext : ∀ t : Transition σ α, Step t.source t.action t.target → A t → P t.source → P t.target)
    {s s' : σ} {ts : List (Transition σ α)} (run : Run Step s ts s') (hs : P s) :
    (∀ t ∈ ts, A t) ↔ ∀ t ∈ ts, B t := by
  induction run with
  | nil => exact iff_of_true (fun _ h => nomatch h) fun _ h => nomatch h
  | @snoc s' s'' ts a run step ih =>
    simp only [List.forall_mem_append, List.forall_mem_singleton]
    rw [← ih]
    refine and_congr_right fun hearlier => hiff ⟨s', a, s''⟩ step ?_
    exact invariant_of hnext run hs hearlier

theorem cons {s s' s'' : σ} {a : α} {ts : List (Transition σ α)} (step : Step s a s')
    (run : Run Step s' ts s'') : Run Step s (⟨s, a, s'⟩ :: ts) s'' :=
  append (.snoc .nil step) run

/-- Where an invariant holds under which every step goes down, the steps come to an end. -/
theorem not_endless {ρ : Type w} {r : ρ → ρ → Prop} [IsWellFounded ρ r] (rank : σ → ρ) {P : σ → Prop}
    (hkept : ∀ s a s', Step s a s' → P s → P s')
    (hdown : ∀ s a s', Step s a s' → P s → r (rank s') (rank s)) {s : σ} (hs : P s) :
    ¬∃ f : Nat → σ, f 0 = s ∧ ∀ n, ∃ a, Step (f n) a (f (n + 1)) := by
  rintro ⟨f, hfirst, hsteps⟩
  have hP : ∀ n, P (f n) := by
    intro n
    induction n with
    | zero => rwa [hfirst]
    | succ n ih =>
      obtain ⟨a, hstep⟩ := hsteps n
      exact hkept _ a _ hstep ih
  obtain ⟨n, hn⟩ := WellFounded.not_rel_apply_succ (r := r) fun n => rank (f n)
  obtain ⟨a, hstep⟩ := hsteps n
  exact hn (hdown _ a _ hstep (hP n))

end Run

/-! ## Systems that compute -/

section Play

variable (next : σ → α → Option σ)

/-- The steps that the actions take, when each of them is possible. -/
def play (s : σ) : List α → Option (List (Transition σ α) × σ)
  | [] => some ([], s)
  | a :: as => (next s a).bind fun s' =>
    (play s' as).map fun played => (⟨s, a, s'⟩ :: played.1, played.2)

variable {next}

theorem run_of_play {s : σ} {as : List α} {played : List (Transition σ α) × σ}
    (h : play next s as = some played) :
    Run (fun s a s' => next s a = some s') s played.1 played.2 := by
  induction as generalizing s played with
  | nil =>
    obtain rfl := Option.some.inj h
    exact .nil
  | cons a as ih =>
    obtain ⟨s', hnext, hrest⟩ := Option.bind_eq_some_iff.mp h
    obtain ⟨rest, hplay, rfl⟩ := Option.map_eq_some_iff.mp hrest
    exact .cons hnext (ih hplay)

end Play

/-! ## Logs -/

section Logs

variable {ε : Type u}

/-- Each entry stands to those before and after it as `R` says. -/
def EachAt (R : List ε → ε → List ε → Prop) (log : List ε) : Prop :=
  ∀ earlier e later, log = earlier ++ e :: later → R earlier e later

variable {R : List ε → ε → List ε → Prop}

theorem eachAt_nil : EachAt R [] := by
  intro earlier e later h
  exact absurd h.symm (List.append_ne_nil_of_right_ne_nil _ (List.cons_ne_nil _ _))

theorem eachAt_snoc {log : List ε} {e : ε} :
    EachAt R (log ++ [e]) ↔
      EachAt (fun earlier x later => R earlier x (later ++ [e])) log ∧ R log e [] := by
  constructor
  · intro h
    refine ⟨fun earlier x later hsplit => h earlier x (later ++ [e]) ?_, h log e [] rfl⟩
    rw [hsplit, List.append_assoc, List.cons_append]
  · rintro ⟨hold, hnew⟩ earlier x later hsplit
    rcases List.eq_nil_or_concat later with rfl | ⟨later, last, rfl⟩
    · obtain ⟨rfl, hx⟩ := List.append_inj' hsplit rfl
      obtain rfl := List.singleton_inj.mp hx
      exact hnew
    · rw [List.concat_eq_append, ← List.cons_append, ← List.append_assoc] at hsplit
      obtain ⟨rfl, hlast⟩ := List.append_inj' hsplit rfl
      obtain rfl := List.singleton_inj.mp hlast
      rw [List.concat_eq_append]
      exact hold earlier x later rfl

theorem EachAt.imp {R' : List ε → ε → List ε → Prop} {log : List ε} (h : EachAt R log)
    (himp : ∀ earlier e later, R earlier e later → R' earlier e later) : EachAt R' log :=
  fun earlier e later hsplit => himp earlier e later (h earlier e later hsplit)

end Logs

end Behaviour
