/-
Translations of a list, item by item, that may raise, pass over an item or say it
wrongly.

`gather` puts the results in a row or stops at the first error.  A fate tells what
becomes of one item; from the fates of all items follows when the whole translation
is refused or says every item once and in order.
-/
import Mathlib.Data.List.Forall2

namespace Gathering

universe u v w x

variable {α : Type u} {β : Type v} {γ : Type w} {ε : Type x}

/-- All results in a row, or the first error. -/
def gather (f : α → Except ε (List β)) : List α → Except ε (List β)
  | [] => .ok []
  | a :: as => match f a with
    | .error e => .error e
    | .ok out => (gather f as).map (out ++ ·)

section Gather

variable {f : α → Except ε (List β)}

theorem gather_cons (a : α) (as : List α) : gather f (a :: as) =
    match f a with
    | .error e => .error e
    | .ok out => (gather f as).map (out ++ ·) :=
  rfl

theorem gather_append (l l' : List α) : gather f (l ++ l') =
    match gather f l with
    | .error e => .error e
    | .ok out => (gather f l').map (out ++ ·) := by
  induction l with
  | nil =>
    show gather f l' = (gather f l').map ([] ++ ·)
    cases gather f l' <;> rfl
  | cons a l ih =>
    rw [List.cons_append, gather_cons, ih, gather_cons]
    cases f a with
    | error e => rfl
    | ok out =>
      cases gather f l with
      | error e => rfl
      | ok rest =>
        cases gather f l' with
        | error e => rfl
        | ok rest' => exact congrArg Except.ok (List.append_assoc out rest rest').symm

theorem gather_map (g : γ → α) (l : List γ) : gather f (l.map g) = gather (fun c => f (g c)) l := by
  induction l with
  | nil => rfl
  | cons c l ih => rw [List.map_cons, gather_cons, gather_cons, ih]

/-- Results that are unfolded afterwards may as well be unfolded on the way. -/
theorem map_gather (g : β → List γ) (l : List α) :
    (gather f l).map (List.flatMap g) = gather (fun a => (f a).map (List.flatMap g)) l := by
  induction l with
  | nil => rfl
  | cons a l ih =>
    rw [gather_cons, gather_cons, ← ih]
    cases f a with
    | error e => rfl
    | ok out =>
      cases gather f l with
      | error e => rfl
      | ok rest => exact congrArg Except.ok List.flatMap_append

theorem gather_congr {f' : α → Except ε (List β)} {l : List α} (h : ∀ a ∈ l, f a = f' a) :
    gather f l = gather f' l := by
  induction l with
  | nil => rfl
  | cons a l ih =>
    rw [gather_cons, gather_cons, h a List.mem_cons_self,
      ih fun b hb => h b (List.mem_cons_of_mem _ hb)]

/-- Items without results may as well not be there. -/
theorem gather_filter {p : α → Bool} {l : List α} (h : ∀ a ∈ l, p a = false → f a = .ok []) :
    gather f l = gather f (l.filter p) := by
  induction l with
  | nil => rfl
  | cons a l ih =>
    have hrest := ih fun b hb => h b (List.mem_cons_of_mem _ hb)
    rw [List.filter_cons]
    cases hp : p a with
    | true =>
      rw [if_pos rfl, gather_cons, gather_cons, hrest]
    | false =>
      rw [if_neg nofun, gather_cons, h a List.mem_cons_self hp, hrest]
      cases gather f (l.filter p) <;> rfl

/-- One result for each item. -/
theorem gather_singleton (g : α → Except ε β) (l : List α) :
    gather (fun a => (g a).map ([·])) l = l.mapM g := by
  induction l with
  | nil => rfl
  | cons a l ih =>
    rw [gather_cons, ih, List.mapM_cons]
    cases g a with
    | error e => rfl
    | ok b => cases l.mapM g <;> rfl

/-- A fold that may raise, seen through what it has put in a row so far. -/
theorem foldlM_view {σ : Type w} {step : σ → α → Except ε σ} {view : σ → List β}
    (h : ∀ s a, (step s a).map view = (f a).map (view s ++ ·)) (s : σ) (l : List α) :
    (l.foldlM step s).map view = (gather f l).map (view s ++ ·) := by
  induction l generalizing s with
  | nil => exact congrArg Except.ok (List.append_nil (view s)).symm
  | cons a l ih =>
    have hstep := h s a
    rw [List.foldlM_cons, gather_cons]
    cases hs : step s a with
    | error e =>
      rw [hs] at hstep
      cases hf : f a with
      | error e' =>
        rw [hf] at hstep
        exact congrArg Except.error (Except.error.inj hstep)
      | ok out =>
        rw [hf] at hstep
        cases hstep
    | ok s' =>
      rw [hs] at hstep
      cases hf : f a with
      | error e' =>
        rw [hf] at hstep
        cases hstep
      | ok out =>
        rw [hf] at hstep
        have hview : view s' = view s ++ out := Except.ok.inj hstep
        refine (ih s').trans ?_
        rw [hview]
        cases gather f l with
        | error e => rfl
        | ok rest => exact congrArg Except.ok (List.append_assoc (view s) out rest)

end Gather

/-! ## Fates -/

/-- What becomes of an item: it is said, or it is not said (rightly), or the
translation stops there, in the way that is allowed or in another. -/
inductive Fate where
  | sent
  | lost
  | refused
  | crashed
deriving DecidableEq

def Fate.stops : Fate → Bool
  | refused | crashed => true
  | _ => false

/-- The first item that stops the translation is refused, or every item is said. -/
def Settled (fates : List Fate) : Prop :=
  fates.find? Fate.stops = some .refused ∨ ∀ fate ∈ fates, fate = .sent

/-- It raises what it may, or gives what it should. -/
def Faithful (mayRaise : ε → Prop) (P : γ → Prop) : Except ε γ → Prop
  | .error e => mayRaise e
  | .ok out => P out

theorem faithful_map {mayRaise : ε → Prop} {P : β → Prop} (g : γ → β) (x : Except ε γ) :
    Faithful mayRaise P (x.map g) ↔ Faithful mayRaise (fun out => P (g out)) x := by
  cases x <;> exact Iff.rfl

/-- How the translation of one item ends, and what its fate is. -/
inductive Meets (mayRaise : ε → Prop) (R : β → Prop) : Except ε (List β) → Fate → Prop
  | sent {b : β} (h : R b) : Meets mayRaise R (.ok [b]) .sent
  | dropped : Meets mayRaise R (.ok []) .lost
  | garbled {b : β} (h : ¬R b) : Meets mayRaise R (.ok [b]) .lost
  | refused {e : ε} (h : mayRaise e) : Meets mayRaise R (.error e) .refused
  | crashed {e : ε} (h : ¬mayRaise e) : Meets mayRaise R (.error e) .crashed

section Fates

variable {mayRaise : ε → Prop} {R : β → α → Prop} {f : α → Except ε (List β)} {fate : α → Fate}

theorem gather_error {l : List α} {e : ε}
    (h : ∀ a ∈ l, Meets mayRaise (R · a) (f a) (fate a)) (he : gather f l = .error e) :
    mayRaise e ∧ (l.map fate).find? Fate.stops = some .refused ∨
      ¬mayRaise e ∧ (l.map fate).find? Fate.stops = some .crashed := by
  induction l with
  | nil => cases he
  | cons a l ih =>
    have hhead := h a List.mem_cons_self
    have htail := ih fun b hb => h b (List.mem_cons_of_mem _ hb)
    rw [gather_cons] at he
    rw [List.map_cons, List.find?_cons]
    generalize f a = out at hhead he
    generalize fate a = ending at hhead ⊢
    cases hhead with
    | sent | dropped | garbled =>
      cases hrest : gather f l with
      | error e' =>
        rw [hrest] at he htail
        exact htail he
      | ok rest =>
        rw [hrest] at he
        cases he
    | refused hmay => exact .inl ⟨Except.error.inj he ▸ hmay, rfl⟩
    | crashed hmay => exact .inr ⟨Except.error.inj he ▸ hmay, rfl⟩

/-- Without an error nothing stops, and all is said exactly if every item is sent. -/
theorem gather_ok {l : List α} {out : List β}
    (h : ∀ a ∈ l, Meets mayRaise (R · a) (f a) (fate a)) (hout : gather f l = .ok out) :
    (l.map fate).find? Fate.stops = none ∧ out.length ≤ l.length ∧
      (List.Forall₂ R out l ↔ ∀ a ∈ l, fate a = .sent) := by
  induction l generalizing out with
  | nil =>
    rw [← Except.ok.inj hout]
    exact ⟨rfl, Nat.le_refl 0, iff_of_true .nil nofun⟩
  | cons a l ih =>
    have hhead := h a List.mem_cons_self
    rw [gather_cons] at hout
    rw [List.map_cons, List.find?_cons, List.forall_mem_cons]
    generalize f a = first at hhead hout
    generalize fate a = ending at hhead ⊢
    cases hrest : gather f l with
    | error e =>
      rw [hrest] at hout
      cases hhead <;> cases hout
    | ok rest =>
      obtain ⟨hstops, hlength, hall⟩ := ih (fun b hb => h b (List.mem_cons_of_mem _ hb)) hrest
      rw [hrest] at hout
      cases hhead with
      | sent hsaid =>
        rw [← Except.ok.inj hout]
        refine ⟨hstops, Nat.succ_le_succ hlength, ?_⟩
        show List.Forall₂ R (_ :: rest) (a :: l) ↔ _
        rw [List.forall₂_cons, hall]
        exact and_congr (iff_of_true hsaid rfl) Iff.rfl
      | dropped =>
        rw [← Except.ok.inj hout]
        refine ⟨hstops, Nat.le_succ_of_le hlength, iff_of_false (fun hsaid => ?_) fun hsent => ?_⟩
        · have heq : rest.length = l.length + 1 := hsaid.length_eq
          omega
        · cases hsent.1
      | garbled hnot =>
        rw [← Except.ok.inj hout]
        refine ⟨hstops, Nat.succ_le_succ hlength, iff_of_false (fun hsaid => ?_) fun hsent => ?_⟩
        · exact hnot (List.forall₂_cons.mp hsaid).1
        · cases hsent.1
      | refused hmay | crashed hmay => cases hout

/-- A translation is refused, or says every item once and in order, exactly if the
fates are settled. -/
theorem faithful_gather_iff {l : List α} (h : ∀ a ∈ l, Meets mayRaise (R · a) (f a) (fate a)) :
    Faithful mayRaise (List.Forall₂ R · l) (gather f l) ↔ Settled (l.map fate) := by
  rw [Settled, List.forall_mem_map]
  cases hgather : gather f l with
  | error e =>
    rcases gather_error h hgather with ⟨hmay, hfirst⟩ | ⟨hmay, hfirst⟩
    · exact iff_of_true hmay (.inl hfirst)
    · refine iff_of_false hmay fun hsettled => ?_
      rw [hfirst] at hsettled
      rcases hsettled with hrefused | hsent
      · cases hrefused
      · obtain ⟨ending, hmem, heq⟩ := List.mem_map.mp (List.mem_of_find?_eq_some hfirst)
        exact absurd (heq ▸ hsent ending hmem) nofun
  | ok out =>
    obtain ⟨hnone, -, hall⟩ := gather_ok h hgather
    rw [hnone]
    exact hall.trans ⟨.inr, fun hsettled => hsettled.resolve_left nofun⟩

/-- The fate of a whole from those of its parts. -/
def wholeFate (fates : List Fate) : Fate :=
  match fates.find? Fate.stops with
  | some fate => fate
  | none => if fates.all (· = .sent) then .sent else .lost

/-- A whole is translated as its parts are. -/
theorem meets_whole {R : γ → Prop} {x : Except ε γ} {fates : List Fate}
    (herror : ∀ e, x = .error e → mayRaise e ∧ fates.find? Fate.stops = some .refused ∨
      ¬mayRaise e ∧ fates.find? Fate.stops = some .crashed)
    (hok : ∀ out, x = .ok out → fates.find? Fate.stops = none ∧
      (R out ↔ ∀ fate ∈ fates, fate = .sent)) :
    Meets mayRaise R (x.map ([·])) (wholeFate fates) := by
  rw [wholeFate]
  cases hx : x with
  | error e =>
    rcases herror e hx with ⟨hmay, hfirst⟩ | ⟨hnot, hfirst⟩
    · rw [hfirst]
      exact .refused hmay
    · rw [hfirst]
      exact .crashed hnot
  | ok out =>
    obtain ⟨hnone, hall⟩ := hok out hx
    rw [hnone]
    show Meets mayRaise R (.ok [out]) (if fates.all (· = .sent) then Fate.sent else Fate.lost)
    by_cases hsent : fates.all (· = .sent) = true
    · rw [if_pos hsent]
      exact .sent (hall.mpr (by simpa using hsent))
    · rw [if_neg hsent]
      exact .garbled fun hR => hsent (by simpa using hall.mp hR)

/-- Fates that do not stop anything do not matter for where it stops. -/
theorem find?_stops_filter {fate' : α → Fate} {p : α → Bool} {l : List α}
    (hsame : ∀ a ∈ l, p a = true → fate' a = fate a)
    (hother : ∀ a ∈ l, p a = false → (fate' a).stops = false) :
    (l.map fate').find? Fate.stops = ((l.filter p).map fate).find? Fate.stops := by
  induction l with
  | nil => rfl
  | cons a l ih =>
    have hrest := ih (fun b hb => hsame b (List.mem_cons_of_mem _ hb))
      fun b hb => hother b (List.mem_cons_of_mem _ hb)
    rw [List.map_cons, List.find?_cons, List.filter_cons]
    cases hp : p a with
    | true =>
      rw [if_pos rfl, List.map_cons, List.find?_cons, hsame a List.mem_cons_self hp, hrest]
    | false => rw [if_neg nofun, hother a List.mem_cons_self hp, hrest]

end Fates

end Gathering
