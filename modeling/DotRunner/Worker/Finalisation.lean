import DotRunner.Worker.AmplifierAgent

/-!
# Finalisation is exact

However the library's operations end and wherever the caller is cancelled: one
completion, which tells a success only where there was one; every handle closed once
and in order; the turn cancelled once and before that is said; and a reply only after
the success was announced.
-/

namespace DotRunner
namespace AmplifierAgent

open Behaviour

/-! ## What a log says -/

def dispatches (log : List Event) : List Status :=
  log.filterMap fun
    | .dispatched status => some status
    | _ => none

def closes (log : List Event) : List Handle :=
  log.filterMap fun
    | .close h => some h
    | _ => none

def cancels (log : List Event) : Nat := log.count .turnCancel

@[simp] theorem dispatches_append (log log' : List Event) :
    dispatches (log ++ log') = dispatches log ++ dispatches log' := List.filterMap_append

@[simp] theorem closes_append (log log' : List Event) :
    closes (log ++ log') = closes log ++ closes log' := List.filterMap_append

@[simp] theorem cancels_append (log log' : List Event) :
    cancels (log ++ log') = cancels log + cancels log' := List.count_append

/-- What has to be seen in front of an event. -/
def Kept (earlier : List Event) : Event → Prop
  | .dispatched .success => .terminal .success ∈ earlier ∧ .cancelRequested ∉ earlier ∧
      ∀ h, .closeFailed h ∉ earlier
  | .dispatched .cancelled => .turnStarted ∈ earlier → .turnCancel ∈ earlier
  | .returned => .dispatched .success ∈ earlier
  | _ => True

/-- The handles there are, in the order in which they are closed. -/
def State.handles (s : State) : List Handle :=
  (if s.session then [.session] else []) ++ if s.agent then [.agent] else []

/-! ## The invariant -/

/-- What holds wherever the finaliser is. -/
structure Core (s : State) : Prop where
  dispatches_eq : dispatches s.log = s.committed.toList
  cancels_eq : cancels s.log = if s.drained then 1 else 0
  requested_iff : 0 < s.requested ↔ .cancelRequested ∈ s.log
  close_failed : ∀ h, .closeFailed h ∈ s.log → 0 < s.cleanupErrors
  turn_iff : s.turn = true ↔ .turnStarted ∈ s.log
  finished : ∀ state, s.consumer = .finished state → .terminal state ∈ s.log
  success : s.status = .success → .terminal .success ∈ s.log
  kept : EachAt (fun earlier e _ => Kept earlier e) s.log
  settled : ∀ status, s.committed = some status → s.status = status
  unharmed : s.status = .success → s.committed = none → s.primary = none

/-- What is closed when the finaliser is here. -/
def State.closed (s : State) : List Handle :=
  match s.finaliser with
  | .absent | .scheduled | .cancelling false | .draining false => []
  | .closing .session => [.session]
  | _ => s.handles

def Finaliser.begun : Finaliser → Bool
  | .absent => false
  | _ => true

/-- `cancel_and_drain` at work, or about to be for the second time. -/
def Finaliser.drains : Finaliser → Bool
  | .cancelling _ | .draining _ => true
  | _ => false

def Finaliser.isAgain : Finaliser → Bool
  | .cancelling true | .draining true | .deferred => true
  | _ => false

def Finaliser.delivered : Finaliser → Bool
  | .dispatching | .done => true
  | _ => false

structure Inv (s : State) : Prop extends Core s where
  closes_eq : closes s.log = s.closed
  closing_session : s.finaliser = .closing .session → s.session = true
  closing_agent : s.finaliser = .closing .agent → s.agent = true
  committed_iff : s.committed.isSome = s.finaliser.delivered
  clean : s.finaliser = .publishing → s.status = .success → s.cleanupErrors = 0
  again : s.finaliser.isAgain = true → s.status = .cancelled
  drains : s.finaliser.drains = true → s.drained = true
  begun : s.finaliser.begun = true ↔ s.caller = .finalising ∨ s.caller = .ended
  ended : s.caller = .ended → s.finaliser = .done
  before : s.finaliser = .absent →
    s.status = .incomplete ∧ s.primary = none ∧ s.cleanupErrors = 0 ∧ s.drained = false
  unprimed : s.finaliser.begun = true → s.primary = none →
    s.status = .success ∨ 0 < s.cleanupErrors

theorem inv_init : Inv {} where
  dispatches_eq := rfl
  cancels_eq := rfl
  requested_iff := by simp
  close_failed := by simp
  turn_iff := by simp
  finished := by simp
  success := by simp
  kept := eachAt_nil
  settled := by simp
  unharmed := by simp
  closes_eq := rfl
  closing_session := by simp
  closing_agent := by simp
  committed_iff := rfl
  clean := by simp
  again := by simp [Finaliser.isAgain]
  drains := by simp [Finaliser.drains]
  begun := by simp [Finaliser.begun]
  ended := by simp
  before := by simp
  unprimed := by simp [Finaliser.begun]

/-! ## Events -/

/-- An event that changes no count, and has in front of it what it has to have. -/
theorem Core.note {s : State} (h : Core s) {e : Event} (hdispatch : dispatches [e] = [])
    (hcancel : cancels [e] = 0) (hrequest : e ≠ .cancelRequested) (hturn : e ≠ .turnStarted)
    (hfailed : ∀ handle, e = .closeFailed handle → 0 < s.cleanupErrors)
    (hkept : Kept s.log e) : Core (s.note e) where
  dispatches_eq := by
    show dispatches (s.log ++ [e]) = _
    rw [dispatches_append, hdispatch, List.append_nil]
    exact h.dispatches_eq
  cancels_eq := by
    show cancels (s.log ++ [e]) = _
    rw [cancels_append, hcancel]
    exact h.cancels_eq
  requested_iff := by
    show 0 < s.requested ↔ _ ∈ s.log ++ [e]
    rw [List.mem_append, List.mem_singleton, h.requested_iff]
    exact ⟨.inl, fun hor => hor.resolve_right (Ne.symm hrequest)⟩
  close_failed handle hmem := by
    obtain hmem | hmem := List.mem_append.mp hmem
    · exact h.close_failed handle hmem
    · exact hfailed handle (List.mem_singleton.mp hmem).symm
  turn_iff := by
    show s.turn = true ↔ _ ∈ s.log ++ [e]
    rw [List.mem_append, List.mem_singleton, h.turn_iff]
    exact ⟨.inl, fun hor => hor.resolve_right (Ne.symm hturn)⟩
  finished state hstate := List.mem_append_left _ (h.finished state hstate)
  success hstatus := List.mem_append_left _ (h.success hstatus)
  kept := eachAt_snoc.mpr ⟨h.kept, hkept⟩
  settled := h.settled
  unharmed := h.unharmed

theorem Core.note_close {s : State} (h : Core s) (handle : Handle) : Core (s.note (.close handle)) :=
  h.note rfl rfl nofun nofun nofun trivial

theorem Core.moved {s : State} (h : Core s) (finaliser : Finaliser) :
    Core { s with finaliser := finaliser } := { h with }

/-- A failure is counted. -/
theorem Core.cleanup {s : State} (h : Core s) (r : Settling) : Core (s.cleanup r) := by
  rw [State.cleanup]
  split
  · exact { h with close_failed := fun _ _ => Nat.succ_pos _ }
  · exact h

/-! ## The finaliser -/

/-- In front of what the finaliser does next. -/
structure Ready (s : State) : Prop extends Core s where
  finalising : s.caller = .finalising
  uncommitted : s.committed = none
  unprimed : s.primary = none → s.status = .success ∨ 0 < s.cleanupErrors

theorem Inv.ready {s : State} (h : Inv s) (hbegun : s.finaliser.begun = true)
    (hdone : s.finaliser ≠ .done) (hdelivered : s.finaliser.delivered = false) : Ready s where
  toCore := h.toCore
  finalising := (h.begun.mp hbegun).resolve_right fun hended => hdone (h.ended hended)
  uncommitted := by
    have hcommitted := h.committed_iff
    rw [hdelivered] at hcommitted
    simpa using hcommitted
  unprimed := h.unprimed hbegun

theorem Ready.cleanup {s : State} (h : Ready s) (r : Settling) : Ready (s.cleanup r) := by
  have hcore := h.toCore.cleanup r
  rw [State.cleanup] at hcore ⊢
  split
  · rename_i hfailed
    rw [if_pos hfailed] at hcore
    exact { hcore with
      finalising := h.finalising
      uncommitted := h.uncommitted
      unprimed := fun _ => .inr (Nat.succ_pos _) }
  · exact h

/-- The finaliser at one of its places. -/
theorem Ready.inv {s : State} (h : Ready s) (hbegun : s.finaliser.begun = true)
    (hdelivered : s.finaliser.delivered = false) (hcloses : closes s.log = s.closed)
    (hsession : s.finaliser = .closing .session → s.session = true)
    (hagent : s.finaliser = .closing .agent → s.agent = true)
    (hclean : s.finaliser = .publishing → s.status = .success → s.cleanupErrors = 0)
    (hagain : s.finaliser.isAgain = true → s.status = .cancelled)
    (hdrains : s.finaliser.drains = true → s.drained = true) : Inv s where
  toCore := h.toCore
  closes_eq := hcloses
  closing_session := hsession
  closing_agent := hagent
  committed_iff := by rw [h.uncommitted, hdelivered]; rfl
  clean := hclean
  again := hagain
  drains := hdrains
  begun := iff_of_true hbegun (.inl h.finalising)
  ended hended := by rw [h.finalising] at hended; cases hended
  before habsent := by rw [habsent] at hbegun; cases hbegun
  unprimed _ := h.unprimed

theorem Ready.beforeDelivery {s : State} (h : Ready s) (hcloses : closes s.log = s.handles) :
    Inv s.beforeDelivery := by
  rw [State.beforeDelivery]
  split
  · rename_i hincomplete
    have hready : Ready { s with status := .incomplete, finaliser := .publishing } :=
      { h with
        success := nofun
        settled := fun status hstatus => by rw [h.uncommitted] at hstatus; cases hstatus
        unharmed := nofun
        unprimed := fun _ => .inr hincomplete.1 }
    exact hready.inv rfl rfl hcloses nofun nofun nofun nofun nofun
  · rename_i hkeeps
    have hready : Ready { s with finaliser := .publishing } := { h with }
    refine hready.inv rfl rfl hcloses nofun nofun (fun _ hstatus => ?_) nofun nofun
    have hprimary : s.primary = none := h.unharmed hstatus h.uncommitted
    by_contra hne
    refine hkeeps ⟨Nat.pos_of_ne_zero hne, hprimary, ?_⟩
    rw [show s.status = .success from hstatus]
    decide

theorem Ready.closeAgent {s : State} (h : Ready s)
    (hcloses : closes s.log = if s.session then [.session] else []) : Inv s.closeAgent := by
  rw [State.closeAgent]
  split
  · rename_i hagent
    have hready : Ready ({ s with finaliser := .closing .agent }.note (.close .agent)) :=
      { toCore := (h.toCore.moved (.closing .agent)).note_close .agent
        finalising := h.finalising
        uncommitted := h.uncommitted
        unprimed := h.unprimed }
    refine hready.inv rfl rfl ?_ nofun (fun _ => hagent) nofun nofun nofun
    show closes (s.log ++ [.close .agent]) = s.handles
    rw [closes_append, hcloses, State.handles, if_pos hagent]
    rfl
  · rename_i hagent
    refine h.beforeDelivery ?_
    rw [hcloses, State.handles, if_neg hagent, List.append_nil]

theorem Ready.closeSession {s : State} (h : Ready s) (hcloses : closes s.log = []) :
    Inv s.closeSession := by
  rw [State.closeSession]
  split
  · rename_i hsession
    have hready : Ready ({ s with finaliser := .closing .session }.note (.close .session)) :=
      { toCore := (h.toCore.moved (.closing .session)).note_close .session
        finalising := h.finalising
        uncommitted := h.uncommitted
        unprimed := h.unprimed }
    refine hready.inv rfl rfl ?_ (fun _ => hsession) nofun nofun nofun nofun
    show closes (s.log ++ [.close .session]) = [.session]
    rw [closes_append, hcloses]
    rfl
  · rename_i hsession
    refine h.closeAgent ?_
    rw [hcloses, if_neg hsession]

/-- What has been closed when `cancel_and_drain` begins, the first time and again. -/
def State.closedAt (s : State) (again : Bool) : List Handle := if again then s.handles else []

theorem Ready.afterDrain {s : State} (h : Ready s) {again : Bool}
    (hcloses : closes s.log = s.closedAt again)
    (hagain : again = true → s.status = .cancelled) : Inv (s.afterDrain again) := by
  cases again with
  | false => exact h.closeSession hcloses
  | true =>
    have hready : Ready { s with finaliser := .publishing } := { h with }
    refine hready.inv rfl rfl hcloses nofun nofun (fun _ hstatus => ?_) nofun nofun
    rw [show s.status = .cancelled from hagain rfl] at hstatus
    cases hstatus

theorem Ready.cancelAndDrain {s : State} (h : Ready s) {again : Bool}
    (hcloses : closes s.log = s.closedAt again)
    (hagain : again = true → s.status = .cancelled) : Inv (s.cancelAndDrain again) := by
  rw [State.cancelAndDrain]
  split
  · rename_i hdrain
    have hcancels : cancels s.log = 0 := by rw [h.cancels_eq, if_neg (by simp [hdrain.1])]
    have hready : Ready ({ s with drained := true, finaliser := .cancelling again }.note
        .turnCancel) :=
      { dispatches_eq := by
          show dispatches (s.log ++ [.turnCancel]) = _
          rw [dispatches_append]
          exact (List.append_nil _).trans h.dispatches_eq
        cancels_eq := by
          show cancels (s.log ++ [.turnCancel]) = 1
          rw [cancels_append, hcancels]
          rfl
        requested_iff := by
          show 0 < s.requested ↔ _ ∈ s.log ++ [.turnCancel]
          simpa using h.requested_iff
        close_failed := fun handle hmem => h.close_failed handle (by simpa [State.note] using hmem)
        turn_iff := by
          show s.turn = true ↔ _ ∈ s.log ++ [.turnCancel]
          simpa using h.turn_iff
        finished := fun state hstate => List.mem_append_left _ (h.finished state hstate)
        success := fun hstatus => List.mem_append_left _ (h.success hstatus)
        kept := eachAt_snoc.mpr ⟨h.kept, trivial⟩
        settled := h.settled
        unharmed := h.unharmed
        finalising := h.finalising
        uncommitted := h.uncommitted
        unprimed := h.unprimed }
    have hclosed : closes (s.log ++ [.turnCancel]) = s.closedAt again := by
      rw [closes_append, hcloses]
      exact List.append_nil _
    cases again with
    | false => exact hready.inv rfl rfl hclosed nofun nofun nofun nofun fun _ => rfl
    | true => exact hready.inv rfl rfl hclosed nofun nofun nofun (fun _ => hagain rfl) fun _ => rfl
  · exact h.afterDrain hcloses hagain

theorem Ready.finalize {s : State} (h : Ready s) (hcloses : closes s.log = []) : Inv s.finalize := by
  rw [State.finalize]
  split
  · exact h.cancelAndDrain hcloses nofun
  · exact h.closeSession hcloses

/-! ## The delivery -/

theorem Core.observePendingCancellation {s : State} (h : Core s) (huncommitted : s.committed = none) :
    Core s.observePendingCancellation := by
  rw [State.observePendingCancellation]
  split
  · exact { h with
      success := nofun
      settled := fun status hstatus => by rw [huncommitted] at hstatus; cases hstatus
      unharmed := nofun }
  · exact h

theorem Ready.observePendingCancellation {s : State} (h : Ready s) :
    Ready s.observePendingCancellation := by
  have hcore := h.toCore.observePendingCancellation h.uncommitted
  rw [State.observePendingCancellation] at hcore ⊢
  split
  · rename_i hrequested
    rw [if_pos hrequested] at hcore
    refine { hcore with finalising := h.finalising, uncommitted := h.uncommitted, unprimed := ?_ }
    intro hprimary
    simp at hprimary
  · exact h

/-- What the dispatch of a status has in front of it. -/
theorem Core.kept_dispatched {s : State} (h : Core s)
    (hrequested : s.status = .success → s.requested = 0)
    (hclean : s.status = .success → s.cleanupErrors = 0)
    (hdrained : s.status = .cancelled → s.turn = true → s.drained = true) :
    Kept s.log (.dispatched s.status) := by
  cases hstatus : s.status with
  | success =>
    refine ⟨h.success hstatus, fun hmem => ?_, fun handle hmem => ?_⟩
    · have hpos := h.requested_iff.mpr hmem
      rw [hrequested hstatus] at hpos
      exact absurd hpos (Nat.lt_irrefl 0)
    · have hpos := h.close_failed handle hmem
      rw [hclean hstatus] at hpos
      exact absurd hpos (Nat.lt_irrefl 0)
  | cancelled =>
    intro hturn
    have hone : cancels s.log = 1 := by
      rw [h.cancels_eq, if_pos (hdrained hstatus (h.turn_iff.mpr hturn))]
    exact List.count_pos_iff.mp (by rw [← cancels, hone]; exact Nat.one_pos)
  | incomplete => trivial

theorem Ready.dispatch {s : State} (h : Ready s) (hcloses : closes s.log = s.handles)
    (hkept : Kept s.log (.dispatched s.status)) :
    Inv ({ s with finaliser := .dispatching, committed := some s.status }.note
      (.dispatched s.status)) where
  dispatches_eq := by
    show dispatches (s.log ++ [.dispatched s.status]) = [s.status]
    rw [dispatches_append, h.dispatches_eq, h.uncommitted]
    rfl
  cancels_eq := by
    show cancels (s.log ++ [.dispatched s.status]) = _
    rw [cancels_append]
    exact h.cancels_eq
  requested_iff := by
    show 0 < s.requested ↔ _ ∈ s.log ++ [.dispatched s.status]
    simpa using h.requested_iff
  close_failed handle hmem := h.close_failed handle (by simpa [State.note] using hmem)
  turn_iff := by
    show s.turn = true ↔ _ ∈ s.log ++ [.dispatched s.status]
    simpa using h.turn_iff
  finished state hstate := List.mem_append_left _ (h.finished state hstate)
  success hstatus := List.mem_append_left _ (h.success hstatus)
  kept := eachAt_snoc.mpr ⟨h.kept, hkept⟩
  settled status hstatus := Option.some.inj hstatus
  unharmed := nofun
  closes_eq := by
    show closes (s.log ++ [.dispatched s.status]) = s.handles
    rw [closes_append, hcloses]
    exact List.append_nil _
  closing_session := nofun
  closing_agent := nofun
  committed_iff := rfl
  clean := nofun
  again := nofun
  drains := nofun
  begun := iff_of_true rfl (.inl h.finalising)
  ended hended := by
    have hcaller : s.caller = .ended := hended
    rw [h.finalising] at hcaller
    cases hcaller
  before := nofun
  unprimed _ := h.unprimed

theorem Ready.publishCompletion {s : State} (h : Ready s) (hcloses : closes s.log = s.handles)
    (hclean : s.status = .success → s.cleanupErrors = 0) : Inv s.publishCompletion := by
  have hready := h.observePendingCancellation
  have hcloses' : closes s.observePendingCancellation.log =
      s.observePendingCancellation.handles := by
    rw [State.observePendingCancellation]
    split <;> exact hcloses
  have hobserved : s.observePendingCancellation.status = .success →
      s.observePendingCancellation.requested = 0 ∧
        s.observePendingCancellation.cleanupErrors = 0 := by
    rw [State.observePendingCancellation]
    split
    · nofun
    · rename_i hrequested
      exact fun hstatus => ⟨Nat.eq_zero_of_not_pos hrequested, hclean hstatus⟩
  rw [State.publishCompletion]
  generalize s.observePendingCancellation = o at *
  split
  · rename_i hdefers
    have hready' : Ready { o with finaliser := .deferred } := { hready with }
    exact hready'.inv rfl rfl hcloses' nofun nofun nofun (fun _ => hdefers.1) nofun
  · rename_i hgoes
    refine hready.dispatch hcloses' (hready.kept_dispatched (fun hs => (hobserved hs).1)
      (fun hs => (hobserved hs).2) fun hstatus hturn => ?_)
    by_contra hdrained
    exact hgoes ⟨hstatus, hturn, by simpa using hdrained⟩

/-! ## The caller -/

/-- Before the finaliser is made. -/
structure Unbegun (s : State) : Prop extends Core s where
  absent : s.finaliser = .absent
  uncommitted : s.committed = none
  incomplete : s.status = .incomplete
  unprimed : s.primary = none
  clean : s.cleanupErrors = 0
  undrained : s.drained = false
  unclosed : closes s.log = []

def Caller.waits : Caller → Bool
  | .finalising | .ended => false
  | _ => true

theorem Inv.unbegun {s : State} (h : Inv s) (hwaits : s.caller.waits = true) : Unbegun s := by
  have habsent : s.finaliser = .absent := by
    have hnot : ¬ s.finaliser.begun = true := by
      intro hbegun
      obtain hcaller | hcaller := h.begun.mp hbegun <;>
        · rw [hcaller] at hwaits
          cases hwaits
    cases hfinaliser : s.finaliser with
    | absent => rfl
    | _ => exact absurd (by rw [hfinaliser]; rfl) hnot
  obtain ⟨hstatus, hprimary, hclean, hdrained⟩ := h.before habsent
  have hcommitted := h.committed_iff
  have hcloses := h.closes_eq
  rw [habsent] at hcommitted
  rw [State.closed, habsent] at hcloses
  exact ⟨h.toCore, habsent, by simpa [Finaliser.delivered] using hcommitted, hstatus, hprimary,
    hclean, hdrained, hcloses⟩

theorem Unbegun.inv {s : State} (h : Unbegun s) (hwaits : s.caller.waits = true) : Inv s where
  toCore := h.toCore
  closes_eq := by rw [h.unclosed, State.closed, h.absent]
  closing_session hs := by rw [h.absent] at hs; cases hs
  closing_agent hs := by rw [h.absent] at hs; cases hs
  committed_iff := by rw [h.uncommitted, h.absent]; rfl
  clean hs := by rw [h.absent] at hs; cases hs
  again hs := by rw [h.absent] at hs; cases hs
  drains hs := by rw [h.absent] at hs; cases hs
  begun := by
    rw [h.absent]
    refine iff_of_false Bool.false_ne_true fun hor => ?_
    obtain hcaller | hcaller := hor <;>
      · rw [hcaller] at hwaits
        cases hwaits
  ended hended := by rw [hended] at hwaits; cases hwaits
  before _ := ⟨h.incomplete, h.unprimed, h.clean, h.undrained⟩
  unprimed hs := by rw [h.absent] at hs; cases hs

/-- The `finally` clause is entered. -/
theorem Core.finally_ {s : State} (h : Core s) (huncommitted : s.committed = none)
    (hcloses : closes s.log = []) (hprimary : s.primary = none → s.status = .success) :
    Inv s.finally_ := by
  have hready : Ready s.finally_ :=
    { h with
      finalising := rfl
      uncommitted := huncommitted
      unprimed := fun hs => .inl (hprimary hs) }
  exact hready.inv rfl rfl hcloses nofun nofun nofun nofun nofun

theorem Core.fail {s : State} (h : Core s) (huncommitted : s.committed = none)
    (hcloses : closes s.log = []) (hstatus : s.status ≠ .success) : Inv s.fail := by
  have hcore : Core { s with primary := some .error } :=
    { h with unharmed := fun hs => absurd hs hstatus }
  exact hcore.finally_ huncommitted hcloses nofun

theorem Core.cancel {s : State} (h : Core s) (huncommitted : s.committed = none)
    (hcloses : closes s.log = []) : Inv s.cancel := by
  have hcore : Core { s with primary := some .cancelled, status := .cancelled } :=
    { h with
      success := nofun
      settled := fun status hs => by rw [huncommitted] at hs; cases hs
      unharmed := nofun }
  exact hcore.finally_ huncommitted hcloses nofun

theorem Unbegun.status_ne {s : State} (h : Unbegun s) : s.status ≠ .success := by
  rw [h.incomplete]
  decide

/-- An operation the caller awaits has ended. -/
theorem Unbegun.resume {s : State} (h : Unbegun s) (r : Result) {keep goOn : State → State}
    (hkeep : ∀ s, Unbegun s → Unbegun (keep s)) (hgo : ∀ s, Unbegun s → Inv (goOn s)) :
    Inv (s.resume r keep goOn) := by
  have hgiven : Unbegun { s with pending := false } := { h with }
  cases r with
  | done => exact hgo _ (hkeep _ hgiven)
  | raised => exact hgiven.toCore.fail h.uncommitted h.unclosed h.status_ne
  | cancelled => exact hgiven.toCore.cancel h.uncommitted h.unclosed
  | spoiled =>
    have hkept := hkeep _ hgiven
    exact hkept.toCore.fail hkept.uncommitted hkept.unclosed hkept.status_ne

theorem Unbegun.turn {s : State} (h : Unbegun s) :
    Unbegun ({ s with turn := true }.note .turnStarted) :=
  { dispatches_eq := by
      show dispatches (s.log ++ [.turnStarted]) = _
      rw [dispatches_append]
      exact (List.append_nil _).trans h.dispatches_eq
    cancels_eq := by
      show cancels (s.log ++ [.turnStarted]) = _
      rw [cancels_append]
      exact h.cancels_eq
    requested_iff := by
      show 0 < s.requested ↔ _ ∈ s.log ++ [.turnStarted]
      simpa using h.requested_iff
    close_failed := fun handle hmem => h.close_failed handle (by simpa [State.note] using hmem)
    turn_iff := iff_of_true rfl (List.mem_append_right _ List.mem_cons_self)
    finished := fun state hstate => List.mem_append_left _ (h.finished state hstate)
    success := fun hstatus => List.mem_append_left _ (h.success hstatus)
    kept := eachAt_snoc.mpr ⟨h.kept, trivial⟩
    settled := h.settled
    unharmed := h.unharmed
    absent := h.absent
    uncommitted := h.uncommitted
    incomplete := h.incomplete
    unprimed := h.unprimed
    clean := h.clean
    undrained := h.undrained
    unclosed := by
      show closes (s.log ++ [.turnStarted]) = []
      rw [closes_append, h.unclosed]
      rfl }

theorem Unbegun.read {s : State} (h : Unbegun s) (joined : Bool) : Inv (s.read joined) := by
  have hfail := h.toCore.fail h.uncommitted h.unclosed h.status_ne
  rw [State.read]
  split
  · rename_i hconsumer
    split
    · have hcore : Core { s with status := .success } :=
        { h.toCore with
          success := fun _ => h.finished .success hconsumer
          settled := fun status hs => by rw [h.uncommitted] at hs; cases hs
          unharmed := fun _ _ => h.unprimed }
      exact hcore.finally_ h.uncommitted h.unclosed fun _ => rfl
    · exact hfail
  · have hcore : Core { s with status := .cancelled } :=
      { h.toCore with
        success := nofun
        settled := fun status hs => by rw [h.uncommitted] at hs; cases hs
        unharmed := nofun }
    exact hcore.fail h.uncommitted h.unclosed nofun
  · exact h.toCore.cancel h.uncommitted h.unclosed
  · exact hfail

/-! ## Cancellations -/

theorem Inv.requestCancel {s : State} (h : Inv s) :
    Inv ({ s with requested := s.requested + 1, pending := true }.note .cancelRequested) where
  dispatches_eq := by
    show dispatches (s.log ++ [.cancelRequested]) = _
    rw [dispatches_append]
    exact (List.append_nil _).trans h.dispatches_eq
  cancels_eq := by
    show cancels (s.log ++ [.cancelRequested]) = _
    rw [cancels_append]
    exact h.cancels_eq
  requested_iff := iff_of_true (Nat.succ_pos _) (List.mem_append_right _ List.mem_cons_self)
  close_failed handle hmem := h.close_failed handle (by simpa [State.note] using hmem)
  turn_iff := by
    show s.turn = true ↔ _ ∈ s.log ++ [.cancelRequested]
    simpa using h.turn_iff
  finished state hstate := List.mem_append_left _ (h.finished state hstate)
  success hstatus := List.mem_append_left _ (h.success hstatus)
  kept := eachAt_snoc.mpr ⟨h.kept, trivial⟩
  settled := h.settled
  unharmed := h.unharmed
  closes_eq := by
    show closes (s.log ++ [.cancelRequested]) = s.closed
    rw [closes_append, h.closes_eq]
    exact List.append_nil _
  closing_session := h.closing_session
  closing_agent := h.closing_agent
  committed_iff := h.committed_iff
  clean := h.clean
  again := h.again
  drains := h.drains
  begun := h.begun
  ended := h.ended
  before := h.before
  unprimed := h.unprimed

/-- While the finaliser is at work a cancellation turns the status unless it is
committed. -/
theorem Inv.interrupt {s : State} (h : Inv s) (hcaller : s.caller = .finalising) :
    Inv s.interrupt := by
  have hbegun : s.finaliser.begun = true := h.begun.mpr (.inl hcaller)
  have hstatus : s.interrupt.status = .success → s.committed ≠ none ∧ s.status = .success := by
    intro hs
    by_cases hcommitted : s.committed = none
    · rw [State.interrupt, if_pos hcommitted] at hs
      cases hs
    · rw [State.interrupt, if_neg hcommitted] at hs
      exact ⟨hcommitted, hs⟩
  exact
    { h with
      success := fun hs => h.success (hstatus hs).2
      settled := fun status hs => by
        have hsome : s.committed = some status := hs
        show (if s.committed = none then _ else s.status) = status
        rw [if_neg (by rw [hsome]; exact Option.some_ne_none _)]
        exact h.settled status hsome
      unharmed := fun hs hnone => absurd hnone (hstatus hs).1
      clean := fun hfinaliser hs => h.clean hfinaliser (hstatus hs).2
      again := fun hs => by
        show (if s.committed = none then _ else s.status) = _
        split
        · rfl
        · exact h.again hs
      before := fun habsent => by
        have hs : s.finaliser = .absent := habsent
        rw [hs] at hbegun
        cases hbegun
      unprimed := fun _ hprimary => by
        have hs : s.primary.or (some Primary.cancelled) = none := hprimary
        simp at hs }

/-! ## Steps -/

theorem cleanup_same (s : State) (r : Settling) :
    (s.cleanup r).finaliser = s.finaliser ∧ (s.cleanup r).log = s.log ∧
      (s.cleanup r).status = s.status ∧ (s.cleanup r).drained = s.drained ∧
      (s.cleanup r).handles = s.handles := by
  rw [State.cleanup]
  split <;> exact ⟨rfl, rfl, rfl, rfl, rfl⟩

theorem Inv.cancelSettles {s : State} (h : Inv s) {again : Bool}
    (hfinaliser : s.finaliser = .cancelling again) (r : Settling) :
    Inv ((s.cleanup r).afterDrain again) ∧ Inv { s.cleanup r with finaliser := .draining again } := by
  have hready : Ready s := h.ready (by rw [hfinaliser]; rfl) (by rw [hfinaliser]; nofun)
    (by rw [hfinaliser]; rfl)
  have hready' := hready.cleanup r
  obtain ⟨-, hlog, hstatus, hdrained, hhandles⟩ := cleanup_same s r
  have hcloses : closes (s.cleanup r).log = (s.cleanup r).closedAt again := by
    rw [hlog, h.closes_eq, State.closed, hfinaliser, State.closedAt, hhandles]
    cases again <;> rfl
  have hagain : again = true → (s.cleanup r).status = .cancelled := by
    rintro rfl
    rw [hstatus]
    exact h.again (by rw [hfinaliser]; rfl)
  have hdrains : (s.cleanup r).drained = true := by
    rw [hdrained]
    exact h.drains (by rw [hfinaliser]; rfl)
  refine ⟨hready'.afterDrain hcloses hagain, ?_⟩
  have hmoved : Ready { s.cleanup r with finaliser := .draining again } := { hready' with }
  cases again with
  | false => exact hmoved.inv rfl rfl hcloses nofun nofun nofun nofun fun _ => hdrains
  | true =>
    exact hmoved.inv rfl rfl hcloses nofun nofun nofun (fun _ => hagain rfl) fun _ => hdrains

theorem Inv.drainSettles {s : State} (h : Inv s) {again : Bool}
    (hfinaliser : s.finaliser = .draining again) (r : Settling) :
    Inv ((s.cleanup r).afterDrain again) := by
  have hready : Ready s := h.ready (by rw [hfinaliser]; rfl) (by rw [hfinaliser]; nofun)
    (by rw [hfinaliser]; rfl)
  obtain ⟨-, hlog, hstatus, -, hhandles⟩ := cleanup_same s r
  refine (hready.cleanup r).afterDrain ?_ ?_
  · rw [hlog, h.closes_eq, State.closed, hfinaliser, State.closedAt, hhandles]
    cases again <;> rfl
  · rintro rfl
    rw [hstatus]
    exact h.again (by rw [hfinaliser]; rfl)

/-- A close that has failed is counted, and seen. -/
theorem Ready.closeSettled {s : State} (h : Ready s) (handle : Handle) (r : Settling) :
    Ready (s.closeSettled handle r) := by
  rw [State.closeSettled]
  split
  · rename_i hfailed
    have hready := h.cleanup r
    have hcore : Core ((s.cleanup r).note (.closeFailed handle)) := by
      refine hready.toCore.note rfl rfl nofun nofun (fun _ _ => ?_) trivial
      rw [State.cleanup, if_pos hfailed]
      exact Nat.succ_pos _
    exact { hcore with
      finalising := hready.finalising
      uncommitted := hready.uncommitted
      unprimed := hready.unprimed }
  · exact h

theorem closeSettled_same (s : State) (handle : Handle) (r : Settling) :
    closes (s.closeSettled handle r).log = closes s.log ∧
      (s.closeSettled handle r).session = s.session ∧
      (s.closeSettled handle r).agent = s.agent := by
  rw [State.closeSettled, State.cleanup]
  split
  · refine ⟨?_, rfl, rfl⟩
    show closes (s.log ++ [.closeFailed handle]) = closes s.log
    rw [closes_append]
    exact List.append_nil _
  · exact ⟨rfl, rfl, rfl⟩

theorem Inv.closeSettles {s : State} (h : Inv s) {handle : Handle}
    (hfinaliser : s.finaliser = .closing handle) (r : Settling) :
    Inv ((s.closeSettled handle r).afterClose handle) := by
  have hready : Ready s := h.ready (by rw [hfinaliser]; rfl) (by rw [hfinaliser]; nofun)
    (by rw [hfinaliser]; rfl)
  have hsettled := hready.closeSettled handle r
  obtain ⟨hlog, hsession, hagent⟩ := closeSettled_same s handle r
  have hcloses := hlog.trans h.closes_eq
  cases handle with
  | session =>
    refine hsettled.closeAgent ?_
    rw [hcloses, State.closed, hfinaliser, hsession, if_pos (h.closing_session hfinaliser)]
  | agent =>
    refine hsettled.beforeDelivery ?_
    rw [hcloses, State.closed, hfinaliser, State.handles, State.handles, hsession, hagent]

theorem Inv.delivered {s : State} (h : Inv s) (hfinaliser : s.finaliser = .dispatching)
    (r : Settling) : Inv { s.cleanup r with finaliser := .done } := by
  have hcore := (h.toCore.cleanup r).moved .done
  obtain ⟨-, hlog, -, -, hhandles⟩ := cleanup_same s r
  have hcommitted := h.committed_iff
  have hcloses := h.closes_eq
  have hcaller := h.begun.mp (by rw [hfinaliser]; rfl)
  rw [hfinaliser] at hcommitted
  rw [State.closed, hfinaliser] at hcloses
  have hsame : (s.cleanup r).committed = s.committed ∧ (s.cleanup r).caller = s.caller ∧
      ((s.cleanup r).primary = none → (s.cleanup r).status = .success ∨
        0 < (s.cleanup r).cleanupErrors) := by
    rw [State.cleanup]
    split
    · exact ⟨rfl, rfl, fun _ => .inr (Nat.succ_pos _)⟩
    · exact ⟨rfl, rfl, h.unprimed (by rw [hfinaliser]; rfl)⟩
  exact
    { hcore with
      closes_eq := by
        show closes (s.cleanup r).log = (s.cleanup r).handles
        rw [hlog, hhandles, hcloses]
      closing_session := nofun
      closing_agent := nofun
      committed_iff := by
        show (s.cleanup r).committed.isSome = _
        rw [hsame.1, hcommitted]
        rfl
      clean := nofun
      again := nofun
      drains := nofun
      begun := iff_of_true rfl (by
        show (s.cleanup r).caller = _ ∨ (s.cleanup r).caller = _
        rw [hsame.2.1]
        exact hcaller)
      ended := fun _ => rfl
      before := nofun
      unprimed := fun _ => hsame.2.2 }

theorem mem_of_mem_dispatches {status : Status} {log : List Event}
    (h : status ∈ dispatches log) : .dispatched status ∈ log := by
  obtain ⟨e, he, heq⟩ := List.mem_filterMap.mp h
  cases e with
  | dispatched status' =>
    cases heq
    exact he
  | _ => cases heq

theorem Inv.finish {s : State} (h : Inv s) (hfinaliser : s.finaliser = .done) : Inv s.finish := by
  have hkept : Kept s.log (if s.primary = none ∧ s.cleanupErrors = 0 then .returned else .raised) := by
    split
    · rename_i hreply
      have hstatus : s.status = .success :=
        (h.unprimed (by rw [hfinaliser]; rfl) hreply.1).resolve_right (by omega)
      have hsome : s.committed.isSome = true := by
        rw [h.committed_iff, hfinaliser]
        rfl
      obtain ⟨status, hcommitted⟩ := Option.isSome_iff_exists.mp hsome
      refine mem_of_mem_dispatches ?_
      rw [h.dispatches_eq, hcommitted, ← h.settled status hcommitted, hstatus]
      exact List.mem_cons_self
    · trivial
  have hcore : Core s.finish := by
    have hmoved : Core { s with caller := .ended } := { h.toCore with }
    refine hmoved.note ?_ ?_ ?_ ?_ ?_ hkept
    all_goals split <;> first | rfl | nofun
  exact
    { hcore with
      closes_eq := by
        have hcloses := h.closes_eq
        have hnone : closes [if s.primary = none ∧ s.cleanupErrors = 0 then Event.returned
            else .raised] = [] := by
          split <;> rfl
        show closes (s.log ++ [_]) = State.closed { s with caller := .ended }
        rw [closes_append, hnone, List.append_nil, hcloses]
        rfl
      closing_session := h.closing_session
      closing_agent := h.closing_agent
      committed_iff := h.committed_iff
      clean := h.clean
      again := h.again
      drains := h.drains
      begun := iff_of_true (by show s.finaliser.begun = true; rw [hfinaliser]; rfl) (.inr rfl)
      ended := fun _ => hfinaliser
      before := h.before
      unprimed := h.unprimed }

theorem Inv.streamEnds {s s' : State} (h : Inv s) {consumer : Consumer}
    (hnext : next s (.streamEnds consumer) = some s') : Inv s' := by
  by_cases hrunning : s.consumer = .running
  · cases consumer with
    | finished state =>
      rw [next, if_pos hrunning] at hnext
      cases hnext
      have hcore : Core ({ s with consumer := .finished state }.note (.terminal state)) :=
        { h.toCore.note (e := .terminal state) rfl rfl nofun nofun nofun trivial with
          finished := fun state' hstate => by
            cases hstate
            exact List.mem_append_right _ List.mem_cons_self }
      exact
        { hcore with
          closes_eq := by
            show closes (s.log ++ [.terminal state]) = s.closed
            rw [closes_append, h.closes_eq]
            exact List.append_nil _
          closing_session := h.closing_session
          closing_agent := h.closing_agent
          committed_iff := h.committed_iff
          clean := h.clean
          again := h.again
          drains := h.drains
          begun := h.begun
          ended := h.ended
          before := h.before
          unprimed := h.unprimed }
    | failed =>
      rw [next, if_pos hrunning] at hnext
      cases hnext
      exact { h with finished := nofun }
    | cancelled =>
      rw [next, if_pos hrunning] at hnext
      cases hnext
      exact { h with finished := nofun }
    | absent => simp [next] at hnext
    | running => simp [next] at hnext
  · simp [next, hrunning] at hnext

/-- Every step keeps the invariant. -/
theorem step_inv (s : State) (a : Action) (s' : State) (hstep : Step s a s') (h : Inv s) :
    Inv s' := by
  have hnext : next s a = some s' := hstep
  cases a with
  | cancel =>
    rw [next] at hnext
    split at hnext
    · cases hnext
    · cases hnext
      exact h.requestCancel
  | prepared r =>
    rw [next] at hnext
    split at hnext
    · rename_i hcaller
      cases hnext
      exact (h.unbegun (by rw [hcaller]; rfl)).resume r (fun _ h => h)
        fun _ h => Unbegun.inv { h with } rfl
    · cases hnext
  | agentCreated r =>
    rw [next] at hnext
    split at hnext
    · rename_i hcaller
      cases hnext
      exact (h.unbegun (by rw [hcaller]; rfl)).resume r (fun _ h => { h with })
        fun _ h => Unbegun.inv { h with } rfl
    · cases hnext
  | sessionCreated r =>
    rw [next] at hnext
    split at hnext
    · rename_i hcaller
      cases hnext
      exact (h.unbegun (by rw [hcaller]; rfl)).resume r (fun _ h => { h with })
        fun _ h => Unbegun.inv { h with } rfl
    · cases hnext
  | turnStarted r =>
    rw [next] at hnext
    split at hnext
    · rename_i hcaller
      cases hnext
      exact (h.unbegun (by rw [hcaller]; rfl)).resume r (fun _ h => h.turn)
        fun _ h => Unbegun.inv { h with finished := nofun } rfl
    · cases hnext
  | streamEnds consumer => exact h.streamEnds hnext
  | read joined =>
    rw [next] at hnext
    split at hnext
    · rename_i hread
      cases hnext
      exact (h.unbegun (by rw [hread.1]; rfl)).read joined
    · cases hnext
  | interrupted =>
    rw [next] at hnext
    split at hnext
    · cases hnext
    · split at hnext
      · rename_i hcaller
        cases hnext
        have hunbegun := h.unbegun (by rw [hcaller]; rfl)
        have hgiven : Core { s with pending := false } := { h.toCore with }
        exact hgiven.cancel hunbegun.uncommitted hunbegun.unclosed
      · split at hnext
        · rename_i hcaller
          cases hnext
          exact h.interrupt hcaller
        · cases hnext
  | finalizeBegins =>
    rw [next] at hnext
    split at hnext
    · rename_i hfinaliser
      cases hnext
      have hready : Ready s := h.ready (by rw [hfinaliser]; rfl) (by rw [hfinaliser]; nofun)
        (by rw [hfinaliser]; rfl)
      exact hready.finalize (by rw [h.closes_eq, State.closed, hfinaliser])
    · cases hnext
  | cancelSettles r =>
    rw [next] at hnext
    split at hnext
    · rename_i again hfinaliser
      obtain ⟨hafter, hdraining⟩ := h.cancelSettles hfinaliser r
      split at hnext <;> cases hnext
      · exact hafter
      · exact hdraining
    · cases hnext
  | drainSettles =>
    rw [next] at hnext
    split at hnext
    · rename_i again hfinaliser
      cases hnext
      exact h.drainSettles hfinaliser _
    · cases hnext
  | closeSettles r =>
    rw [next] at hnext
    split at hnext
    · rename_i handle hfinaliser
      cases hnext
      exact h.closeSettles hfinaliser r
    · cases hnext
  | publish =>
    rw [next] at hnext
    split at hnext
    · rename_i hfinaliser
      cases hnext
      have hready : Ready s := h.ready (by rw [hfinaliser]; rfl) (by rw [hfinaliser]; nofun)
        (by rw [hfinaliser]; rfl)
      exact hready.publishCompletion (by rw [h.closes_eq, State.closed, hfinaliser])
        (h.clean hfinaliser)
    · cases hnext
  | deferredResumes =>
    rw [next] at hnext
    split at hnext
    · rename_i hfinaliser
      cases hnext
      have hready : Ready s := h.ready (by rw [hfinaliser]; rfl) (by rw [hfinaliser]; nofun)
        (by rw [hfinaliser]; rfl)
      refine hready.cancelAndDrain ?_ fun _ => h.again (by rw [hfinaliser]; rfl)
      rw [h.closes_eq, State.closed, hfinaliser]
      rfl
    · cases hnext
  | deliverySettles r =>
    rw [next] at hnext
    split at hnext
    · rename_i hfinaliser
      cases hnext
      exact h.delivered hfinaliser r
    · cases hnext
  | finalizeDone =>
    rw [next] at hnext
    split at hnext
    · rename_i hdone
      cases hnext
      exact h.finish hdone.1
    · cases hnext

/-! ## Finalisation ends -/

/-- The turn is still to be cancelled, if it has to be. -/
def State.undrained (s : State) : Bool := s.turn && !s.drained

/-- How far it is from the end. -/
def State.place (s : State) : Nat :=
  match s.finaliser with
  | .absent => 0
  | .scheduled => 12
  | .cancelling again => if again then 5 else 11
  | .draining again => if again then 4 else 10
  | .closing .session => 9
  | .closing .agent => 8
  | .publishing => if s.undrained then 7 else 3
  | .deferred => 6
  | .dispatching => 2
  | .done => 1

/-- What every step of finalisation makes less, but a cancellation. -/
def State.rank (s : State) : Nat :=
  if s.caller = .ended then 0
  else 4 * s.place + (if s.consumer = .running then 2 else 0) + if s.pending then 1 else 0

/-- From `s` the finaliser has come to within `bound` of the end. -/
structure Nearer (s s' : State) (bound : Nat) : Prop where
  caller : s'.caller = s.caller
  consumer : s'.consumer = s.consumer
  pending : s'.pending = s.pending
  place : s'.place ≤ bound

theorem Nearer.mono {s s' : State} {bound bound' : Nat} (h : Nearer s s' bound)
    (hle : bound ≤ bound') : Nearer s s' bound' :=
  { h with place := Nat.le_trans h.place hle }

theorem Nearer.trans {s₁ s₂ s₃ : State} {bound bound' : Nat} (h : Nearer s₁ s₂ bound)
    (h' : Nearer s₂ s₃ bound') : Nearer s₁ s₃ bound' where
  caller := h'.caller.trans h.caller
  consumer := h'.consumer.trans h.consumer
  pending := h'.pending.trans h.pending
  place := h'.place

theorem rank_eq {s : State} (h : s.caller = .finalising) :
    s.rank = 4 * s.place + (if s.consumer = .running then 2 else 0) +
      if s.pending then 1 else 0 := by
  rw [State.rank, h]
  exact if_neg (by decide)

theorem Nearer.rank_lt {s s' : State} {bound : Nat} (h : Nearer s s' bound)
    (hcaller : s.caller = .finalising) (hlt : bound < s.place) : s'.rank < s.rank := by
  have hplace := h.place
  rw [rank_eq hcaller, rank_eq (h.caller.trans hcaller), h.consumer, h.pending]
  omega

theorem publishing_le (s : State) (h : s.finaliser = .publishing) : s.place ≤ 7 := by
  rw [State.place, h]
  dsimp only
  split <;> omega

theorem beforeDelivery_nearer (s : State) : Nearer s s.beforeDelivery 7 := by
  rw [State.beforeDelivery]
  split
  · exact ⟨rfl, rfl, rfl, publishing_le _ rfl⟩
  · exact ⟨rfl, rfl, rfl, publishing_le _ rfl⟩

theorem closeAgent_nearer (s : State) : Nearer s s.closeAgent 8 := by
  rw [State.closeAgent]
  split
  · exact ⟨rfl, rfl, rfl, Nat.le_refl 8⟩
  · exact (beforeDelivery_nearer s).mono (by omega)

theorem closeSession_nearer (s : State) : Nearer s s.closeSession 9 := by
  rw [State.closeSession]
  split
  · exact ⟨rfl, rfl, rfl, Nat.le_refl 9⟩
  · exact (closeAgent_nearer s).mono (by omega)

theorem afterDrain_nearer (s : State) (again : Bool) (h : again = true → s.undrained = false) :
    Nearer s (s.afterDrain again) (if again then 3 else 9) := by
  cases again with
  | false => exact closeSession_nearer s
  | true =>
    refine ⟨rfl, rfl, rfl, ?_⟩
    show (if s.undrained = true then 7 else 3) ≤ 3
    rw [h rfl]
    decide

theorem cancelAndDrain_nearer (s : State) (again : Bool) :
    Nearer s (s.cancelAndDrain again) (if again then 5 else 11) := by
  rw [State.cancelAndDrain]
  split
  · exact ⟨rfl, rfl, rfl, Nat.le_refl _⟩
  · rename_i hdrained
    have hundrained : s.undrained = false := by
      rw [State.undrained]
      by_contra hne
      simp only [Bool.not_eq_false, Bool.and_eq_true, Bool.not_eq_true'] at hne
      exact hdrained ⟨hne.2, hne.1⟩
    refine (afterDrain_nearer s again fun _ => hundrained).mono ?_
    cases again <;> decide

theorem cleanup_frame (s : State) (r : Settling) :
    (s.cleanup r).caller = s.caller ∧ (s.cleanup r).consumer = s.consumer ∧
      (s.cleanup r).pending = s.pending ∧ (s.cleanup r).undrained = s.undrained := by
  rw [State.cleanup]
  split <;> exact ⟨rfl, rfl, rfl, rfl⟩

theorem Nearer.of_cleanup {s s' : State} {r : Settling} {bound : Nat}
    (h : Nearer (s.cleanup r) s' bound) : Nearer s s' bound := by
  obtain ⟨hcaller, hconsumer, hpending, -⟩ := cleanup_frame s r
  exact ⟨h.caller.trans hcaller, h.consumer.trans hconsumer, h.pending.trans hpending, h.place⟩

theorem publishCompletion_nearer (s : State) (h : s.finaliser = .publishing) :
    ∃ bound, Nearer s s.publishCompletion bound ∧ bound < s.place := by
  have hobserve : Nearer s s.observePendingCancellation 7 ∧
      s.observePendingCancellation.undrained = s.undrained := by
    rw [State.observePendingCancellation]
    split
    · exact ⟨⟨rfl, rfl, rfl, publishing_le _ h⟩, rfl⟩
    · exact ⟨⟨rfl, rfl, rfl, publishing_le _ h⟩, rfl⟩
  have hplace : s.place = if s.undrained then 7 else 3 := by
    rw [State.place, h]
  rw [State.publishCompletion]
  obtain ⟨hframe, hundrained⟩ := hobserve
  generalize s.observePendingCancellation = o at *
  split
  · rename_i hdefers
    refine ⟨6, hframe.trans ⟨rfl, rfl, rfl, Nat.le_refl 6⟩, ?_⟩
    have htrue : o.undrained = true := by rw [State.undrained, hdefers.2.1, hdefers.2.2]; rfl
    rw [hplace, ← hundrained, htrue]
    decide
  · refine ⟨2, hframe.trans ⟨rfl, rfl, rfl, Nat.le_refl 2⟩, ?_⟩
    rw [hplace]
    split <;> omega

/-- Whatever step finalisation takes, but that it is cancelled, it is nearer to its
end. -/
theorem rank_lt {s s' : State} {a : Action} (h : Inv s) (hcaller : s.caller = .finalising)
    (ha : a ≠ .cancel) (hstep : Step s a s') : s'.rank < s.rank := by
  have hnext : next s a = some s' := hstep
  have hdrained : s.finaliser.drains = true → s.undrained = false := by
    intro hdrains
    rw [State.undrained, h.drains hdrains]
    exact Bool.and_false _
  cases a with
  | cancel => exact absurd rfl ha
  | prepared r => simp [next, hcaller] at hnext
  | agentCreated r => simp [next, hcaller] at hnext
  | sessionCreated r => simp [next, hcaller] at hnext
  | turnStarted r => simp [next, hcaller] at hnext
  | read joined => simp [next, hcaller] at hnext
  | streamEnds consumer =>
    have hend : s.consumer = .running ∧ s'.consumer ≠ .running ∧ s'.place = s.place ∧
        s'.caller = s.caller ∧ s'.pending = s.pending := by
      by_cases hrunning : s.consumer = .running
      · cases consumer with
        | absent => simp [next] at hnext
        | running => simp [next] at hnext
        | _ =>
          rw [next, if_pos hrunning] at hnext
          cases hnext
          exact ⟨hrunning, nofun, rfl, rfl, rfl⟩
      · simp [next, hrunning] at hnext
    obtain ⟨hrunning, hnot, hplace, hcaller', hpending⟩ := hend
    rw [rank_eq hcaller, rank_eq (hcaller'.trans hcaller), hplace, hpending, if_pos hrunning,
      if_neg hnot]
    omega
  | interrupted =>
    rw [next] at hnext
    split at hnext
    · cases hnext
    · rename_i hpending
      have hcaller' : s.caller ≠ .streaming := by rw [hcaller]; decide
      rw [if_neg hcaller'] at hnext
      cases hnext
      have hplace : s.interrupt.place = s.place := rfl
      have hconsumer : s.interrupt.consumer = s.consumer := rfl
      have hgiven : s.interrupt.pending = false := rfl
      rw [rank_eq hcaller, rank_eq (show s.interrupt.caller = .finalising from hcaller), hplace,
        hconsumer, hgiven, show s.pending = true by simpa using hpending]
      simp
  | finalizeBegins =>
    rw [next] at hnext
    split at hnext
    · rename_i hfinaliser
      cases hnext
      have hplace : s.place = 12 := by rw [State.place, hfinaliser]
      rw [State.finalize]
      split
      · exact (cancelAndDrain_nearer s false).rank_lt hcaller (by rw [hplace]; decide)
      · exact (closeSession_nearer s).rank_lt hcaller (by rw [hplace]; decide)
    · cases hnext
  | cancelSettles r =>
    rw [next] at hnext
    split at hnext
    · rename_i again hfinaliser
      have hplace : s.place = if again then 5 else 11 := by rw [State.place, hfinaliser]
      obtain ⟨hframe, hframe', hframe'', hundrained⟩ := cleanup_frame s r
      have hsettled : again = true → (s.cleanup r).undrained = false := by
        intro _
        rw [hundrained]
        exact hdrained (by rw [hfinaliser]; rfl)
      split at hnext <;> cases hnext
      · refine (afterDrain_nearer _ again hsettled).of_cleanup.rank_lt hcaller ?_
        rw [hplace]
        cases again <;> decide
      · have hnearer : Nearer s { s.cleanup r with finaliser := .draining again }
            (if again then 4 else 10) := ⟨hframe, hframe', hframe'', Nat.le_refl _⟩
        refine hnearer.rank_lt hcaller ?_
        rw [hplace]
        cases again <;> decide
    · cases hnext
  | drainSettles =>
    rw [next] at hnext
    split at hnext
    · rename_i again hfinaliser
      cases hnext
      have hplace : s.place = if again then 4 else 10 := by rw [State.place, hfinaliser]
      obtain ⟨-, -, -, hundrained⟩ := cleanup_frame s s.drainResult
      have hsettled : again = true → (s.cleanup s.drainResult).undrained = false := by
        intro _
        rw [hundrained]
        exact hdrained (by rw [hfinaliser]; rfl)
      refine (afterDrain_nearer _ again hsettled).of_cleanup.rank_lt hcaller ?_
      rw [hplace]
      cases again <;> decide
    · cases hnext
  | closeSettles r =>
    rw [next] at hnext
    split at hnext
    · rename_i handle hfinaliser
      cases hnext
      have hframe : Nearer s (s.closeSettled handle r) (s.closeSettled handle r).place := by
        rw [State.closeSettled, State.cleanup]
        split <;> exact ⟨rfl, rfl, rfl, Nat.le_refl _⟩
      cases handle with
      | session =>
        have hplace : s.place = 9 := by rw [State.place, hfinaliser]
        exact (hframe.trans (closeAgent_nearer _)).rank_lt hcaller (by rw [hplace]; decide)
      | agent =>
        have hplace : s.place = 8 := by rw [State.place, hfinaliser]
        exact (hframe.trans (beforeDelivery_nearer _)).rank_lt hcaller (by rw [hplace]; decide)
    · cases hnext
  | publish =>
    rw [next] at hnext
    split at hnext
    · rename_i hfinaliser
      cases hnext
      obtain ⟨bound, hnearer, hlt⟩ := publishCompletion_nearer s hfinaliser
      exact hnearer.rank_lt hcaller hlt
    · cases hnext
  | deferredResumes =>
    rw [next] at hnext
    split at hnext
    · rename_i hfinaliser
      cases hnext
      have hplace : s.place = 6 := by rw [State.place, hfinaliser]
      exact (cancelAndDrain_nearer s true).rank_lt hcaller (by rw [hplace]; decide)
    · cases hnext
  | deliverySettles r =>
    rw [next] at hnext
    split at hnext
    · rename_i hfinaliser
      cases hnext
      have hplace : s.place = 2 := by rw [State.place, hfinaliser]
      obtain ⟨hframe, hframe', hframe'', -⟩ := cleanup_frame s r
      have hnearer : Nearer s { s.cleanup r with finaliser := .done } 1 :=
        ⟨hframe, hframe', hframe'', Nat.le_refl 1⟩
      exact hnearer.rank_lt hcaller (by rw [hplace]; decide)
    · cases hnext
  | finalizeDone =>
    rw [next] at hnext
    split at hnext
    · rename_i hdone
      cases hnext
      have hplace : s.place = 1 := by rw [State.place, hdone.1]
      have hended : s.finish.rank = 0 := rfl
      rw [hended, State.rank, hcaller, if_neg (by decide), hplace]
      omega
    · cases hnext

theorem goes_on {s : State} (h : Inv s) (hcaller : s.caller = .finalising) :
    ∃ a s', a ≠ .cancel ∧ Step s a s' := by
  have hbegun : s.finaliser.begun = true := h.begun.mpr (.inl hcaller)
  cases hfinaliser : s.finaliser with
  | absent =>
    rw [hfinaliser] at hbegun
    cases hbegun
  | scheduled => exact ⟨.finalizeBegins, _, nofun, if_pos hfinaliser⟩
  | cancelling again =>
    by_cases habsent : s.consumer = .absent
    · exact ⟨.cancelSettles .done, _, nofun, by rw [Step, next, hfinaliser]; exact if_pos habsent⟩
    · exact ⟨.cancelSettles .done, _, nofun, by rw [Step, next, hfinaliser]; exact if_neg habsent⟩
  | draining again => exact ⟨.drainSettles, _, nofun, by rw [Step, next, hfinaliser]⟩
  | closing handle => exact ⟨.closeSettles .done, _, nofun, by rw [Step, next, hfinaliser]⟩
  | publishing => exact ⟨.publish, _, nofun, if_pos hfinaliser⟩
  | deferred => exact ⟨.deferredResumes, _, nofun, if_pos hfinaliser⟩
  | dispatching => exact ⟨.deliverySettles .done, _, nofun, if_pos hfinaliser⟩
  | done =>
    cases hpending : s.pending with
    | false => exact ⟨.finalizeDone, _, nofun, if_pos ⟨hfinaliser, hcaller, hpending⟩⟩
    | true =>
      refine ⟨.interrupted, s.interrupt, nofun, ?_⟩
      rw [Step, next, if_neg (by rw [hpending]; decide), if_neg (by rw [hcaller]; decide),
        if_pos hcaller]

/-! ## The contract -/

/-- What an execution has done so far is exact, and once it cleans up it comes to an
end. -/
structure Exact (s : State) : Prop where
  kept : EachAt (fun earlier e _ => Kept earlier e) s.log
  completions : (dispatches s.log).length ≤ 1
  cancelled : cancels s.log ≤ 1
  closed : closes s.log <+: s.handles
  ended : s.caller = .ended → (dispatches s.log).length = 1 ∧ closes s.log = s.handles
  ends : s.caller = .finalising → (∃ a s', a ≠ .cancel ∧ Step s a s') ∧
    ∀ a s', a ≠ .cancel → Step s a s' → s'.rank < s.rank

theorem Inv.exact {s : State} (h : Inv s) : Exact s where
  kept := h.kept
  completions := by
    rw [h.dispatches_eq]
    cases s.committed <;> simp
  cancelled := by
    rw [h.cancels_eq]
    split <;> omega
  closed := by
    rw [h.closes_eq, State.closed]
    split
    · exact List.nil_prefix
    · exact List.nil_prefix
    · exact List.nil_prefix
    · exact List.nil_prefix
    · rename_i hfinaliser
      rw [State.handles, if_pos (h.closing_session hfinaliser)]
      exact List.prefix_append _ _
    · exact List.prefix_refl _
  ended hended := by
    have hdone := h.ended hended
    have hcommitted := h.committed_iff
    rw [hdone] at hcommitted
    obtain ⟨status, hstatus⟩ := Option.isSome_iff_exists.mp hcommitted
    refine ⟨by rw [h.dispatches_eq, hstatus]; rfl, ?_⟩
    rw [h.closes_eq, State.closed, hdone]
  ends hcaller := ⟨goes_on h hcaller, fun _ _ ha hstep => rank_lt h hcaller ha hstep⟩

/-- A cancellation arrives after the closes: the completion is handed back, the turn is
cancelled, and the completion says so. -/
def lateCancel : List Action :=
  [.prepared .done, .agentCreated .done, .sessionCreated .done, .turnStarted .done,
    .streamEnds (.finished .success), .read true, .finalizeBegins, .closeSettles .done,
    .closeSettles .timedOut, .cancel, .publish, .interrupted, .deferredResumes,
    .cancelSettles .raised, .drainSettles, .publish, .deliverySettles .done, .finalizeDone]

def lateCancelled : Option State := (play next {} lateCancel).map Prod.snd

end AmplifierAgent
end DotRunner
