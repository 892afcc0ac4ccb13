import DotRunner.Agent.Steps

/-!
# Completion

`execute` runs one invocation of the session and says in one event how it went.  What
it says rests on the termination reason, which every `process_input` of the invocation
sets anew; and the end of the session is announced by the outermost call, but also
wherever a loop is cancelled.
-/

namespace DotRunner
namespace Agent

open Behaviour

/-! ## The orchestrator -/

inductive Status where
  | success
  | incomplete
  | cancelled
deriving DecidableEq

/-- An `orchestrator:complete` event. -/
structure Completion where
  status : Status
  turnCount : Nat

/-- One invocation of `process_input` by the host, to its end. -/
structure Invocation [Signatures] (s : Session) where
  prompt : String
  seeded : List SeededMessage
  steps : List (Transition Session Action)
  session : Session
  outcome : Outcome
  run : Run Session.Step (s.processInput seeded prompt) steps session
  busy : ∀ t ∈ steps, ¬t.source.AtRest
  ended : session.location = .resting (some outcome)

/-- The invocation that takes the given actions, when they bring the session to rest. -/
def Invocation.play [Signatures] (s : Session) (prompt : String) (actions : List Action) :
    Option (Invocation s) :=
  match hplay : Behaviour.play Session.step (s.processInput [] prompt) actions with
  | none => none
  | some (steps, session) =>
    match hover : session.location with
    | .resting (some outcome) =>
      if hbusy : ∀ t ∈ steps, ¬t.source.AtRest then
        some ⟨prompt, [], steps, session, outcome, run_of_play hplay, hbusy, hover⟩
      else none
    | _ => none

/-- Between two invocations the session, if it has been made, is at rest. -/
structure Orchestrator where
  session : Option Session
  completions : List Completion
  rests : ∀ s, session = some s → s.AtRest ∧ s.Placed

namespace Orchestrator

def providerCallCount (session : Option Session) : Nat :=
  (session.map Session.providerCallCount).getD 0

def cooperativeCancelCount (session : Option Session) : Nat :=
  (session.map Session.cooperativeCancelCount).getD 0

def terminationReason (session : Option Session) : TerminationReason :=
  (session.map Session.terminationReason).getD .natural

/-- The lifecycle status of an invocation, from the session before and after it. -/
def status (before after : Option Session) : Outcome → Status
  | .raised .cancelledError => .cancelled
  | .raised _ => .incomplete
  | .returned _ =>
    if cooperativeCancelCount after > cooperativeCancelCount before ∨
        terminationReason after = .cancelled then .cancelled
    else if terminationReason after = .natural then .success
    else .incomplete

/-- `max(0, …)` is what subtraction of naturals does. -/
def completion (before after : Option Session) (outcome : Outcome) : Completion where
  status := status before after outcome
  turnCount := providerCallCount after - providerCallCount before

/-- The session of the orchestrator, made now if there is none. -/
def current (o : Orchestrator) (config : SessionConfig) : Session := o.session.getD (.new config)

theorem current_rests (o : Orchestrator) (config : SessionConfig) :
    (o.current config).AtRest ∧ (o.current config).Placed := by
  unfold current
  cases hsession : o.session with
  | none => exact ⟨⟨none, rfl⟩, Session.placed_new config⟩
  | some s => exact o.rests s hsession

end Orchestrator

namespace Session

theorem placed_processInput [Signatures] {s : Session} (hrest : s.AtRest) (hplaced : s.Placed)
    (seeded : List SeededMessage) (prompt : String) : (s.processInput seeded prompt).Placed := by
  obtain ⟨last, hloc⟩ := hrest
  have hstep : Step s (.processInput prompt seeded) (s.processInput seeded prompt) := by
    simp only [Step, step, hloc]
  exact placed_step hstep hplaced

end Session

namespace Orchestrator

/-- `execute`, when the session is there or can be made -/
def execute [Signatures] (o : Orchestrator) (config : SessionConfig)
    (inv : Invocation (o.current config)) : Orchestrator where
  session := some inv.session
  completions := o.completions ++ [completion o.session (some inv.session) inv.outcome]
  rests := by
    rintro s hs
    obtain rfl := Option.some.inj hs
    have hcurrent := o.current_rests config
    exact ⟨⟨_, inv.ended⟩, inv.run.invariant (P := Session.Placed)
      (fun _ _ _ hstep => Session.placed_step hstep)
      (Session.placed_processInput hcurrent.1 hcurrent.2 inv.seeded inv.prompt)⟩

/-- `execute`, when the session cannot be made -/
def executeUnmade (o : Orchestrator) (e : Raised) : Orchestrator :=
  { o with completions := o.completions ++ [completion o.session o.session (.raised e)] }

end Orchestrator

/-! ## What is promised -/

/-- What ends the loop in this step, by the conditions of the source and not by what it reports. -/
def loopEnd (t : Transition Session Action) : Option TerminationReason :=
  match t.action, t.source.location with
  | .proceed _, .looping vars =>
    if t.source.roundsLeft vars then
      if t.source.cancellation.isCancelled then some .cancelled
      else if t.source.turnLimitReached then some .maxTurns
      else none
    else some .toolRoundLimit
  | .provider .contextLengthError, .calling _ _ => some .contextLimit
  | .provider (.response r), .calling _ _ =>
    if t.source.cancellation.isImmediate then some .cancelled
    else if r.toolCalls.isEmpty then
      some (if looksLikeQuestion r.text then .awaitingInput else .natural)
    else none
  | _, _ => none

/-- How the loops of an invocation ended, in order. -/
def endings (ts : List (Transition Session Action)) : List TerminationReason := ts.filterMap loopEnd

def Event.isSessionEnd : Event → Bool
  | .sessionEnd _ => true
  | _ => false

def Event.isUserInput : Event → Bool
  | .userInput _ => true
  | _ => false

def sessionEnds (s : Session) : Nat := s.emitted.countP Event.isSessionEnd

/-- The prompts that have been recorded. -/
def prompts (s : Session) : Nat := s.emitted.countP Event.isUserInput

structure ReportsExactly [Signatures] (o : Orchestrator) (config : SessionConfig)
    (inv : Invocation (o.current config)) : Prop where
  /-- one event, which says `success` only if every prompt was ended, and naturally -/
  once : ∃ c, (o.execute config inv).completions = o.completions ++ [c] ∧
    (c.status = .success →
      prompts inv.session = prompts (o.current config) + (endings inv.steps).length ∧
        ∀ reason ∈ endings inv.steps, reason = .natural)
  /-- the reason named is the one the loop ended for, at the end of each loop and after all -/
  named : ∀ t ∈ inv.steps, ∀ reason, loopEnd t = some reason → t.target.terminationReason = reason
  last : ∀ text, inv.outcome = .returned text →
    (endings inv.steps).getLast? = some inv.session.terminationReason
  sessionEnd : inv.session.state = .idle ∨ inv.session.state = .closed →
    sessionEnds inv.session = sessionEnds (o.current config) + 1

/-! ## What goes wrong -/

/-- No turn limit and no cancellation ends a loop; a follow-up is begun only after a natural end;
nothing is raised between the end of a loop and the end of the invocation. -/
def plain (t : Transition Session Action) : Bool :=
  match t.action, t.source.location with
  | .proceed _, .followingUp _ =>
    t.source.followUpQueue.isEmpty || t.source.terminationReason == .natural
  | .fault _, .followingUp _ => false
  | _, _ => loopEnd t != some .maxTurns && loopEnd t != some .cancelled

/-! ## Otherwise the reports are exact -/

/-- In a loop: every loop so far ended naturally. -/
structure Running (s₀ : Session) (ended : List TerminationReason) (s : Session) : Prop where
  sessionEnds : sessionEnds s = sessionEnds s₀
  prompts : prompts s = prompts s₀ + ended.length + 1
  reason : s.terminationReason = .natural
  natural : ∀ reason ∈ ended, reason = .natural

/-- After a loop: the reason is that of the last one, and the others ended naturally. -/
structure Settling (s₀ : Session) (ended : List TerminationReason) (s : Session) : Prop where
  prompts : prompts s = prompts s₀ + ended.length
  reason : ∃ earlier, ended = earlier ++ [s.terminationReason] ∧ ∀ reason ∈ earlier, reason = .natural

/-- What holds of the invocation that `s₀` began, by the place where it stands. -/
def Stands (s₀ : Session) (ended : List TerminationReason) (s : Session) : Prop :=
  match s.location with
  | .looping _ | .calling _ _ | .executing _ _ => Running s₀ ended s
  | .followingUp _ => Settling s₀ ended s ∧ sessionEnds s = sessionEnds s₀
  | .resting (some (.returned _)) => Settling s₀ ended s ∧ s.state ≠ .closed ∧
      (s.state = .idle → sessionEnds s = sessionEnds s₀ + 1)
  | .resting _ => s.state ≠ .idle ∧ (s.state = .closed → sessionEnds s = sessionEnds s₀ + 1)

/-- Notes are neither prompts nor ends of the session. -/
theorem countP_notes {p : Event → Bool} {f : String → Event} (h : ∀ message, p (f message) = false)
    (messages : List String) : (messages.map f).countP p = 0 := by
  refine List.countP_eq_zero.mpr fun e he => ?_
  obtain ⟨message, -, rfl⟩ := List.mem_map.mp he
  rw [h message]
  exact Bool.false_ne_true

theorem countP_starts {p : Event → Bool} (h : p .sessionStart = false) {events : List Event}
    (hevents : ∀ e ∈ events, e = .sessionStart) : events.countP p = 0 := by
  refine List.countP_eq_zero.mpr fun e he => ?_
  rw [hevents e he, h]
  exact Bool.false_ne_true

theorem sessionEnds_begun (s : Session) (replayed : List SeededMessage) {events : List Event}
    (hevents : ∀ e ∈ events, e = .sessionStart) (prompt : String) :
    sessionEnds (s.begun replayed events prompt) = sessionEnds s := by
  show List.countP _ (s.emitted ++ events ++ [.userInput prompt] ++ _) = _
  rw [List.countP_append, List.countP_append, List.countP_append, countP_starts rfl hevents,
    countP_notes fun _ => rfl]
  rfl

theorem prompts_begun (s : Session) (replayed : List SeededMessage) {events : List Event}
    (hevents : ∀ e ∈ events, e = .sessionStart) (prompt : String) :
    Agent.prompts (s.begun replayed events prompt) = Agent.prompts s + 1 := by
  show List.countP _ (s.emitted ++ events ++ [.userInput prompt] ++ _) = _
  rw [List.countP_append, List.countP_append, List.countP_append, countP_starts rfl hevents,
    countP_notes fun _ => rfl]
  rfl

theorem stands_begun {s₀ s : Session} {ended : List TerminationReason}
    (hends : sessionEnds s = sessionEnds s₀) (hprompts : prompts s = prompts s₀ + ended.length)
    (hnatural : ∀ reason ∈ ended, reason = .natural) (replayed : List SeededMessage)
    {events : List Event} (hevents : ∀ e ∈ events, e = .sessionStart) (prompt : String) :
    Stands s₀ ended (s.begun replayed events prompt) where
  sessionEnds := (sessionEnds_begun s replayed hevents prompt).trans hends
  prompts := by rw [prompts_begun s replayed hevents, hprompts]
  reason := rfl
  natural := hnatural

theorem stands_processInput {s : Session} (hopen : s.state ≠ .closed) (seeded : List SeededMessage)
    (prompt : String) : Stands s [] (s.processInput seeded prompt) := by
  by_cases hidle : s.state = .idle
  · obtain ⟨replayed, events, hevents, heq⟩ := Session.processInput_idle hidle seeded prompt
    rw [heq]
    exact stands_begun rfl rfl (List.forall_mem_nil _) replayed hevents prompt
  · obtain ⟨replayed, events, hevents, heq⟩ := Session.opened_eq s seeded
    rw [Session.processInput_refused hidle, heq]
    exact ⟨hidle, fun hclosed => absurd hclosed hopen⟩

/-- A loop ends, and with it neither a prompt nor the end of the session is announced. -/
theorem stands_ended {s₀ s : Session} {ended : List TerminationReason} (h : Running s₀ ended s)
    (reason : TerminationReason) (turns : List Turn) {events : List Event}
    (hevents : ∀ e ∈ events, e.isSessionEnd = false ∧ e.isUserInput = false) (text : String) :
    Stands s₀ (ended ++ [reason]) (s.ended reason turns events text) := by
  have hcount : ∀ {p : Event → Bool}, (∀ e ∈ events, p e = false) →
      (s.emitted ++ events).countP p = s.emitted.countP p := by
    intro p hp
    rw [List.countP_append, List.countP_eq_zero.mpr fun e he => Bool.eq_false_iff.mp (hp e he),
      Nat.add_zero]
  refine ⟨⟨?_, ended, rfl, h.natural⟩, ?_⟩
  · refine (hcount fun e he => (hevents e he).2).trans ?_
    have hprompts := h.prompts
    rw [List.length_append, List.length_singleton]
    unfold prompts at hprompts ⊢
    omega
  · exact (hcount fun e he => (hevents e he).1).trans h.sessionEnds

section Same

variable {s₀ s s' : Session} {ended : List TerminationReason}

theorem sessionEnds_congr (hemitted : s'.emitted = s.emitted) : sessionEnds s' = sessionEnds s := by
  rw [sessionEnds, hemitted, sessionEnds]

theorem prompts_congr (hemitted : s'.emitted = s.emitted) : prompts s' = prompts s := by
  rw [prompts, hemitted, prompts]

theorem Running.congr (h : Running s₀ ended s) (hemitted : s'.emitted = s.emitted)
    (hreason : s'.terminationReason = s.terminationReason) : Running s₀ ended s' where
  sessionEnds := (sessionEnds_congr hemitted).trans h.sessionEnds
  prompts := (prompts_congr hemitted).trans h.prompts
  reason := hreason.trans h.reason
  natural := h.natural

theorem Settling.congr (h : Settling s₀ ended s) (hemitted : s'.emitted = s.emitted)
    (hreason : s'.terminationReason = s.terminationReason) : Settling s₀ ended s' where
  prompts := (prompts_congr hemitted).trans h.prompts
  reason := by rw [hreason]; exact h.reason

theorem Stands.congr (h : Stands s₀ ended s) (hemitted : s'.emitted = s.emitted)
    (hreason : s'.terminationReason = s.terminationReason) (hloc : s'.location = s.location)
    (hstate : s'.state = s.state) : Stands s₀ ended s' := by
  have hsessionEnds := sessionEnds_congr hemitted
  unfold Stands at h ⊢
  rw [hloc]
  split at h
  · exact h.congr hemitted hreason
  · exact h.congr hemitted hreason
  · exact h.congr hemitted hreason
  · exact ⟨h.1.congr hemitted hreason, hsessionEnds.trans h.2⟩
  · rw [hstate, hsessionEnds]
    exact ⟨h.1.congr hemitted hreason, h.2⟩
  · rw [hstate, hsessionEnds]
    exact h

end Same

section Steps

variable {s₀ s s' : Session} {a : Action} {ended : List TerminationReason}

/-- The loop in which a step is taken. -/
theorem running_of_stands {l : Location} (hloc : s.location = l) (h : Stands s₀ ended s) :
    match l with
    | .looping _ | .calling _ _ | .executing _ _ => Running s₀ ended s
    | _ => True := by
  rw [Stands, hloc] at h
  cases l <;> first | exact h | trivial

theorem stands_raise_processing (hstate : s.state = .processing) (e : Raised) :
    Stands s₀ ended (s.raise e) := by
  refine ⟨fun hidle => ?_, fun hclosed => ?_⟩
  · exact nomatch hstate.symm.trans hidle
  · exact nomatch hstate.symm.trans hclosed

variable [Signatures]

/-- A plain step keeps what holds of the invocation, and names the reason for which it ends a
loop. -/
theorem stands_step (hstep : Session.Step s a s') (hplaced : s.Placed)
    (hplain : plain ⟨s, a, s'⟩ = true) (hbusy : ¬s.AtRest) (h : Stands s₀ ended s) :
    Stands s₀ (ended ++ (loopEnd ⟨s, a, s'⟩).toList) s' ∧
      ∀ reason, loopEnd ⟨s, a, s'⟩ = some reason → s'.terminationReason = reason := by
  have hquiet : ∀ {a : Action} {s' : Session}, loopEnd ⟨s, a, s'⟩ = none → Stands s₀ ended s' →
      Stands s₀ (ended ++ (loopEnd ⟨s, a, s'⟩).toList) s' ∧
        ∀ reason, loopEnd ⟨s, a, s'⟩ = some reason → s'.terminationReason = reason := by
    intro a s' hnone hstands
    rw [hnone]
    exact ⟨(List.append_nil ended).symm ▸ hstands, fun _ h => (by cases h)⟩
  have hends : ∀ {a : Action} {s' : Session} (reason : TerminationReason),
      loopEnd ⟨s, a, s'⟩ = some reason → Stands s₀ (ended ++ [reason]) s' →
      s'.terminationReason = reason →
      Stands s₀ (ended ++ (loopEnd ⟨s, a, s'⟩).toList) s' ∧
        ∀ reason, loopEnd ⟨s, a, s'⟩ = some reason → s'.terminationReason = reason := by
    intro a s' reason hsome hstands hreason
    rw [hsome]
    exact ⟨hstands, fun _ h => hreason.trans (Option.some.inj h)⟩
  cases Session.effect_of_step hstep hplaced with
  | steer | followUp | setCancellation => exact hquiet rfl (h.congr rfl rfl rfl rfl)
  | begin _ _ _ _ hrest | resume _ _ _ _ hrest | refusePrompt _ _ _ _ hrest
  | refuseAnswer _ _ hrest | shutdown _ hrest => exact absurd hrest hbusy
  | roundLimit vars systemText hloc hrounds =>
    refine hends .toolRoundLimit ?_ (stands_ended (running_of_stands hloc h) _ _ ?_ _) rfl
    · simp only [loopEnd, hloc, hrounds, if_false]
    · exact List.forall_mem_singleton.mpr ⟨rfl, rfl⟩
  | cancel vars systemText hloc hrounds hcancelled =>
    refine absurd hplain ?_
    simp only [plain, loopEnd, hloc, hrounds, hcancelled, if_true]
    decide
  | turnLimit vars systemText hloc hrounds hcancelled hlimit =>
    refine absurd hplain ?_
    simp only [plain, loopEnd, hloc, hrounds, hcancelled, hlimit, if_true, Bool.false_eq_true, if_false]
    decide
  | noPrompt vars systemText hloc hrounds hcancelled hlimit =>
    rw [Session.Placed, hloc] at hplaced
    refine hquiet ?_ (stands_raise_processing hplaced _)
    simp only [loopEnd, hloc, hrounds, hcancelled, hlimit, if_true, Bool.false_eq_true, if_false]
  | request vars systemText hloc hrounds hcancelled hlimit =>
    have hrun : Running s₀ ended s := running_of_stands hloc h
    refine hquiet ?_ (hrun.congr rfl rfl)
    simp only [loopEnd, hloc, hrounds, hcancelled, hlimit, if_true, Bool.false_eq_true, if_false]
  | contextLimit vars messages hloc =>
    refine hends .contextLimit ?_ (stands_ended (running_of_stands hloc h) _ _ ?_ _) rfl
    · simp only [loopEnd, hloc]
    · exact List.forall_mem_cons.mpr ⟨⟨rfl, rfl⟩, List.forall_mem_singleton.mpr ⟨rfl, rfl⟩⟩
  | retryable vars messages hloc =>
    rw [Session.Placed, hloc] at hplaced
    refine hquiet ?_ (stands_raise_processing (s := s.emit .error) hplaced _)
    simp only [loopEnd]
  | fail vars messages given e hloc hanswer =>
    have hrun : Running s₀ ended s := running_of_stands hloc h
    refine hquiet ?_ ⟨fun h => (by cases h), fun _ => ?_⟩
    · rcases hanswer with ⟨rfl, -⟩ | ⟨rfl, -⟩ <;> simp only [loopEnd]
    · have hends := hrun.sessionEnds
      show List.countP _ (s.emitted ++ [.error, .sessionEnd .closed]) = _
      rw [List.countP_append, ← hends]
      rfl
  | cancelledCall vars messages hloc =>
    rw [Session.Placed, hloc] at hplaced
    refine hquiet ?_ (stands_raise_processing hplaced _)
    simp only [loopEnd]
  | immediateCancel vars messages r hloc himmediate =>
    refine absurd hplain ?_
    simp only [plain, loopEnd, hloc, himmediate, if_true]
    decide
  | answer vars messages r hloc himmediate hcalls hquestion =>
    have hrun : Running s₀ ended s := running_of_stands hloc h
    refine hends .natural ?_ ?_ hrun.reason
    · simp only [loopEnd, hloc, himmediate, hcalls, hquestion, List.isEmpty_nil, if_true,
        Bool.false_eq_true, if_false]
    · rw [← hrun.reason]
      exact stands_ended hrun _ _ (List.forall_mem_nil _) _
  | question vars messages r hloc himmediate hcalls hquestion =>
    have hrun : Running s₀ ended s := running_of_stands hloc h
    refine hends .awaitingInput ?_ ?_ rfl
    · simp only [loopEnd, hloc, himmediate, hcalls, hquestion, List.isEmpty_nil, if_true,
        Bool.false_eq_true, if_false]
    · have hsettling : Settling s₀ (ended ++ [.awaitingInput]) { s with
          terminationReason := .awaitingInput, emitted := s.emitted ++ [.awaitingInput r.text] } := by
        refine ⟨?_, ended, rfl, hrun.natural⟩
        have hprompts := hrun.prompts
        show List.countP _ (s.emitted ++ [.awaitingInput r.text]) = _
        rw [List.countP_append, List.length_append, List.length_singleton]
        exact hprompts
      have hends : sessionEnds { s with emitted := s.emitted ++ [.awaitingInput r.text] } =
          sessionEnds s₀ := by
        have hends := hrun.sessionEnds
        show List.countP _ (s.emitted ++ [.awaitingInput r.text]) = _
        rw [List.countP_append]
        exact hends
      unfold Stands
      by_cases hdepth : s.followUpDepth = 0
      · simp only [hdepth, if_true]
        exact ⟨hsettling.congr rfl rfl, fun h => (by cases h), fun h => (by cases h)⟩
      · simp only [hdepth, if_false]
        exact ⟨hsettling.congr rfl rfl, hends⟩
  | calls vars vars' messages r hloc himmediate hcalls =>
    have hrun : Running s₀ ended s := running_of_stands hloc h
    refine hquiet ?_ (hrun.congr rfl rfl)
    have hempty : r.toolCalls.isEmpty = false := List.isEmpty_eq_false_iff.mpr hcalls
    simp only [loopEnd, hloc, himmediate, hempty, Bool.false_eq_true, if_false]
  | batch vars toolCalls given results warnings detector hloc hresults =>
    have hrun : Running s₀ ended s := running_of_stands hloc h
    have hcount : ∀ {p : Event → Bool}, (∀ message, p (.steeringInjected message) = false) →
        (∀ warning, p (.loopDetection warning) = false) →
        (s.emitted ++ s.steeringQueue.map Event.steeringInjected ++
          warnings.map Event.loopDetection).countP p =
          s.emitted.countP p := by
      intro p hsteering hwarnings
      rw [List.countP_append, List.countP_append, countP_notes hsteering, countP_notes hwarnings,
        Nat.add_zero]
    exact hquiet rfl ⟨(hcount (fun _ => rfl) fun _ => rfl).trans hrun.sessionEnds,
      (hcount (fun _ => rfl) fun _ => rfl).trans hrun.prompts, hrun.reason, hrun.natural⟩
  | batchRaises vars toolCalls given e hloc he =>
    rw [Session.Placed, hloc] at hplaced
    exact hquiet rfl (stands_raise_processing hplaced _)
  | nextFollowUp result systemText message rest replayed events hloc hqueue hidle hevents =>
    rw [Stands, hloc] at h
    obtain ⟨⟨hprompts, earlier, hended, hearlier⟩, hsame⟩ := h
    have hreason : s.terminationReason = .natural := by
      simp only [plain, hloc, hqueue, List.isEmpty_cons, Bool.false_or, beq_iff_eq] at hplain
      exact hplain
    refine hquiet ?_ (stands_begun (s := { s with followUpQueue := rest }) hsame hprompts ?_
      replayed hevents message)
    · simp only [loopEnd, hloc]
    · rw [hended, hreason]
      exact List.forall_mem_append.mpr ⟨hearlier, List.forall_mem_singleton.mpr rfl⟩
  | lostFollowUp result systemText message rest replayed events hloc hqueue hawaiting hevents =>
    refine hquiet ?_ ⟨fun h => (by cases h), fun h => (by cases h)⟩
    simp only [loopEnd, hloc]
  | noMoreFollowUps result systemText hloc hqueue =>
    rw [Stands, hloc] at h
    rw [Session.Placed, hloc] at hplaced
    refine hquiet ?_ ?_
    · simp only [loopEnd, hloc]
    · unfold Stands
      by_cases hdepth : s.followUpDepth - 1 = 0
      · simp only [hdepth, if_true]
        refine ⟨⟨?_, h.1.reason⟩, fun hclosed => ?_, fun _ => ?_⟩
        · have hprompts := h.1.prompts
          show List.countP _ (s.emitted ++ [.sessionEnd s.state]) = _
          rw [List.countP_append]
          exact hprompts
        · have hclosed' : s.state = .closed := hclosed
          rw [hclosed'] at hplaced
          rcases hplaced.2 with h | h <;> cases h
        · show List.countP _ (s.emitted ++ [.sessionEnd s.state]) = _
          rw [List.countP_append, ← h.2]
          rfl
      · simp only [hdepth, if_false]
        exact ⟨h.1.congr rfl rfl, h.2⟩
  | fault cancelled =>
    cases hloc : s.location with
    | resting last => exact absurd ⟨last, hloc⟩ hbusy
    | followingUp result =>
      refine absurd hplain ?_
      simp only [plain, hloc]
      decide
    | looping vars | calling vars messages | executing vars calls =>
      rw [Session.Placed, hloc] at hplaced
      exact hquiet rfl (stands_raise_processing hplaced _)

/-- What holds of an invocation after its steps so far. -/
structure Tracked (s₀ : Session) (ts : List (Transition Session Action)) (s : Session) : Prop where
  placed : s.Placed
  stands : Stands s₀ (endings ts) s
  named : ∀ t ∈ ts, ∀ reason, loopEnd t = some reason → t.target.terminationReason = reason

theorem tracked_of_plain_steps (hrest : s.AtRest) (hplaced : s.Placed) (hopen : s.state ≠ .closed)
    (inv : Invocation s) (hplain : ∀ t ∈ inv.steps, plain t = true) :
    Tracked s inv.steps inv.session := by
  refine inv.run.invariant_log (P := Tracked s) (Q := fun t => plain t = true ∧ ¬t.source.AtRest)
    (fun ts t hstep ht h => ?_) ?_ fun t ht => ⟨hplain t ht, inv.busy t ht⟩
  · obtain ⟨hstands, hnamed⟩ := stands_step hstep h.placed ht.1 ht.2 h.stands
    refine ⟨Session.placed_step hstep h.placed, ?_, ?_⟩
    · rw [endings, List.filterMap_append]
      cases hend : loopEnd t with
      | none => rw [List.filterMap_cons_none hend]; rwa [hend] at hstands
      | some reason => rw [List.filterMap_cons_some hend]; rwa [hend] at hstands
    · intro t' ht'
      rcases List.mem_append.mp ht' with hearlier | hlast
      · exact h.named t' hearlier
      · rw [List.mem_singleton.mp hlast]
        exact hnamed
  · exact ⟨Session.placed_processInput hrest hplaced _ _, stands_processInput hopen _ _,
      List.forall_mem_nil _⟩

end Steps

theorem Orchestrator.returned_of_success {before after : Option Session} {outcome : Outcome}
    (h : status before after outcome = .success) :
    ∃ text, outcome = .returned text ∧ terminationReason after = .natural := by
  cases outcome with
  | raised e => cases e <;> cases h
  | returned text =>
    rw [status] at h
    split at h
    · cases h
    · split at h
      · exact ⟨text, rfl, ‹_›⟩
      · cases h

theorem Orchestrator.tracked_of_plain [Signatures] (o : Orchestrator) (config : SessionConfig)
    (hopen : (o.current config).state ≠ .closed) (inv : Invocation (o.current config))
    (hplain : ∀ t ∈ inv.steps, plain t = true) :
    Tracked (o.current config) inv.steps inv.session := by
  obtain ⟨hrest, hplaced⟩ := o.current_rests config
  exact tracked_of_plain_steps hrest hplaced hopen inv hplain

theorem reportsExactly_of_tracked [Signatures] {o : Orchestrator} {config : SessionConfig}
    {inv : Invocation (o.current config)}
    (h : Tracked (o.current config) inv.steps inv.session) : ReportsExactly o config inv := by
  have hstands := h.stands
  have hover := inv.ended
  rw [Stands, hover] at hstands
  refine ⟨⟨_, rfl, fun hsuccess => ?_⟩, h.named, ?_, ?_⟩
  · obtain ⟨text, houtcome, hreason⟩ := Orchestrator.returned_of_success hsuccess
    have hnatural : inv.session.terminationReason = .natural := hreason
    rw [houtcome] at hstands
    obtain ⟨⟨hprompts, earlier, hended, hearlier⟩, -⟩ := hstands
    refine ⟨hprompts, ?_⟩
    rw [hended, hnatural]
    exact List.forall_mem_append.mpr ⟨hearlier, List.forall_mem_singleton.mpr rfl⟩
  · intro text houtcome
    rw [houtcome] at hstands
    obtain ⟨⟨-, earlier, hended, -⟩, -⟩ := hstands
    rw [hended, List.getLast?_concat]
  · cases houtcome : inv.outcome with
    | returned text =>
      rw [houtcome] at hstands
      rintro (hidle | hclosed)
      · exact hstands.2.2 hidle
      · exact absurd hclosed hstands.2.1
    | raised e =>
      rw [houtcome] at hstands
      rintro (hidle | hclosed)
      · exact absurd hidle hstands.1
      · exact hstands.2 hclosed

/-- Every invocation gives one event; a plain one is reported exactly. -/
theorem reports_exactly_of_plain [Signatures] (o : Orchestrator) (config : SessionConfig)
    (hopen : (o.current config).state ≠ .closed) (inv : Invocation (o.current config))
    (hplain : ∀ t ∈ inv.steps, plain t = true) :
    ReportsExactly o config inv ∧
      ∀ e, ∃ c, (o.executeUnmade e).completions = o.completions ++ [c] ∧ c.status ≠ .success := by
  refine ⟨?_, fun e => ⟨_, rfl, fun hsuccess => ?_⟩⟩
  · exact reportsExactly_of_tracked (o.tracked_of_plain config hopen inv hplain)
  · obtain ⟨text, houtcome, -⟩ := Orchestrator.returned_of_success hsuccess
    cases houtcome

section Demo

open Unsigned

def answered : List Action :=
  [.proceed "", .provider (.response { text := "Done." }), .proceed ""]

def unmade : Orchestrator := ⟨none, [], fun _ h => nomatch h⟩

theorem answer_reported_exactly :
    ReportsExactly unmade { systemPrompt := "You answer." }
        ((Invocation.play _ "go" answered).get (by decide +kernel)) ∧
      ∀ e, ∃ c, (unmade.executeUnmade e).completions = unmade.completions ++ [c] ∧
        c.status ≠ .success :=
  reports_exactly_of_plain unmade { systemPrompt := "You answer." } (by decide)
    ((Invocation.play _ "go" answered).get (by decide +kernel)) (by decide +kernel)

/-- The limit on turns is reported as the limit on rounds. -/
theorem turn_limit_misnamed : ∃ (o : Orchestrator) (config : SessionConfig)
    (inv : Invocation (o.current config)), ¬ReportsExactly o config inv := by
  refine ⟨unmade, { systemPrompt := "You answer.", maxTurns := 1 },
    (Invocation.play _ "go" [.proceed "", .proceed ""]).get (by decide +kernel), fun h => ?_⟩
  exact absurd (h.last "" (by decide +kernel)) (by decide +kernel)

end Demo

end Agent
end DotRunner
