import DotRunner.Agent.Steps

/-!
# The lifecycle of a session

Two things go wrong with it.  An exception that is neither a context-length error
nor fatal leaves the state at `processing`, from which no invocation can start; and
when the answer to a follow-up is a question, the next follow-up is taken off the
queue and cannot be submitted.  Where neither happens, every invocation ends in a
state that the host can go on from, and the follow-ups are processed in order.
-/

namespace DotRunner
namespace Agent

open Behaviour

/-! ## What is promised -/

/-- An invocation that is over leaves another state than `processing`, and what the session calls
itself is not refused. -/
structure EndsWell (t : Transition Session Action) : Prop where
  ended : t.target.AtRest → t.target.state ≠ .processing
  accepted : ¬t.source.AtRest → ∀ trigger state,
    t.target.location ≠ .resting (some (.raised (.invalidTransition trigger state)))

def askedBy (t : Transition Session Action) : List String :=
  match t.action with
  | .followUp message => [message]
  | _ => []

/-- The follow-ups that were put in the queue. -/
def asked (ts : List (Transition Session Action)) : List String := ts.flatMap askedBy

def prompt? : Event → Option String
  | .userInput content => some content
  | _ => none

/-- The prompts recorded while follow-ups are processed. -/
def handledBy (t : Transition Session Action) : List String :=
  match t.source.location with
  | .followingUp _ => (t.target.emitted.drop t.source.emitted.length).filterMap prompt?
  | _ => []

def handled (ts : List (Transition Session Action)) : List String := ts.flatMap handledBy

/-- The follow-ups asked for are those processed, in order, and then those in the queue. -/
structure Life.Closed [Signatures] {config : SessionConfig} (life : Life config) : Prop where
  endsWell : ∀ t ∈ life.steps, EndsWell t
  followUps : ∀ earlier s, earlier <+: life.steps → Run Session.Step (.new config) earlier s →
    asked earlier = handled earlier ++ s.followUpQueue

/-! ## What goes wrong -/

/-- An exception leaves the loop, and nothing changes the state. -/
def Escapes (t : Transition Session Action) : Prop :=
  match t.action, t.source.location with
  | .proceed _, .looping vars => t.source.roundsLeft vars ∧ t.source.cancellation.isCancelled = false ∧
      ¬t.source.turnLimitReached ∧ t.source.config.systemPrompt = ""
  | .provider (.llmError true), .calling _ _ => True
  | .provider .cancelledError, .calling _ _ => True
  | .tools given, .executing _ calls => ∃ e,
      Session.executeToolCalls t.source.config.supportsParallelToolCalls calls given = .error e
  | .fault _, _ => t.source.state = .processing
  | _, _ => False

/-- A follow-up is taken off the queue while the session awaits an answer. -/
def LosesFollowUp (t : Transition Session Action) : Prop :=
  match t.action, t.source.location with
  | .proceed _, .followingUp _ => t.source.state = .awaitingInput ∧ t.source.followUpQueue ≠ []
  | _, _ => False

def Clean (t : Transition Session Action) : Prop := ¬Escapes t ∧ ¬LosesFollowUp t

/-! ## Exactly then -/

namespace Session

/-- Between invocations the state is not `processing`. -/
structure Calm (s : Session) : Prop where
  placed : s.Placed
  rest : s.AtRest → s.state ≠ .processing

theorem not_atRest {s : Session} {l : Location} (hloc : s.location = l)
    (h : ∀ last, l ≠ .resting last) : ¬s.AtRest := by
  rintro ⟨last, hlast⟩
  exact h last (hloc.symm.trans hlast)

theorem atRest_raise (s : Session) (e : Raised) : (s.raise e).AtRest := ⟨_, rfl⟩

end Session

open Session

section Steps

variable {s s' : Session} {a : Action}

theorem endsWell_of_busy (h : ∀ last, s'.location ≠ .resting last) : EndsWell ⟨s, a, s'⟩ where
  ended := fun ⟨last, hlast⟩ => absurd hlast (h last)
  accepted _ _ _ := h _

theorem not_endsWell_of_processing (h : s'.AtRest) (hstate : s'.state = .processing) :
    ¬EndsWell ⟨s, a, s'⟩ := fun hends => hends.ended h hstate

theorem endsWell_of_returned {text : String} (hstate : s'.state ≠ .processing)
    (hloc : s'.location = if s'.followUpDepth = 0 then .resting (some (.returned text))
      else .followingUp text) : EndsWell ⟨s, a, s'⟩ where
  ended _ := hstate
  accepted _ trigger state hat := by
    rw [hloc] at hat
    split at hat <;> cases hat

variable [Signatures]

/-- Where a session is underway its state says so. -/
def Location.Processing (state : SessionState) : Location → Prop
  | .resting _ | .followingUp _ => True
  | _ => state = .processing

/-- At a calm state the two conditions agree. -/
theorem clean_iff_endsWell (hstep : Step s a s') (hcalm : s.Calm) :
    Clean ⟨s, a, s'⟩ ↔ EndsWell ⟨s, a, s'⟩ := by
  have hprocessing : ∀ {l : Location}, s.location = l → l.Processing s.state := by
    intro l hloc
    have hplaced := hcalm.placed
    rw [Placed, hloc] at hplaced
    cases l <;> trivial
  cases effect_of_step hstep hcalm.placed with
  | steer | followUp | setCancellation =>
    refine iff_of_true ⟨id, id⟩ ⟨fun hrest => hcalm.rest hrest, fun hbusy trigger state hat => ?_⟩
    exact hbusy ⟨_, hat⟩
  | begin prompt seeded replayed events hrest | resume prompt seeded replayed events hrest =>
    exact iff_of_true ⟨id, id⟩ (endsWell_of_busy fun last h => (by cases h))
  | refusePrompt prompt seeded replayed events hrest =>
    exact iff_of_true ⟨id, id⟩ ⟨fun _ => hcalm.rest hrest, fun hbusy => absurd hrest hbusy⟩
  | refuseAnswer answer seeded hrest =>
    exact iff_of_true ⟨id, id⟩ ⟨fun _ => hcalm.rest hrest, fun hbusy => absurd hrest hbusy⟩
  | shutdown events hrest =>
    exact iff_of_true ⟨id, id⟩ ⟨fun _ h => (by cases h), fun hbusy => absurd hrest hbusy⟩
  | roundLimit vars systemText hloc hrounds =>
    refine iff_of_true ⟨?_, ?_⟩ (endsWell_of_busy fun last h => (by cases h))
    · simp only [Escapes, hloc, hrounds, false_and, not_false_eq_true]
    · simp only [LosesFollowUp, hloc, not_false_eq_true]
  | cancel vars systemText hloc hrounds hcancelled =>
    refine iff_of_true ⟨?_, ?_⟩ (endsWell_of_busy fun last h => (by cases h))
    · simp only [Escapes, hloc, hcancelled, Bool.true_eq_false, false_and, and_false,
        not_false_eq_true]
    · simp only [LosesFollowUp, hloc, not_false_eq_true]
  | turnLimit vars systemText hloc hrounds hcancelled hlimit =>
    refine iff_of_true ⟨?_, ?_⟩ (endsWell_of_busy fun last h => (by cases h))
    · simp only [Escapes, hloc, hlimit, not_true, false_and, and_false, not_false_eq_true]
    · simp only [LosesFollowUp, hloc, not_false_eq_true]
  | noPrompt vars systemText hloc hrounds hcancelled hlimit hprompt =>
    refine iff_of_false (fun hclean => hclean.1 ?_)
      (not_endsWell_of_processing (atRest_raise s _) (hprocessing hloc))
    simp only [Escapes, hloc]
    exact ⟨hrounds, hcancelled, hlimit, hprompt⟩
  | request vars systemText hloc hrounds hcancelled hlimit hprompt =>
    refine iff_of_true ⟨?_, ?_⟩ (endsWell_of_busy fun last h => (by cases h))
    · simp only [Escapes, hloc, hprompt, and_false, not_false_eq_true]
    · simp only [LosesFollowUp, hloc, not_false_eq_true]
  | contextLimit vars messages hloc =>
    exact iff_of_true ⟨id, id⟩ (endsWell_of_busy fun last h => (by cases h))
  | retryable vars messages hloc =>
    refine iff_of_false (fun hclean => hclean.1 ?_)
      (not_endsWell_of_processing (atRest_raise _ _) (hprocessing hloc))
    simp only [Escapes, hloc]
  | fail vars messages given e hloc hanswer =>
    have hended : EndsWell ⟨s, .provider given, { s with
        state := .closed, emitted := s.emitted ++ [Event.error, Event.sessionEnd .closed] }.raise e⟩ := by
      refine ⟨fun _ h => (by cases h), fun _ trigger state hat => ?_⟩
      have he : e = .invalidTransition trigger state :=
        Outcome.raised.inj (Option.some.inj (Location.resting.inj hat))
      rcases hanswer with ⟨-, rfl⟩ | ⟨-, rfl⟩ <;> cases he
    rcases hanswer with ⟨rfl, -⟩ | ⟨rfl, -⟩ <;> exact iff_of_true ⟨id, id⟩ hended
  | cancelledCall vars messages hloc =>
    refine iff_of_false (fun hclean => hclean.1 ?_)
      (not_endsWell_of_processing (atRest_raise s _) (hprocessing hloc))
    simp only [Escapes, hloc]
  | immediateCancel vars messages r hloc | answer vars messages r hloc =>
    exact iff_of_true ⟨id, id⟩ (endsWell_of_busy fun last h => (by cases h))
  | question vars messages r hloc =>
    exact iff_of_true ⟨id, id⟩ (endsWell_of_returned (fun h => (by cases h)) rfl)
  | calls vars vars' messages r hloc =>
    exact iff_of_true ⟨id, id⟩ (endsWell_of_busy fun last h => (by cases h))
  | batch vars toolCalls given results warnings detector hloc hresults =>
    refine iff_of_true ⟨?_, id⟩ (endsWell_of_busy fun last h => (by cases h))
    simp only [Escapes, hloc, hresults]
    rintro ⟨e, he⟩
    cases he
  | batchRaises vars toolCalls given e hloc he =>
    refine iff_of_false (fun hclean => hclean.1 ?_)
      (not_endsWell_of_processing (atRest_raise s _) (hprocessing hloc))
    simp only [Escapes, hloc]
    exact ⟨e, he⟩
  | nextFollowUp result systemText message rest replayed events hloc hqueue hidle =>
    refine iff_of_true ⟨?_, ?_⟩ (endsWell_of_busy fun last h => (by cases h))
    · simp only [Escapes, hloc, not_false_eq_true]
    · simp only [LosesFollowUp, hloc, hidle, reduceCtorEq, false_and, not_false_eq_true]
  | lostFollowUp result systemText message rest replayed events hloc hqueue hawaiting =>
    refine iff_of_false (fun hclean => hclean.2 ?_) fun hends => ?_
    · simp only [LosesFollowUp, hloc, hqueue]
      exact ⟨hawaiting, List.cons_ne_nil _ _⟩
    · exact hends.accepted (not_atRest hloc fun last h => (by cases h)) .submit .awaitingInput rfl
  | noMoreFollowUps result systemText hloc hqueue =>
    have hplaced := hcalm.placed
    rw [Placed, hloc] at hplaced
    refine iff_of_true ⟨?_, ?_⟩ (endsWell_of_returned ?_ rfl)
    · simp only [Escapes, hloc, not_false_eq_true]
    · simp only [LosesFollowUp, hloc, hqueue, ne_eq, not_true, and_false, not_false_eq_true]
    · intro hstate
      have hstate' : s.state = .processing := hstate
      rw [hstate'] at hplaced
      rcases hplaced.2 with h | h <;> cases h
  | fault cancelled hbusy =>
    by_cases hstate : s.state = .processing
    · exact iff_of_false (fun hclean => hclean.1 hstate)
        (not_endsWell_of_processing (atRest_raise s _) hstate)
    · refine iff_of_true ⟨hstate, id⟩ ⟨fun _ => hstate, fun _ trigger state hat => ?_⟩
      have he := Outcome.raised.inj (Option.some.inj (Location.resting.inj hat))
      cases cancelled <;> cases he

theorem calm_step (hstep : Step s a s') (hclean : Clean ⟨s, a, s'⟩) (hcalm : s.Calm) : s'.Calm where
  placed := placed_step hstep hcalm.placed
  rest := ((clean_iff_endsWell hstep hcalm).mp hclean).ended

end Steps

/-! ## The queue -/

theorem handledBy_of_location {t : Transition Session Action}
    (h : ∀ result, t.source.location ≠ .followingUp result) : handledBy t = [] := by
  unfold handledBy
  split
  · rename_i result hloc
    exact absurd hloc (h result)
  · rfl

theorem handledBy_of_same {t : Transition Session Action} (h : t.target.emitted = t.source.emitted) :
    handledBy t = [] := by
  unfold handledBy
  rw [h, List.drop_length, List.filterMap_nil]
  split <;> rfl

theorem handledBy_of_added {t : Transition Session Action} {result : String} (added : List Event)
    (hloc : t.source.location = .followingUp result)
    (h : t.target.emitted = t.source.emitted ++ added) : handledBy t = added.filterMap prompt? := by
  unfold handledBy
  rw [hloc, h, List.drop_left]

/-- Of the events of an invocation that begins, only one is a prompt. -/
theorem prompt?_begun {events : List Event} (hevents : ∀ e ∈ events, e = .sessionStart)
    (prompt : String) (steering : List String) :
    (events ++ [Event.userInput prompt] ++ steering.map Event.steeringInjected).filterMap prompt? =
      [prompt] := by
  have hnone : events.filterMap prompt? = [] :=
    List.filterMap_eq_nil_iff.mpr fun e he => by rw [hevents e he]; rfl
  have hsteering : (steering.map Event.steeringInjected).filterMap prompt? = [] := by
    refine List.filterMap_eq_nil_iff.mpr fun e he => ?_
    obtain ⟨message, -, rfl⟩ := List.mem_map.mp he
    rfl
  rw [List.filterMap_append, List.filterMap_append, hnone, hsteering]
  rfl

/-- What a clean step adds to the follow-ups asked for, it adds to those handled or waiting. -/
theorem queue_step [Signatures] {s s' : Session} {a : Action} (hstep : Step s a s')
    (hplaced : s.Placed) (hclean : Clean ⟨s, a, s'⟩) :
    s.followUpQueue ++ askedBy ⟨s, a, s'⟩ = handledBy ⟨s, a, s'⟩ ++ s'.followUpQueue := by
  have hstays : ∀ {a : Action} {s' : Session}, askedBy ⟨s, a, s'⟩ = [] →
      handledBy ⟨s, a, s'⟩ = [] → s'.followUpQueue = s.followUpQueue →
      s.followUpQueue ++ askedBy ⟨s, a, s'⟩ = handledBy ⟨s, a, s'⟩ ++ s'.followUpQueue := by
    intro a s' hasked hhandled hqueue
    rw [hasked, hhandled, hqueue, List.append_nil, List.nil_append]
  have hatRest : s.AtRest → ∀ result, s.location ≠ .followingUp result := by
    rintro ⟨last, hlast⟩ result hloc
    rw [hlast] at hloc
    cases hloc
  have helsewhere : ∀ {l : Location}, s.location = l → (∀ result, l ≠ .followingUp result) →
      ∀ result, s.location ≠ .followingUp result := by
    intro l hloc h result hat
    exact h result (hloc.symm.trans hat)
  cases effect_of_step hstep hplaced with
  | steer | setCancellation => exact hstays rfl (handledBy_of_same rfl) rfl
  | followUp message => rw [handledBy_of_same rfl]; rfl
  | begin _ _ _ _ hrest | resume _ _ _ _ hrest | refusePrompt _ _ _ _ hrest
  | refuseAnswer _ _ hrest | shutdown _ hrest =>
    exact hstays rfl (handledBy_of_location (hatRest hrest)) rfl
  | roundLimit _ _ hloc | cancel _ _ hloc | turnLimit _ _ hloc | noPrompt _ _ hloc
  | request _ _ hloc | contextLimit _ _ hloc | retryable _ _ hloc | cancelledCall _ _ hloc
  | immediateCancel _ _ _ hloc | answer _ _ _ hloc | question _ _ _ hloc | calls _ _ _ _ hloc
  | batch _ _ _ _ _ _ hloc | batchRaises _ _ _ _ hloc | fail _ _ _ _ hloc =>
    exact hstays rfl
      (handledBy_of_location (helsewhere hloc fun result h => (nomatch h))) rfl
  | nextFollowUp result systemText message rest replayed events hloc hqueue hidle hevents =>
    have hhandled := handledBy_of_added (t := ⟨s, .proceed systemText,
      { s with followUpQueue := rest }.begun replayed events message⟩) _ hloc (by
        show s.emitted ++ events ++ _ ++ _ = _
        rw [List.append_assoc, List.append_assoc])
    rw [← List.append_assoc, prompt?_begun hevents] at hhandled
    rw [hhandled]
    show s.followUpQueue ++ [] = [message] ++ rest
    rw [hqueue, List.append_nil, List.singleton_append]
  | lostFollowUp result systemText message rest replayed events hloc hqueue hawaiting =>
    refine absurd ?_ hclean.2
    simp only [LosesFollowUp, hloc, hqueue]
    exact ⟨hawaiting, List.cons_ne_nil _ _⟩
  | noMoreFollowUps result systemText hloc hqueue =>
    refine hstays rfl ?_ rfl
    by_cases hdepth : s.followUpDepth - 1 = 0
    · rw [handledBy_of_added [.sessionEnd s.state] hloc (if_pos hdepth)]
      rfl
    · exact handledBy_of_same (if_neg hdepth)
  | fault => exact hstays rfl (handledBy_of_same rfl) rfl

theorem calm_new (config : SessionConfig) : (Session.new config).Calm where
  placed := placed_new config
  rest _ := fun h => nomatch h

/-- In a clean life every follow-up asked for is processed, in order, or waits. -/
theorem asked_eq [Signatures] {config : SessionConfig} {ts : List (Transition Session Action)}
    {s : Session} (run : Run Session.Step (.new config) ts s) (hclean : ∀ t ∈ ts, Clean t) :
    asked ts = handled ts ++ s.followUpQueue := by
  have hboth : s.Calm ∧ asked ts = handled ts ++ s.followUpQueue := by
    refine run.invariant_log (P := fun ts s => s.Calm ∧ asked ts = handled ts ++ s.followUpQueue)
      (Q := Clean) (fun ts t hstep ht h => ⟨calm_step hstep ht h.1, ?_⟩) ⟨calm_new config, rfl⟩ hclean
    have hqueue := queue_step hstep h.1.placed ht
    rw [asked, handled, List.flatMap_append, List.flatMap_append, List.flatMap_singleton,
      List.flatMap_singleton, ← asked, ← handled, h.2, List.append_assoc, List.append_assoc, hqueue]
  exact hboth.2

theorem closed_iff_clean [Signatures] {config : SessionConfig} (life : Life config) :
    life.Closed ↔ ∀ t ∈ life.steps, Clean t := by
  have hiff : (∀ t ∈ life.steps, Clean t) ↔ ∀ t ∈ life.steps, EndsWell t :=
    life.run.forall_iff (fun t hstep hcalm => clean_iff_endsWell hstep hcalm)
      (fun t hstep hclean hcalm => calm_step hstep hclean hcalm) (calm_new config)
  constructor
  · exact fun hclosed => hiff.mpr hclosed.endsWell
  · intro hclean
    refine ⟨hiff.mp hclean, fun earlier s hearlier hrun => asked_eq hrun fun t ht => ?_⟩
    exact hclean t (hearlier.subset ht)

section Demo

open Unsigned

/-- Two follow-ups wait, and the answer to the first of them is a question. -/
def questionInFollowUp : List Action :=
  [.processInput "a" [], .followUp "b", .followUp "c",
    .proceed "", .provider (.response { text := "Done." }), .proceed "",
    .proceed "", .provider (.response { text := "Which one?" }), .proceed ""]

theorem second_follow_up_lost : ∃ (config : SessionConfig) (life : Life config), ¬life.Closed := by
  refine ⟨{ systemPrompt := "You answer." },
    .play { systemPrompt := "You answer." } questionInFollowUp (by decide +kernel), fun h => ?_⟩
  exact absurd (h.followUps _ _ (List.prefix_refl _) (Life.run _)) (by decide +kernel)

end Demo

end Agent
end DotRunner
