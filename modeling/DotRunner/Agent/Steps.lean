import DotRunner.Agent.Session

/-!
# The steps of a session

What the functions of the loop come to in the states they are called in, every
step by the place it is taken from, and which states go with which place.
-/

namespace DotRunner
namespace Agent

open Behaviour

namespace Session

/-! ## Opening an invocation -/

theorem hydrateHistoryFromContext_eq (s : Session) (seeded : List SeededMessage) :
    ∃ replayed : List SeededMessage, s.hydrateHistoryFromContext seeded =
      { s with contextHydrated := true, history := s.history ++ replayed.filterMap SeededMessage.turn? } := by
  unfold hydrateHistoryFromContext
  by_cases hhydrated : s.contextHydrated = true
  · refine ⟨[], ?_⟩
    rw [if_pos hhydrated, List.filterMap_nil, List.append_nil, ← hhydrated]
  · exact ⟨seeded, if_neg hhydrated⟩

theorem start_eq (s : Session) :
    ∃ events : List Event, (∀ e ∈ events, e = .sessionStart) ∧
      s.start = { s with sessionStarted := true, emitted := s.emitted ++ events } := by
  unfold start
  by_cases hstarted : s.sessionStarted = true
  · refine ⟨[], List.forall_mem_nil _, ?_⟩
    rw [if_pos hstarted, List.append_nil, ← hstarted]
  · exact ⟨[.sessionStart], fun _ h => List.mem_singleton.mp h, if_neg hstarted⟩

/-- Only the history, the events and the flags differ, and the reason is reset. -/
theorem opened_eq (s : Session) (seeded : List SeededMessage) :
    ∃ (replayed : List SeededMessage) (events : List Event), (∀ e ∈ events, e = .sessionStart) ∧
      s.opened seeded = { s with
        contextHydrated := true
        sessionStarted := true
        terminationReason := .natural
        history := s.history ++ replayed.filterMap SeededMessage.turn?
        emitted := s.emitted ++ events } := by
  obtain ⟨replayed, hhydrate⟩ := hydrateHistoryFromContext_eq s seeded
  obtain ⟨events, hevents, hstart⟩ :=
    start_eq { s.hydrateHistoryFromContext seeded with terminationReason := .natural }
  refine ⟨replayed, events, hevents, ?_⟩
  rw [opened, hstart, hhydrate]

/-- The turns that the steering queue holds. -/
def steeringTurns (s : Session) : List Turn := s.steeringQueue.map .steering

/-- An invocation begins: the prompt is recorded and the loop entered. -/
def begun (s : Session) (replayed : List SeededMessage) (events : List Event) (prompt : String) :
    Session :=
  { s with
    contextHydrated := true
    sessionStarted := true
    terminationReason := .natural
    state := .processing
    history := s.history ++ replayed.filterMap SeededMessage.turn? ++ [.user prompt] ++
      s.steeringTurns
    emitted := s.emitted ++ events ++ [.userInput prompt] ++ s.steeringQueue.map .steeringInjected
    steeringQueue := []
    location := .looping ⟨0, ""⟩ }

theorem processInput_idle {s : Session} (h : s.state = .idle) (seeded : List SeededMessage)
    (prompt : String) :
    ∃ (replayed : List SeededMessage) (events : List Event), (∀ e ∈ events, e = .sessionStart) ∧
      s.processInput seeded prompt = s.begun replayed events prompt := by
  obtain ⟨replayed, events, hevents, hopened⟩ := opened_eq s seeded
  refine ⟨replayed, events, hevents, ?_⟩
  rw [processInput, hopened, fire, h]
  rfl

theorem processInput_refused {s : Session} (h : s.state ≠ .idle) (seeded : List SeededMessage)
    (prompt : String) :
    s.processInput seeded prompt =
      (s.opened seeded).raise (.invalidTransition .submit s.state) := by
  obtain ⟨replayed, events, hevents, hopened⟩ := opened_eq s seeded
  rw [processInput, hopened, fire]
  cases hstate : s.state with
  | idle => exact absurd hstate h
  | processing | awaitingInput | closed => rfl

theorem resumeWithInput_awaiting {s : Session} (h : s.state = .awaitingInput)
    (seeded : List SeededMessage) (answer : String) :
    s.resumeWithInput seeded answer = { s with state := .idle }.processInput seeded answer := by
  rw [resumeWithInput, fire, h]
  rfl

theorem resumeWithInput_refused {s : Session} (h : s.state ≠ .awaitingInput)
    (seeded : List SeededMessage) (answer : String) :
    s.resumeWithInput seeded answer = s.raise (.invalidTransition .resumeInput s.state) := by
  rw [resumeWithInput, fire]
  cases hstate : s.state with
  | awaitingInput => exact absurd hstate h
  | idle | processing | closed => rfl

theorem shutdown_eq (s : Session) :
    ∃ events : List Event, s.shutdown = { s with state := .closed, emitted := s.emitted ++ events } := by
  unfold shutdown fire
  cases hstate : s.state with
  | closed =>
    refine ⟨[], ?_⟩
    rw [List.append_nil]
    cases s
    cases hstate
    rfl
  | idle | processing | awaitingInput => exact ⟨[.sessionEnd .closed], rfl⟩

/-! ## The loop, in the state that goes with it -/

section Processing

variable {s : Session} (h : s.state = .processing)

include h

theorem fire_complete (next : Session → Session) :
    s.fire .complete next = next { s with state := .idle } := by
  rw [fire, h]
  rfl

theorem fire_awaitInput (next : Session → Session) :
    s.fire .awaitInput next = next { s with state := .awaitingInput } := by
  rw [fire, h]
  rfl

theorem fire_fatalError (next : Session → Session) :
    s.fire .fatalError next = next { s with state := .closed } := by
  rw [fire, h]
  rfl

theorem cancelInvocation_eq (vars : LoopVars) :
    s.cancelInvocation vars = { s with
      terminationReason := .cancelled
      cooperativeCancelCount := s.cooperativeCancelCount + 1
      state := .idle
      emitted := s.emitted ++ [.sessionEnd .idle]
      followUpDepth := s.followUpDepth + 1
      location := .followingUp vars.lastText } := by
  rw [cancelInvocation, fire_complete]
  · rfl
  · exact h

theorem afterLoop_eq (vars : LoopVars) :
    s.afterLoop vars = { s with
      terminationReason := .toolRoundLimit
      state := .idle
      emitted := s.emitted ++ [.roundLimit vars.roundCount]
      followUpDepth := s.followUpDepth + 1
      location := .followingUp vars.lastText } := by
  rw [afterLoop, fire_complete]
  · rfl
  · exact h

theorem turnLimit_eq (vars : LoopVars) (totalTurns : Nat) :
    ({ s with terminationReason := .maxTurns }.emit (.totalTurnLimit totalTurns)).afterLoop vars =
      { s with
        terminationReason := .toolRoundLimit
        state := .idle
        emitted := s.emitted ++ [.totalTurnLimit totalTurns] ++ [.roundLimit vars.roundCount]
        followUpDepth := s.followUpDepth + 1
        location := .followingUp vars.lastText } := by
  rw [afterLoop, fire_complete]
  · rfl
  · exact h

theorem fail_eq (e : Raised) :
    s.fail e = { s with
      state := .closed
      emitted := s.emitted ++ [.error] ++ [.sessionEnd .closed]
      followUpDepth := 0
      location := .resting (some (.raised e)) } := by
  have hemit : (s.emit .error).state = .processing := h
  rw [fail, fire_fatalError hemit]
  rfl

theorem respond_answer {vars : LoopVars} {r : CallResult} (hcalls : r.toolCalls = [])
    (hquestion : looksLikeQuestion r.text = false) :
    s.respond vars r = { s with
      history := s.history ++ [.assistant ⟨r.text, [], r.reasoning, r.reasoningSignature⟩]
      state := .idle
      followUpDepth := s.followUpDepth + 1
      location := .followingUp r.text } := by
  simp only [respond, hcalls, List.isEmpty_nil, if_true, hquestion, Bool.false_eq_true, if_false]
  rw [fire_complete]
  · rfl
  · exact h

theorem respond_question {vars : LoopVars} {r : CallResult} (hcalls : r.toolCalls = [])
    (hquestion : looksLikeQuestion r.text = true) :
    s.respond vars r = { s with
      history := s.history ++ [.assistant ⟨r.text, [], r.reasoning, r.reasoningSignature⟩]
      terminationReason := .awaitingInput
      state := .awaitingInput
      emitted := s.emitted ++ [.awaitingInput r.text]
      location :=
        if s.followUpDepth = 0 then .resting (some (.returned r.text)) else .followingUp r.text } := by
  simp only [respond, hcalls, List.isEmpty_nil, if_true, hquestion]
  rw [fire_awaitInput]
  · rfl
  · exact h

theorem contextLength_eq (vars : LoopVars) :
    s.providerAnswered vars .contextLengthError = { s with
      terminationReason := .contextLimit
      state := .idle
      emitted := s.emitted ++ [.error] ++ [.contextLengthExceeded]
      followUpDepth := s.followUpDepth + 1
      location := .followingUp vars.lastText } := by
  rw [providerAnswered, fire_complete]
  · rfl
  · exact h

end Processing

theorem respond_calls (s : Session) (vars : LoopVars) {r : CallResult} (hcalls : r.toolCalls ≠ []) :
    ∃ vars' : LoopVars, s.respond vars r = { s with
      history := s.history ++
        [.assistant ⟨r.text, r.toolCalls, r.reasoning, r.reasoningSignature⟩]
      location := .executing vars' r.toolCalls } := by
  refine ⟨if r.text = "" then vars else { vars with lastText := r.text }, ?_⟩
  have hempty : r.toolCalls.isEmpty = false := List.isEmpty_eq_false_iff.mpr hcalls
  simp only [respond, hempty, Bool.false_eq_true, if_false]
  rfl

/-! ## Follow-ups -/

theorem drainFollowUp_cons {s : Session} {message : String} {rest : List String}
    (h : s.followUpQueue = message :: rest) (result : String) :
    s.drainFollowUp result = { s with followUpQueue := rest }.processInput [] message := by
  rw [drainFollowUp, h]

/-- With nothing left the call ends, and the outermost one says so. -/
theorem drainFollowUp_nil {s : Session} (h : s.followUpQueue = []) (result : String) :
    s.drainFollowUp result = { s with
      followUpDepth := s.followUpDepth - 1
      emitted := if s.followUpDepth - 1 = 0 then s.emitted ++ [.sessionEnd s.state] else s.emitted
      location := if s.followUpDepth - 1 = 0 then .resting (some (.returned result))
        else .followingUp result } := by
  rw [drainFollowUp, h]
  by_cases hdepth : s.followUpDepth - 1 = 0
  · simp only [hdepth, if_true, returnText, emit]
  · simp only [hdepth, if_false, returnText]

/-! ## After the tools -/

theorem recordCalls_eq [Signatures] (s : Session) (calls : List ToolCall) :
    ∃ detector, s.recordCalls calls = { s with loopDetector := detector } := by
  unfold recordCalls
  split
  · exact ⟨_, rfl⟩
  · exact ⟨s.loopDetector, rfl⟩

theorem checkLoopDetection_eq (s : Session) :
    ∃ (warnings : List String) (detector : LoopDetector), s.checkLoopDetection = { s with
      history := s.history ++ warnings.map .steering
      emitted := s.emitted ++ warnings.map .loopDetection
      loopDetector := detector } := by
  have hsame : ∃ (warnings : List String) (detector : LoopDetector), s = { s with
      history := s.history ++ warnings.map .steering
      emitted := s.emitted ++ warnings.map .loopDetection
      loopDetector := detector } := by
    refine ⟨[], s.loopDetector, ?_⟩
    rw [List.map_nil, List.map_nil, List.append_nil, List.append_nil]
  unfold checkLoopDetection
  split
  · split
    · rename_i warning _
      exact ⟨[warning], { s.loopDetector with signatures := [] }, rfl⟩
    · exact hsame
  · exact hsame

/-- After a batch come its results, then what was waiting to be said. -/
theorem toolsAnswered_ok [Signatures] {s : Session} (vars : LoopVars) {calls : List ToolCall}
    {answer : ToolsAnswer} {results : List ToolResult}
    (hresults : executeToolCalls s.config.supportsParallelToolCalls calls answer = .ok results) :
    ∃ (warnings : List String) (detector : LoopDetector), s.toolsAnswered vars calls answer = { s with
      history := s.history ++ [.toolResults results] ++ s.steeringTurns ++ warnings.map .steering
      emitted := s.emitted ++ s.steeringQueue.map .steeringInjected ++ warnings.map .loopDetection
      steeringQueue := []
      loopDetector := detector
      location := .looping { vars with roundCount := vars.roundCount + 1 } } := by
  obtain ⟨recorded, hrecorded⟩ := recordCalls_eq (s.addTurn (.toolResults results)) calls
  obtain ⟨warnings, detector, hwarnings⟩ :=
    checkLoopDetection_eq (((s.addTurn (.toolResults results)).recordCalls calls).drainSteering)
  refine ⟨warnings, detector, ?_⟩
  rw [toolsAnswered, hresults]
  show (checkLoopDetection _).goTo _ = _
  rw [hwarnings, hrecorded]
  rfl

theorem toolsAnswered_error [Signatures] {s : Session} {vars : LoopVars} {calls : List ToolCall}
    {answer : ToolsAnswer} {e : Raised}
    (he : executeToolCalls s.config.supportsParallelToolCalls calls answer = .error e) :
    s.toolsAnswered vars calls answer = s.raise e := by
  rw [toolsAnswered, he]

/-- A batch that gives results gives one for each call. -/
theorem length_executeToolCalls {parallel : Bool} {calls : List ToolCall} {answer : ToolsAnswer}
    {results : List ToolResult} (h : executeToolCalls parallel calls answer = .ok results) :
    results.length = calls.length := by
  cases answer with
  | finished result =>
    rw [← Except.ok.inj h, List.length_mapIdx]
  | exception => cases h
  | cancelledError =>
    rw [executeToolCalls] at h
    split at h
    · rw [← Except.ok.inj h, List.length_map]
    · cases h

/-! ## Every step -/

def AtRest (s : Session) : Prop := ∃ last, s.location = .resting last

instance (s : Session) : Decidable s.AtRest :=
  match h : s.location with
  | .resting last => .isTrue ⟨last, h⟩
  | .looping _ | .calling _ _ | .executing _ _ | .followingUp _ =>
    .isFalse fun ⟨_, hlast⟩ => nomatch h.symm.trans hlast

/-- Which states go with which place. -/
def Placed (s : Session) : Prop :=
  match s.location with
  | .resting _ => s.followUpDepth = 0
  | .followingUp _ => 0 < s.followUpDepth ∧ (s.state = .idle ∨ s.state = .awaitingInput)
  | .looping _ | .calling _ _ | .executing _ _ => s.state = .processing

/-- The loop ends and the follow-ups come next. -/
def ended (s : Session) (reason : TerminationReason) (turns : List Turn) (events : List Event)
    (lastText : String) : Session :=
  { s with
    terminationReason := reason
    state := .idle
    history := s.history ++ turns
    emitted := s.emitted ++ events
    followUpDepth := s.followUpDepth + 1
    location := .followingUp lastText }

/-- Every step a placed session can take, with the branch it takes. -/
inductive Effect [Signatures] (s : Session) : Action → Session → Prop where
  | steer (message : String) :
      Effect s (.steer message) { s with steeringQueue := s.steeringQueue ++ [message] }
  | followUp (message : String) :
      Effect s (.followUp message) { s with followUpQueue := s.followUpQueue ++ [message] }
  | setCancellation (c : Cancellation) : Effect s (.setCancellation c) { s with cancellation := c }
  | begin (prompt : String) (seeded replayed : List SeededMessage) (events : List Event)
      (hrest : s.AtRest) (hidle : s.state = .idle) (hevents : ∀ e ∈ events, e = .sessionStart) :
      Effect s (.processInput prompt seeded) (s.begun replayed events prompt)
  | resume (answer : String) (seeded replayed : List SeededMessage) (events : List Event)
      (hrest : s.AtRest) (hawaiting : s.state = .awaitingInput)
      (hevents : ∀ e ∈ events, e = .sessionStart) :
      Effect s (.resumeWithInput answer seeded) (s.begun replayed events answer)
  | refusePrompt (prompt : String) (seeded replayed : List SeededMessage) (events : List Event)
      (hrest : s.AtRest) (hidle : s.state ≠ .idle) (hevents : ∀ e ∈ events, e = .sessionStart) :
      Effect s (.processInput prompt seeded) { s with
        contextHydrated := true
        sessionStarted := true
        terminationReason := .natural
        history := s.history ++ replayed.filterMap SeededMessage.turn?
        emitted := s.emitted ++ events
        followUpDepth := 0
        location := .resting (some (.raised (.invalidTransition .submit s.state))) }
  | refuseAnswer (answer : String) (seeded : List SeededMessage) (hrest : s.AtRest)
      (hawaiting : s.state ≠ .awaitingInput) :
      Effect s (.resumeWithInput answer seeded) (s.raise (.invalidTransition .resumeInput s.state))
  | shutdown (events : List Event) (hrest : s.AtRest) :
      Effect s .shutdown { s with state := .closed, emitted := s.emitted ++ events }
  | roundLimit (vars : LoopVars) (systemText : String) (hloc : s.location = .looping vars)
      (hrounds : ¬s.roundsLeft vars) :
      Effect s (.proceed systemText)
        (s.ended .toolRoundLimit [] [.roundLimit vars.roundCount] vars.lastText)
  | cancel (vars : LoopVars) (systemText : String) (hloc : s.location = .looping vars)
      (hrounds : s.roundsLeft vars) (hcancelled : s.cancellation.isCancelled = true) :
      Effect s (.proceed systemText)
        ({ s with cooperativeCancelCount := s.cooperativeCancelCount + 1 }.ended .cancelled []
          [.sessionEnd .idle] vars.lastText)
  | turnLimit (vars : LoopVars) (systemText : String) (hloc : s.location = .looping vars)
      (hrounds : s.roundsLeft vars) (hcancelled : s.cancellation.isCancelled = false)
      (hlimit : s.turnLimitReached) :
      Effect s (.proceed systemText) (s.ended .toolRoundLimit []
        [.totalTurnLimit s.history.length, .roundLimit vars.roundCount] vars.lastText)
  | noPrompt (vars : LoopVars) (systemText : String) (hloc : s.location = .looping vars)
      (hrounds : s.roundsLeft vars) (hcancelled : s.cancellation.isCancelled = false)
      (hlimit : ¬s.turnLimitReached) (hprompt : s.config.systemPrompt = "") :
      Effect s (.proceed systemText) (s.raise .exception)
  | request (vars : LoopVars) (systemText : String) (hloc : s.location = .looping vars)
      (hrounds : s.roundsLeft vars) (hcancelled : s.cancellation.isCancelled = false)
      (hlimit : ¬s.turnLimitReached) (hprompt : s.config.systemPrompt ≠ "") :
      Effect s (.proceed systemText) { s with
        providerCallCount := s.providerCallCount + 1
        location := .calling vars (s.messages systemText) }
  | contextLimit (vars : LoopVars) (messages : List Message)
      (hloc : s.location = .calling vars messages) :
      Effect s (.provider .contextLengthError)
        (s.ended .contextLimit [] [.error, .contextLengthExceeded] vars.lastText)
  | retryable (vars : LoopVars) (messages : List Message)
      (hloc : s.location = .calling vars messages) :
      Effect s (.provider (.llmError true)) ((s.emit .error).raise (.llmError true))
  | fail (vars : LoopVars) (messages : List Message) (answer : ProviderAnswer) (e : Raised)
      (hloc : s.location = .calling vars messages)
      (hanswer : answer = .llmError false ∧ e = .llmError false ∨
        answer = .exception ∧ e = .exception) :
      Effect s (.provider answer) ({ s with
        state := .closed, emitted := s.emitted ++ [Event.error, Event.sessionEnd .closed] }.raise e)
  | cancelledCall (vars : LoopVars) (messages : List Message)
      (hloc : s.location = .calling vars messages) :
      Effect s (.provider .cancelledError) (s.raise .cancelledError)
  | immediateCancel (vars : LoopVars) (messages : List Message) (r : CallResult)
      (hloc : s.location = .calling vars messages) (himmediate : s.cancellation.isImmediate = true) :
      Effect s (.provider (.response r))
        ({ s with cooperativeCancelCount := s.cooperativeCancelCount + 1 }.ended .cancelled []
          [.sessionEnd .idle] vars.lastText)
  | answer (vars : LoopVars) (messages : List Message) (r : CallResult)
      (hloc : s.location = .calling vars messages) (himmediate : s.cancellation.isImmediate = false)
      (hcalls : r.toolCalls = []) (hquestion : looksLikeQuestion r.text = false) :
      Effect s (.provider (.response r)) (s.ended s.terminationReason
        [.assistant ⟨r.text, [], r.reasoning, r.reasoningSignature⟩] [] r.text)
  | question (vars : LoopVars) (messages : List Message) (r : CallResult)
      (hloc : s.location = .calling vars messages) (himmediate : s.cancellation.isImmediate = false)
      (hcalls : r.toolCalls = []) (hquestion : looksLikeQuestion r.text = true) :
      Effect s (.provider (.response r)) { s with
        history := s.history ++ [.assistant ⟨r.text, [], r.reasoning, r.reasoningSignature⟩]
        terminationReason := .awaitingInput
        state := .awaitingInput
        emitted := s.emitted ++ [.awaitingInput r.text]
        location :=
          if s.followUpDepth = 0 then .resting (some (.returned r.text)) else .followingUp r.text }
  | calls (vars vars' : LoopVars) (messages : List Message) (r : CallResult)
      (hloc : s.location = .calling vars messages) (himmediate : s.cancellation.isImmediate = false)
      (hcalls : r.toolCalls ≠ []) :
      Effect s (.provider (.response r)) { s with
        history := s.history ++
          [.assistant ⟨r.text, r.toolCalls, r.reasoning, r.reasoningSignature⟩]
        location := .executing vars' r.toolCalls }
  | batch (vars : LoopVars) (toolCalls : List ToolCall) (given : ToolsAnswer)
      (results : List ToolResult) (warnings : List String) (detector : LoopDetector)
      (hloc : s.location = .executing vars toolCalls)
      (hresults :
        executeToolCalls s.config.supportsParallelToolCalls toolCalls given = .ok results) :
      Effect s (.tools given) { s with
        history := s.history ++ [.toolResults results] ++ s.steeringTurns ++ warnings.map .steering
        emitted := s.emitted ++ s.steeringQueue.map .steeringInjected ++ warnings.map .loopDetection
        steeringQueue := []
        loopDetector := detector
        location := .looping { vars with roundCount := vars.roundCount + 1 } }
  | batchRaises (vars : LoopVars) (toolCalls : List ToolCall) (given : ToolsAnswer) (e : Raised)
      (hloc : s.location = .executing vars toolCalls)
      (he : executeToolCalls s.config.supportsParallelToolCalls toolCalls given = .error e) :
      Effect s (.tools given) (s.raise e)
  | nextFollowUp (result systemText message : String) (rest : List String)
      (replayed : List SeededMessage) (events : List Event)
      (hloc : s.location = .followingUp result) (hqueue : s.followUpQueue = message :: rest)
      (hidle : s.state = .idle) (hevents : ∀ e ∈ events, e = .sessionStart) :
      Effect s (.proceed systemText)
        ({ s with followUpQueue := rest }.begun replayed events message)
  | lostFollowUp (result systemText message : String) (rest : List String)
      (replayed : List SeededMessage) (events : List Event)
      (hloc : s.location = .followingUp result) (hqueue : s.followUpQueue = message :: rest)
      (hawaiting : s.state = .awaitingInput) (hevents : ∀ e ∈ events, e = .sessionStart) :
      Effect s (.proceed systemText) { s with
        contextHydrated := true
        sessionStarted := true
        terminationReason := .natural
        state := .awaitingInput
        history := s.history ++ replayed.filterMap SeededMessage.turn?
        emitted := s.emitted ++ events
        followUpQueue := rest
        followUpDepth := 0
        location := .resting (some (.raised (.invalidTransition .submit .awaitingInput))) }
  | noMoreFollowUps (result systemText : String) (hloc : s.location = .followingUp result)
      (hqueue : s.followUpQueue = []) :
      Effect s (.proceed systemText) { s with
        followUpDepth := s.followUpDepth - 1
        emitted := if s.followUpDepth - 1 = 0 then s.emitted ++ [.sessionEnd s.state] else s.emitted
        location := if s.followUpDepth - 1 = 0 then .resting (some (.returned result))
          else .followingUp result }
  | fault (cancelled : Bool) (hbusy : ¬s.AtRest) :
      Effect s (.fault cancelled) (s.raise (if cancelled then .cancelledError else .exception))

section Effects

variable [Signatures] {s : Session}

theorem effect_processInput (hrest : s.AtRest) (prompt : String)
    (seeded : List SeededMessage) :
    Effect s (.processInput prompt seeded) (s.processInput seeded prompt) := by
  by_cases hidle : s.state = .idle
  · obtain ⟨replayed, events, hevents, heq⟩ := processInput_idle hidle seeded prompt
    rw [heq]
    exact .begin prompt seeded replayed events hrest hidle hevents
  · obtain ⟨replayed, events, hevents, heq⟩ := opened_eq s seeded
    rw [processInput_refused hidle, heq]
    exact .refusePrompt prompt seeded replayed events hrest hidle hevents

theorem effect_resumeWithInput (hrest : s.AtRest) (answer : String) (seeded : List SeededMessage) :
    Effect s (.resumeWithInput answer seeded) (s.resumeWithInput seeded answer) := by
  by_cases hawaiting : s.state = .awaitingInput
  · obtain ⟨replayed, events, hevents, heq⟩ :=
      processInput_idle (s := { s with state := .idle }) rfl seeded answer
    rw [resumeWithInput_awaiting hawaiting, heq]
    exact .resume answer seeded replayed events hrest hawaiting hevents
  · rw [resumeWithInput_refused hawaiting]
    exact .refuseAnswer answer seeded hrest hawaiting

theorem effect_loopRound {vars : LoopVars} (hloc : s.location = .looping vars)
    (hstate : s.state = .processing) (systemText : String) :
    Effect s (.proceed systemText) (s.loopRound vars systemText) := by
  unfold loopRound
  by_cases hrounds : s.roundsLeft vars
  · rw [if_pos hrounds]
    cases hcancelled : s.cancellation.isCancelled with
    | true =>
      rw [if_pos rfl, cancelInvocation_eq hstate]
      have heffect := Effect.cancel vars systemText hloc hrounds hcancelled
      rwa [ended, List.append_nil] at heffect
    | false =>
      rw [if_neg Bool.false_ne_true]
      by_cases hlimit : s.turnLimitReached
      · rw [if_pos hlimit, turnLimit_eq hstate]
        have heffect := Effect.turnLimit vars systemText hloc hrounds hcancelled hlimit
        rwa [ended, List.append_nil, ← List.singleton_append, ← List.append_assoc] at heffect
      · rw [if_neg hlimit, request]
        by_cases hprompt : s.config.systemPrompt = ""
        · rw [if_pos hprompt]
          exact .noPrompt vars systemText hloc hrounds hcancelled hlimit hprompt
        · rw [if_neg hprompt]
          exact .request vars systemText hloc hrounds hcancelled hlimit hprompt
  · rw [if_neg hrounds, afterLoop_eq hstate]
    have heffect := Effect.roundLimit vars systemText hloc hrounds
    rwa [ended, List.append_nil] at heffect

theorem effect_providerAnswered {vars : LoopVars} {messages : List Message}
    (hloc : s.location = .calling vars messages) (hstate : s.state = .processing)
    (given : ProviderAnswer) : Effect s (.provider given) (s.providerAnswered vars given) := by
  have hfail : ∀ e : Raised, s.fail e = { s with
      state := .closed, emitted := s.emitted ++ [Event.error, Event.sessionEnd .closed] }.raise e := by
    intro e
    rw [fail_eq hstate, List.append_assoc]
    rfl
  cases given with
  | contextLengthError =>
    rw [contextLength_eq hstate]
    have heffect := Effect.contextLimit vars messages hloc
    rwa [ended, List.append_nil, ← List.singleton_append, ← List.append_assoc] at heffect
  | llmError retryable =>
    cases retryable with
    | true => exact .retryable vars messages hloc
    | false =>
      show Effect s _ (s.fail _)
      rw [hfail]
      exact .fail vars messages _ _ hloc (.inl ⟨rfl, rfl⟩)
  | exception =>
    show Effect s _ (s.fail _)
    rw [hfail]
    exact .fail vars messages _ _ hloc (.inr ⟨rfl, rfl⟩)
  | cancelledError => exact .cancelledCall vars messages hloc
  | response r =>
    show Effect s _ (if s.cancellation.isImmediate then _ else _)
    cases himmediate : s.cancellation.isImmediate with
    | true =>
      rw [if_pos rfl, cancelInvocation_eq hstate]
      have heffect := Effect.immediateCancel vars messages r hloc himmediate
      rwa [ended, List.append_nil] at heffect
    | false =>
      rw [if_neg Bool.false_ne_true]
      by_cases hcalls : r.toolCalls = []
      · cases hquestion : looksLikeQuestion r.text with
        | false =>
          rw [respond_answer hstate hcalls hquestion]
          have heffect := Effect.answer vars messages r hloc himmediate hcalls hquestion
          rwa [ended, List.append_nil] at heffect
        | true =>
          rw [respond_question hstate hcalls hquestion]
          exact .question vars messages r hloc himmediate hcalls hquestion
      · obtain ⟨vars', heq⟩ := respond_calls s vars hcalls
        rw [heq]
        exact .calls vars vars' messages r hloc himmediate hcalls

theorem effect_toolsAnswered {vars : LoopVars} {toolCalls : List ToolCall}
    (hloc : s.location = .executing vars toolCalls) (given : ToolsAnswer) :
    Effect s (.tools given) (s.toolsAnswered vars toolCalls given) := by
  cases hresults : executeToolCalls s.config.supportsParallelToolCalls toolCalls given with
  | error e =>
    rw [toolsAnswered_error hresults]
    exact .batchRaises vars toolCalls given e hloc hresults
  | ok results =>
    obtain ⟨warnings, detector, heq⟩ := toolsAnswered_ok vars hresults
    rw [heq]
    exact .batch vars toolCalls given results warnings detector hloc hresults

theorem effect_drainFollowUp {result : String} (hloc : s.location = .followingUp result)
    (hstate : s.state = .idle ∨ s.state = .awaitingInput) (systemText : String) :
    Effect s (.proceed systemText) (s.drainFollowUp result) := by
  cases hqueue : s.followUpQueue with
  | nil =>
    rw [drainFollowUp_nil hqueue]
    exact .noMoreFollowUps result systemText hloc hqueue
  | cons message rest =>
    rw [drainFollowUp_cons hqueue]
    rcases hstate with hidle | hawaiting
    · obtain ⟨replayed, events, hevents, heq⟩ :=
        processInput_idle (s := { s with followUpQueue := rest }) hidle [] message
      rw [heq]
      exact .nextFollowUp result systemText message rest replayed events hloc hqueue hidle hevents
    · obtain ⟨replayed, events, hevents, heq⟩ := opened_eq { s with followUpQueue := rest } []
      have hrefused : ({ s with followUpQueue := rest } : Session).state ≠ .idle := by
        simp only [hawaiting, ne_eq, reduceCtorEq, not_false_eq_true]
      rw [processInput_refused hrefused, heq, hawaiting]
      exact .lostFollowUp result systemText message rest replayed events hloc hqueue hawaiting
        hevents

/-- Inversion: a step of a placed session is one of the effects. -/
theorem effect_of_step {s' : Session} {a : Action} (h : Step s a s') (hplaced : s.Placed) :
    Effect s a s' := by
  unfold Step step at h
  unfold Placed at hplaced
  split at h
  all_goals cases h
  case h_1 message => exact .steer message
  case h_2 message => exact .followUp message
  case h_3 c => exact .setCancellation c
  case h_4 prompt seeded last hloc => exact effect_processInput ⟨last, hloc⟩ prompt seeded
  case h_5 answer seeded last hloc => exact effect_resumeWithInput ⟨last, hloc⟩ answer seeded
  case h_6 last hloc =>
    obtain ⟨events, heq⟩ := shutdown_eq s
    rw [heq]
    exact .shutdown events ⟨last, hloc⟩
  case h_7 systemText vars hloc =>
    rw [hloc] at hplaced
    exact effect_loopRound hloc hplaced systemText
  case h_8 systemText result hloc =>
    rw [hloc] at hplaced
    exact effect_drainFollowUp hloc hplaced.2 systemText
  case h_9 given vars messages hloc =>
    rw [hloc] at hplaced
    exact effect_providerAnswered hloc hplaced given
  case h_10 given vars toolCalls hloc => exact effect_toolsAnswered hloc given
  case h_12 cancelled hbusy => exact .fault cancelled fun ⟨last, hloc⟩ => hbusy last hloc

end Effects

theorem placed_new (config : SessionConfig) : (Session.new config).Placed := rfl

theorem placed_of_return {s : Session} {text : String}
    (hloc : s.location =
      if s.followUpDepth = 0 then .resting (some (.returned text)) else .followingUp text)
    (h : s.state = .idle ∨ s.state = .awaitingInput) : s.Placed := by
  unfold Placed
  by_cases hdepth : s.followUpDepth = 0
  · rw [hloc, if_pos hdepth]
    exact hdepth
  · rw [hloc, if_neg hdepth]
    exact ⟨Nat.pos_of_ne_zero hdepth, h⟩

theorem placed_step [Signatures] {s s' : Session} {a : Action} (hstep : Step s a s')
    (h : s.Placed) : s'.Placed := by
  cases effect_of_step hstep h with
  | steer | followUp | setCancellation => exact h
  | begin | resume | nextFollowUp => exact rfl
  | refusePrompt | refuseAnswer | noPrompt | retryable | fail | cancelledCall | batchRaises
  | lostFollowUp | fault => exact rfl
  | shutdown events hrest =>
    obtain ⟨last, hloc⟩ := hrest
    rw [Placed, hloc] at h
    unfold Placed
    rw [hloc]
    exact h
  | roundLimit | cancel | turnLimit | contextLimit | immediateCancel | answer =>
    exact ⟨Nat.succ_pos _, .inl rfl⟩
  | request vars systemText hloc | calls vars vars' messages r hloc
  | batch vars toolCalls given results warnings detector hloc =>
    rw [Placed, hloc] at h
    exact h
  | question => exact placed_of_return rfl (.inr rfl)
  | noMoreFollowUps result systemText hloc =>
    rw [Placed, hloc] at h
    exact placed_of_return rfl h.2

end Session
end Agent
end DotRunner
