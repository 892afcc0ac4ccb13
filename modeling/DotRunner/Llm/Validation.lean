import DotRunner.Transducer
import DotRunner.Llm.Types

/-!
# The stream protocol

What `validate_stream` lets through.  A violation is raised, except in mode
`warn`, where it is logged and the event passes.
-/

namespace DotRunner
namespace Llm

/-- What the validator remembers. -/
structure Validator where
  openText : Bool := false
  openTextId : Option String := none
  openTool : Bool := false
  openToolId : Option String := none
  sawFinish : Bool := false
deriving DecidableEq

namespace Validator

/-- The state before the first event. -/
def start : Validator := {}

section Steps

variable (mode : String) (v : Validator) (event : StreamEvent)

def violation (message : String) : Except String Unit :=
  if mode = "warn" then pure () else .error message

def textStart : Except String (Validator × List StreamEvent) := do
  if v.openText then
    violation mode "TEXT_START while text open"
    return (v, [event])
  return ({ v with openText := true, openTextId := event.textId }, [event])

/-- Only this one makes up for what the adapter left out, in mode `normalize`. -/
def textDelta : Except String (Validator × List StreamEvent) :=
  match v.openText, event.textId with
  | false, some id =>
    if mode = "normalize" then
      pure ({ v with openText := true, openTextId := some id },
        [{ type := .textStart, textId := some id }, event])
    else do
      violation mode "TEXT_DELTA without TEXT_START"
      return (v, [event])
  | false, none => do
    violation mode "TEXT_DELTA without TEXT_START"
    return (v, [event])
  | true, none => pure (v, [event])
  | true, some id => match v.openTextId with
    | none => pure ({ v with openTextId := some id }, [event])
    | some opened => do
      if id ≠ opened then
        violation mode "TEXT_DELTA id mismatch"
      return (v, [event])

/-- Are both ids there, and different? -/
def mismatch (id opened : Option String) : Bool :=
  id.isSome && opened.isSome && id != opened

def textEnd : Except String (Validator × List StreamEvent) := do
  if !v.openText then
    violation mode "TEXT_END without TEXT_START"
    return (v, [event])
  if mismatch event.textId v.openTextId then
    violation mode "TEXT_END id mismatch"
    return (v, [event])
  return ({ v with openText := false, openTextId := none }, [event])

def toolCallStart : Except String (Validator × List StreamEvent) := do
  if v.openTool then
    violation mode "TOOL_CALL_START while tool call open"
  match event.toolCall with
  | none => do
    violation mode "TOOL_CALL_START missing tool_call"
    return (v, [event])
  | some call => return ({ v with openTool := true, openToolId := some call.id }, [event])

def toolCallDelta : Except String (Validator × List StreamEvent) := do
  if !v.openTool then
    violation mode "TOOL_CALL_DELTA without TOOL_CALL_START"
  match event.toolCall, v.openToolId with
  | none, _ => do
    violation mode "TOOL_CALL_DELTA id mismatch"
    return (v, [event])
  | some call, none => return ({ v with openToolId := some call.id }, [event])
  | some call, some opened => do
    if call.id ≠ opened then
      violation mode "TOOL_CALL_DELTA id mismatch"
    return (v, [event])

def toolCallEnd : Except String (Validator × List StreamEvent) := do
  if !v.openTool then
    violation mode "TOOL_CALL_END without TOOL_CALL_START"
  let closed := { v with openTool := false, openToolId := none }
  match event.toolCall with
  | none => do
    violation mode "TOOL_CALL_END id mismatch"
    return (closed, [event])
  | some call => do
    if mismatch (some call.id) v.openToolId then
      violation mode "TOOL_CALL_END id mismatch"
      return (v, [event])
    return (closed, [event])

def finish : Except String (Validator × List StreamEvent) := do
  if v.openText || v.openTool then
    violation mode "FINISH before closing text/tool call"
  return ({ v with sawFinish := true }, [event])

/-- One event: the state after it and what is passed on. -/
def step : Except String (Validator × List StreamEvent) :=
  match event.type with
  | .streamStart | .reasoningStart | .reasoningDelta | .reasoningEnd | .providerEvent | .error =>
    pure (v, [event])
  | .textStart => textStart mode v event
  | .textDelta => textDelta mode v event
  | .textEnd => textEnd mode v event
  | .toolCallStart => toolCallStart mode v event
  | .toolCallDelta => toolCallDelta mode v event
  | .toolCallEnd => toolCallEnd mode v event
  | .finish => finish mode v event
  | .other _ => pure (v, [event])

end Steps

/-- The events passed on, and the violation that ended them. -/
def validateStream (mode : String) (v : Validator) : List StreamEvent → List StreamEvent × Option String
  | [] =>
    if v.sawFinish then ([], none)
    else match violation mode "Missing FINISH event" with
      | .error message => ([], some message)
      | .ok () => ([], none)
  | event :: events => match step mode v event with
    | .error message => ([], some message)
    | .ok (v', passed) =>
      let rest := validateStream mode v' events
      (passed ++ rest.1, rest.2)

/-! ## Strict mode -/

/-- A stream that the client passes to its caller to the end. -/
def Accepts (events : List StreamEvent) : Prop := (validateStream "strict" start events).2 = none

/-- The state after an event, in strict mode. -/
def next (v : Validator) (event : StreamEvent) : Except String Validator :=
  (step "strict" v event).map Prod.fst

@[simp] theorem violation_strict (message : String) : violation "strict" message = .error message :=
  if_neg (by decide)

section Passing

variable {v v' : Validator} {event : StreamEvent} {passed : List StreamEvent}

/-- In strict mode what is passed on is the event itself. -/
theorem step_strict (h : step "strict" v event = .ok (v', passed)) : passed = [event] := by
  have hnormal : ("strict" = "normalize") = False := eq_false (by decide)
  unfold step at h
  split at h
  case h_1 | h_2 | h_3 | h_4 | h_5 | h_6 | h_14 =>
    exact ((Prod.mk.inj (Except.ok.inj h)).2).symm
  all_goals
    simp only [textStart, textDelta, textEnd, toolCallStart, toolCallDelta, toolCallEnd, finish,
      violation_strict, hnormal, if_false, bind, pure, Except.bind, Except.pure] at h
    repeat' split at h
    all_goals first
      | exact ((Prod.mk.inj (Except.ok.inj h)).2).symm
      | cases h

theorem validateStream_cons (h : next v event = .ok v') (events : List StreamEvent) :
    validateStream "strict" v (event :: events) =
      (event :: (validateStream "strict" v' events).1, (validateStream "strict" v' events).2) := by
  rw [next] at h
  cases hstep : step "strict" v event with
  | error message =>
    rw [hstep] at h
    cases h
  | ok p =>
    rw [hstep] at h
    obtain ⟨v₁, passed⟩ := p
    have hv : v₁ = v' := Except.ok.inj h
    rw [validateStream, hstep, step_strict hstep, hv]
    rfl

theorem validateStream_error {message : String} (h : next v event = .error message)
    (events : List StreamEvent) :
    validateStream "strict" v (event :: events) = ([], some message) := by
  rw [next] at h
  cases hstep : step "strict" v event with
  | error m =>
    rw [hstep] at h
    rw [validateStream, hstep, Except.error.inj h]
  | ok p =>
    rw [hstep] at h
    cases h

end Passing

/-- An accepted stream ends in a state that has seen a FINISH. -/
theorem accepted_iff (v : Validator) (events : List StreamEvent) :
    (validateStream "strict" v events).2 = none ↔
      ∃ v', Transducer.check next v events = .ok v' ∧ v'.sawFinish = true := by
  induction events generalizing v with
  | nil =>
    rw [validateStream, Transducer.check]
    by_cases hfinish : v.sawFinish = true
    · rw [if_pos hfinish]
      exact ⟨fun _ => ⟨v, rfl, hfinish⟩, fun _ => rfl⟩
    · rw [if_neg hfinish, violation_strict]
      refine ⟨fun h => (by cases h), ?_⟩
      rintro ⟨v', hv, hsaw⟩
      exact absurd (Except.ok.inj hv ▸ hsaw) hfinish
  | cons event events ih =>
    rw [Transducer.check]
    cases hnext : next v event with
    | error message =>
      rw [validateStream_error hnext]
      refine ⟨fun h => (by cases h), ?_⟩
      rintro ⟨v', hv, -⟩
      cases hv
    | ok v₁ =>
      rw [validateStream_cons hnext]
      exact ih v₁

/-- What the caller sees of an accepted stream is the adapter's own stream. -/
theorem validateStream_eq_of_accepted {v : Validator} {events : List StreamEvent}
    (h : (validateStream "strict" v events).2 = none) :
    (validateStream "strict" v events).1 = events := by
  induction events generalizing v with
  | nil =>
    rw [validateStream] at h ⊢
    by_cases hfinish : v.sawFinish = true
    · rw [if_pos hfinish]
    · rw [if_neg hfinish, violation_strict]
  | cons event events ih =>
    cases hnext : next v event with
    | error message =>
      rw [validateStream_error hnext] at h
      cases h
    | ok v₁ =>
      rw [validateStream_cons hnext] at h ⊢
      exact congrArg (event :: ·) (ih h)

theorem not_accepted_of_refuses {v : Validator} {events : List StreamEvent}
    (h : Transducer.Refuses next v events) : (validateStream "strict" v events).2 ≠ none := by
  rw [Ne, accepted_iff]
  rintro ⟨v', hcheck, -⟩
  exact h.not_ok hcheck

/-! ## The adapters' events -/

section Events

variable {v : Validator}

/-- Events that open and close nothing. -/
def Passes : StreamEventType → Bool
  | .streamStart | .reasoningStart | .reasoningDelta | .reasoningEnd | .providerEvent | .error
  | .other _ => true
  | _ => false

theorem next_of_passes {event : StreamEvent} (h : Passes event.type = true) :
    next v event = .ok v := by
  rw [next, step]
  cases htype : event.type with
  | textStart | textDelta | textEnd | toolCallStart | toolCallDelta | toolCallEnd | finish =>
    rw [htype] at h
    cases h
  | _ => rfl

theorem next_textStart (h : v.openText = false) :
    next v (.ofType .textStart) = .ok { v with openText := true, openTextId := none } := by
  show (textStart "strict" v _).map Prod.fst = _
  rw [textStart, h]
  rfl

theorem next_textDelta (h : v.openText = true) (delta : String) :
    next v (.textDeltaOf delta) = .ok v := by
  show (textDelta "strict" v _).map Prod.fst = _
  rw [textDelta, h]
  rfl

theorem next_textEnd (h : v.openText = true) :
    next v (.ofType .textEnd) = .ok { v with openText := false, openTextId := none } := by
  show (textEnd "strict" v _).map Prod.fst = _
  rw [textEnd, h]
  rfl

theorem next_toolCallStart (h : v.openTool = false) (call : ToolCall) :
    next v (.toolCallStartOf call) = .ok { v with openTool := true, openToolId := some call.id } := by
  show (toolCallStart "strict" v (.toolCallStartOf call)).map Prod.fst = _
  rw [toolCallStart, h]
  rfl

/-- A second call cannot start before the first has ended. -/
theorem refuses_toolCallStart (h : v.openTool = true) (call : ToolCall) (events : List StreamEvent) :
    Transducer.Refuses next v (.toolCallStartOf call :: events) := by
  refine ⟨"TOOL_CALL_START while tool call open", ?_⟩
  have hnext : next v (.toolCallStartOf call) = .error "TOOL_CALL_START while tool call open" := by
    show (toolCallStart "strict" v (.toolCallStartOf call)).map Prod.fst = _
    rw [toolCallStart, h, if_pos rfl, violation_strict]
    rfl
  rw [Transducer.check, hnext]

/-- No delta that names no call passes, whatever is open. -/
theorem refuses_toolCallDelta (v : Validator) (delta : String) (events : List StreamEvent) :
    Transducer.Refuses next v (.toolCallDeltaOf delta :: events) := by
  have hnext : ∃ message, next v (.toolCallDeltaOf delta) = .error message := by
    show ∃ message, (toolCallDelta "strict" v (.toolCallDeltaOf delta)).map Prod.fst = .error message
    rw [toolCallDelta]
    cases v.openTool with
    | false =>
      rw [Bool.not_false, if_pos rfl, violation_strict]
      exact ⟨_, rfl⟩
    | true =>
      rw [violation_strict]
      exact ⟨_, rfl⟩
  obtain ⟨message, hmessage⟩ := hnext
  exact ⟨message, by rw [Transducer.check, hmessage]⟩

theorem next_toolCallEnd {call : ToolCall} (h : v.openTool = true)
    (hid : v.openToolId = some call.id) :
    next v (.toolCallEndOf call) = .ok { v with openTool := false, openToolId := none } := by
  have hmatch : mismatch (some call.id) v.openToolId = false := by
    rw [hid, mismatch, bne_self_eq_false, Bool.and_false]
  show (toolCallEnd "strict" v (.toolCallEndOf call)).map Prod.fst = _
  rw [toolCallEnd, h]
  show ((if mismatch (some call.id) v.openToolId then _ else _) :
    Except String (Validator × List StreamEvent)).map Prod.fst = _
  rw [hmatch]
  rfl

/-- Nothing ends twice. -/
theorem refuses_toolCallEnd (h : v.openTool = false) (call : ToolCall) (events : List StreamEvent) :
    Transducer.Refuses next v (.toolCallEndOf call :: events) := by
  refine ⟨"TOOL_CALL_END without TOOL_CALL_START", ?_⟩
  have hnext : next v (.toolCallEndOf call) = .error "TOOL_CALL_END without TOOL_CALL_START" := by
    show (toolCallEnd "strict" v (.toolCallEndOf call)).map Prod.fst = _
    rw [toolCallEnd, h, Bool.not_false, if_pos rfl, violation_strict]
    rfl
  rw [Transducer.check, hnext]

theorem next_finish (htext : v.openText = false) (htool : v.openTool = false)
    (id model provider : String) (reason : FinishReason) (usage : Usage) :
    next v (.finishOf id model provider reason usage) = .ok { v with sawFinish := true } := by
  show (finish "strict" v _).map Prod.fst = _
  rw [finish, htext, htool]
  rfl

/-- Deltas of an open text change nothing. -/
theorem check_textDeltas (h : v.openText = true) (deltas : List String) :
    Transducer.check next v (deltas.map .textDeltaOf) = .ok v := by
  induction deltas with
  | nil => rfl
  | cons delta deltas ih =>
    rw [List.map_cons, Transducer.check, next_textDelta h]
    exact ih

theorem check_of_passes {events : List StreamEvent} (h : ∀ e ∈ events, Passes e.type = true) :
    Transducer.check next v events = .ok v := by
  induction events with
  | nil => rfl
  | cons event events ih =>
    rw [Transducer.check, next_of_passes (h event List.mem_cons_self)]
    exact ih fun e he => h e (List.mem_cons_of_mem _ he)

end Events

end Validator

end Llm
end DotRunner
