import DotRunner.Llm.Accumulator
import DotRunner.Py.Ascii

/-!
# The tool loop

`generate` and `stream` each run a loop of their own: ask the model, run the tools
it wants, ask again.  `generate` runs the tools before it looks whether to stop,
and `stream` after; `stream` has no `stop_when`; and the response of a
`StreamResult` is accumulated over the events of all steps.
-/

namespace DotRunner
namespace Llm

open Py

/-! ## Tools -/

structure Tool where
  name : String
  /-- what it does with the arguments of a call: a result, or the text of what it raises -/
  execute : Option (Value → Except String Value)

structure ToolResult where
  toolCallId : String
  content : Value
  isError : Bool := false

def Message.toolResult (toolCallId content : String) (isError : Bool) : Message where
  role := .tool
  content := [{
    kind := .toolResult
    toolResult := some { toolCallId := toolCallId, content := .str content, isError := isError } }]
  toolCallId := some toolCallId

def hasActiveTools (tools : List Tool) : Bool := tools.any fun t => t.execute.isSome

/-- `{t.name: t for t in tools if t.execute is not None}` -/
def toolMap (tools : List Tool) : Dict String (Value → Except String Value) :=
  tools.foldl (fun d t => match t.execute with
    | some execute => d.set t.name execute
    | none => d) .empty

section Execution

variable [Runtime] (tools : List Tool)

/-- A text, an object or a list stays as it is. -/
def resultContent : Value → Value
  | .str s => .str s
  | .dict kvs => .dict kvs
  | .keyed kinds kvs => .keyed kinds kvs
  | .list vs => .list vs
  | v => .str v.toStr

def executeOne (call : ToolCall) : ToolResult :=
  match (toolMap tools).get? call.name with
  | none => ⟨call.id, .str ("Unknown tool: " ++ call.name), true⟩
  | some execute => match execute call.arguments with
    | .ok result => ⟨call.id, resultContent result, false⟩
    | .error text => ⟨call.id, .str text, true⟩

def executeTools (calls : List ToolCall) : List ToolResult := calls.map (executeOne tools)

/-- The calls that reach a tool. -/
def reached (calls : List ToolCall) : List ToolCall :=
  calls.filter fun call => (toolMap tools).contains call.name

def ToolResult.message (result : ToolResult) : Message :=
  .toolResult result.toolCallId
    (match result.content with
      | .str s => s
      | v => v.toStr)
    result.isError

end Execution

/-! ## Responses -/

/-- `tc.arguments if isinstance(tc.arguments, dict) else {}` -/
def argumentsDict : Value → Value
  | .dict kvs => .dict kvs
  | .keyed kinds kvs => .keyed kinds kvs
  | _ => .dict []

def toolCallsOf (response : Response) : List ToolCall :=
  response.toolCalls.map fun call => ⟨call.id, call.name, argumentsDict call.arguments, none⟩

/-- Does the model want tools to be run? -/
def wantsTools (response : Response) : Bool :=
  !(toolCallsOf response).isEmpty && response.finishReason.reason == "tool_calls"

def Response.reasoning (response : Response) : Option String :=
  let parts := response.message.content.filterMap fun part =>
    if part.kind = .thinking ∨ part.kind = .redactedThinking then
      (part.thinking.map ThinkingData.text).filter (· ≠ "")
    else none
  if parts = [] then none else some (String.join parts)

def addOptional : Option Int → Option Int → Option Int
  | none, none => none
  | a, b => some (a.getD 0 + b.getD 0)

def addCost : Option ℚ → Option ℚ → Option ℚ
  | some a, some b => some (a + b)
  | _, _ => none

def Usage.add (u u' : Usage) : Usage where
  inputTokens := u.inputTokens + u'.inputTokens
  outputTokens := u.outputTokens + u'.outputTokens
  totalTokens := u.totalTokens + u'.totalTokens
  reasoningTokens := addOptional u.reasoningTokens u'.reasoningTokens
  cacheReadTokens := addOptional u.cacheReadTokens u'.cacheReadTokens
  cacheWriteTokens := addOptional u.cacheWriteTokens u'.cacheWriteTokens
  costUsd := addCost u.costUsd u'.costUsd

/-! ## The model -/

/-- These events make a response that says the same as this one. -/
structure Delivers [CostTable] (events : List StreamEvent) (response : Response) : Prop where
  text : (StreamAccumulator.processAll {} events).response.text = response.text
  toolCalls : (StreamAccumulator.processAll {} events).response.toolCalls = response.toolCalls
  finishReason :
    (StreamAccumulator.processAll {} events).response.finishReason = response.finishReason
  usage : (StreamAccumulator.processAll {} events).response.usage = response.usage

/-- How a model answers a conversation, all at once and event by event. -/
structure ModelBehaviour [CostTable] where
  complete : List Message → Response
  stream : List Message → List StreamEvent
  /-- `anext` finds an event -/
  begins : ∀ conversation, stream conversation ≠ []
  delivers : ∀ conversation, Delivers (stream conversation) (complete conversation)

/-! ## `generate` -/

structure StepResult where
  text : String
  reasoning : Option String
  toolCalls : List ToolCall
  toolResults : List ToolResult
  finishReason : FinishReason
  usage : Usage
  response : Response

structure GenerateResult where
  text : String
  reasoning : Option String
  toolCalls : List ToolCall
  toolResults : List ToolResult
  finishReason : FinishReason
  usage : Usage
  totalUsage : Usage
  steps : List StepResult
  response : Response

def StepResult.of (response : Response) (toolResults : List ToolResult) : StepResult where
  text := response.text
  reasoning := response.reasoning
  toolCalls := toolCallsOf response
  toolResults := toolResults
  finishReason := response.finishReason
  usage := response.usage
  response := response

/-- The conversations sent, the calls that reached a tool, and the steps. -/
structure GenerateRun where
  sent : List (List Message) := []
  executed : List ToolCall := []
  steps : List StepResult

/-- The same, and the events that the caller sees. -/
structure StreamRun where
  sent : List (List Message) := []
  executed : List ToolCall := []
  events : List StreamEvent

section Loops

variable [Runtime] [CostTable] (b : ModelBehaviour) (tools : List Tool)

/-- The conversation after a step. -/
def continued (conversation : List Message) (response : Response) : List Message :=
  conversation ++ response.message ::
    (executeTools tools (toolCallsOf response)).map ToolResult.message

/-- Does a step run tools? -/
def runsTools (response : Response) : Bool := wantsTools response && hasActiveTools tools

def generateStep (conversation : List Message) : StepResult :=
  let response := b.complete conversation
  .of response
    (if runsTools tools response then executeTools tools (toolCallsOf response) else [])

/-- `generate._run_generate`, with so many rounds left. -/
def generateLoop (stopWhen : Option (List StepResult → Bool)) :
    Nat → List StepResult → List Message → GenerateRun
  | 0, steps, _ => { steps := steps }
  | rounds + 1, steps, conversation =>
    let response := b.complete conversation
    let steps' := steps ++ [generateStep b tools conversation]
    let executed :=
      if runsTools tools response then reached tools (toolCallsOf response) else []
    if !runsTools tools response || rounds = 0 || (stopWhen.map (· steps')).getD false then
      { sent := [conversation], executed := executed, steps := steps' }
    else
      let rest := generateLoop stopWhen rounds steps' (continued tools conversation response)
      { sent := conversation :: rest.sent
        executed := executed ++ rest.executed
        steps := rest.steps }

/-- The result of the last step; without a step `steps[-1]` raises. -/
def aggregate (steps : List StepResult) : Except PyExc GenerateResult :=
  match steps.getLast?, steps with
  | some final, first :: rest => .ok
    { text := final.text
      reasoning := final.reasoning
      toolCalls := final.toolCalls
      toolResults := final.toolResults
      finishReason := final.finishReason
      usage := final.usage
      totalUsage := rest.foldl (fun u step => u.add step.usage) first.usage
      steps := first :: rest
      response := final.response }
  | _, _ => .error (.indexError "list index out of range")

/-- `range(max_tool_rounds + 1)` -/
def roundsOf (maxToolRounds : Int) : Nat := (maxToolRounds + 1).toNat

def generateRun (maxToolRounds : Int) (stopWhen : Option (List StepResult → Bool))
    (messages : List Message) : GenerateRun :=
  generateLoop b tools stopWhen (roundsOf maxToolRounds) [] messages

/-- `generate` -/
def generate (maxToolRounds : Int) (stopWhen : Option (List StepResult → Bool))
    (messages : List Message) : Except PyExc GenerateResult :=
  aggregate (generateRun b tools maxToolRounds stopWhen messages).steps

/-! ## `stream` -/

/-- What the step has said, as its own accumulator has it. -/
def stepResponse (conversation : List Message) : Response :=
  (StreamAccumulator.processAll {} (b.stream conversation)).response

def stepFinish (response : Response) : StreamEvent :=
  { type := .other "step_finish", response := some response }

/-- `stream._stream_with_tool_loop`, with so many rounds left. -/
def streamLoop : Nat → List Message → StreamRun
  | 0, _ => { events := [] }
  | rounds + 1, conversation =>
    let response := stepResponse b conversation
    if !runsTools tools response || rounds = 0 then
      { sent := [conversation], events := b.stream conversation }
    else
      let rest := streamLoop rounds (continued tools conversation response)
      { sent := conversation :: rest.sent
        executed := reached tools (toolCallsOf response) ++ rest.executed
        events := b.stream conversation ++ stepFinish response :: rest.events }

def streamRun (maxToolRounds : Int) (messages : List Message) : StreamRun :=
  streamLoop b tools (roundsOf maxToolRounds) messages

/-- The two send the same, run the same calls, and end with the same response. -/
structure SameLoop (maxToolRounds : Int) (stopWhen : Option (List StepResult → Bool))
    (messages : List Message) : Prop where
  sent : (streamRun b tools maxToolRounds messages).sent =
    (generateRun b tools maxToolRounds stopWhen messages).sent
  executed : (streamRun b tools maxToolRounds messages).executed =
    (generateRun b tools maxToolRounds stopWhen messages).executed
  response : ∀ result, generate b tools maxToolRounds stopWhen messages = .ok result →
    Delivers (streamRun b tools maxToolRounds messages).events result.response

/-! ## What a run says -/

section Runs

variable (stopWhen : Option (List StepResult → Bool))

omit [Runtime] in
theorem toolCallsOf_stepResponse (conversation : List Message) :
    toolCallsOf (stepResponse b conversation) = toolCallsOf (b.complete conversation) := by
  rw [toolCallsOf, stepResponse, (b.delivers conversation).toolCalls]
  rfl

omit [Runtime] in
/-- Both loops see the same answer to the same conversation. -/
theorem runsTools_stepResponse (conversation : List Message) :
    runsTools tools (stepResponse b conversation) = runsTools tools (b.complete conversation) := by
  have hreason : (stepResponse b conversation).finishReason =
      (b.complete conversation).finishReason := (b.delivers conversation).finishReason
  rw [runsTools, wantsTools, toolCallsOf_stepResponse, hreason]
  rfl

theorem generateLoop_stop {conversation : List Message} (rounds : Nat) (steps : List StepResult)
    (h : runsTools tools (b.complete conversation) = false) :
    generateLoop b tools stopWhen (rounds + 1) steps conversation =
      { sent := [conversation], executed := [],
        steps := steps ++ [generateStep b tools conversation] } := by
  rw [generateLoop, h]
  rfl

theorem streamLoop_stop {conversation : List Message} (rounds : Nat)
    (h : runsTools tools (b.complete conversation) = false) :
    streamLoop b tools (rounds + 1) conversation =
      { sent := [conversation], executed := [], events := b.stream conversation } := by
  rw [streamLoop, runsTools_stepResponse, h]
  rfl

/-- In its last round `generate` still runs the tools. -/
theorem generateLoop_last {conversation : List Message} (steps : List StepResult)
    (h : runsTools tools (b.complete conversation) = true) :
    generateLoop b tools stopWhen 1 steps conversation =
      { sent := [conversation], executed := reached tools (toolCallsOf (b.complete conversation)),
        steps := steps ++ [generateStep b tools conversation] } := by
  rw [generateLoop, h]
  rfl

/-- `stream` does not. -/
theorem streamLoop_last (conversation : List Message) :
    streamLoop b tools 1 conversation =
      { sent := [conversation], executed := [], events := b.stream conversation } := by
  rw [streamLoop, decide_eq_true rfl, Bool.or_true]
  rfl

theorem streamLoop_continue {conversation : List Message} (rounds : Nat)
    (h : runsTools tools (b.complete conversation) = true) :
    streamLoop b tools (rounds + 2) conversation =
      { sent := conversation :: (streamLoop b tools (rounds + 1)
          (continued tools conversation (stepResponse b conversation))).sent
        executed := reached tools (toolCallsOf (b.complete conversation)) ++
          (streamLoop b tools (rounds + 1)
            (continued tools conversation (stepResponse b conversation))).executed
        events := b.stream conversation ++ stepFinish (stepResponse b conversation) ::
          (streamLoop b tools (rounds + 1)
            (continued tools conversation (stepResponse b conversation))).events } := by
  rw [streamLoop, runsTools_stepResponse, h, toolCallsOf_stepResponse]
  rfl

omit [Runtime] in
theorem callsOf_stream (conversation : List Message) :
    (callsOf (b.stream conversation)).map ToolCall.data = (b.complete conversation).toolCalls :=
  (StreamAccumulator.response_toolCalls _).symm.trans (b.delivers conversation).toolCalls

/-- A stream has the calls of all its steps. -/
theorem streamLoop_calls (rounds : Nat) (conversation : List Message) :
    (callsOf (streamLoop b tools rounds conversation).events).map ToolCall.data =
      (streamLoop b tools rounds conversation).sent.flatMap fun c => (b.complete c).toolCalls := by
  have hone : (callsOf (b.stream conversation)).map ToolCall.data =
      [conversation].flatMap fun c => (b.complete c).toolCalls := by
    rw [List.flatMap_singleton]
    exact callsOf_stream b conversation
  induction rounds generalizing conversation with
  | zero => rfl
  | succ rounds ih =>
    cases hruns : runsTools tools (b.complete conversation) with
    | false =>
      rw [streamLoop_stop b tools rounds hruns]
      exact hone
    | true =>
      cases rounds with
      | zero =>
        rw [streamLoop_last]
        exact hone
      | succ rounds =>
        have hrest := ih (continued tools conversation (stepResponse b conversation))
          (by rw [List.flatMap_singleton]; exact callsOf_stream b _)
        rw [streamLoop_continue b tools rounds hruns, List.flatMap_cons, ← hrest, callsOf_append,
          callsOf_cons, List.map_append, callsOf_stream]
        rfl

/-- `generate` ends with the answer to the last conversation it sent. -/
theorem generateLoop_final (rounds : Nat) (steps : List StepResult) (conversation : List Message) :
    ∃ c step, (generateLoop b tools stopWhen (rounds + 1) steps conversation).sent.getLast? =
        some c ∧
      (generateLoop b tools stopWhen (rounds + 1) steps conversation).steps.getLast? = some step ∧
        step.response = b.complete c := by
  induction rounds generalizing steps conversation with
  | zero =>
    refine ⟨conversation, generateStep b tools conversation, ?_, ?_, rfl⟩
    · rw [generateLoop, decide_eq_true rfl, Bool.or_true, Bool.true_or]
      rfl
    · rw [generateLoop, decide_eq_true rfl, Bool.or_true, Bool.true_or]
      exact List.getLast?_concat
  | succ rounds ih =>
    rw [generateLoop]
    by_cases hstop : (!runsTools tools (b.complete conversation) || decide (rounds + 1 = 0) ||
        (stopWhen.map (· (steps ++ [generateStep b tools conversation]))).getD false) = true
    · rw [if_pos hstop]
      exact ⟨conversation, generateStep b tools conversation, rfl, List.getLast?_concat, rfl⟩
    · rw [if_neg hstop]
      obtain ⟨c, step, hsent, hsteps, hresponse⟩ :=
        ih (steps ++ [generateStep b tools conversation])
          (continued tools conversation (b.complete conversation))
      refine ⟨c, step, ?_, hsteps, hresponse⟩
      rw [List.getLast?_cons, hsent]
      rfl

theorem sent_cons (rounds : Nat) (conversation : List Message) :
    ∃ rest, (streamLoop b tools (rounds + 1) conversation).sent = conversation :: rest := by
  rw [streamLoop]
  split <;> exact ⟨_, rfl⟩

end Runs

omit [Runtime] [CostTable] in
theorem aggregate_nil :
    aggregate [] = .error (.indexError "list index out of range") := rfl

omit [Runtime] [CostTable] in
theorem aggregate_response {steps : List StepResult} {final : StepResult}
    (h : steps.getLast? = some final) :
    ∃ result, aggregate steps = .ok result ∧ result.response = final.response := by
  cases steps with
  | nil => cases h
  | cons first rest =>
    unfold aggregate
    rw [h]
    exact ⟨_, rfl, rfl⟩

/-! ## One loop? -/

section Agreement

variable (maxToolRounds : Int) (stopWhen : Option (List StepResult → Bool))
variable (messages : List Message)

/-- No tool gets to run: there is no round, the first answer wants none, or it is
the last and wants tools that are not there. -/
def NothingRuns : Prop :=
  maxToolRounds < 0 ∨ runsTools tools (b.complete messages) = false ∨
    maxToolRounds = 0 ∧ reached tools (toolCallsOf (b.complete messages)) = []

/-- One step each, in which no tool runs. -/
theorem sameLoop_of_once {rounds : Nat} (hrounds : roundsOf maxToolRounds = rounds + 1)
    (hgenerate : generateLoop b tools stopWhen (rounds + 1) [] messages =
      { sent := [messages], executed := [], steps := [generateStep b tools messages] })
    (hstream : streamLoop b tools (rounds + 1) messages =
      { sent := [messages], executed := [], events := b.stream messages }) :
    SameLoop b tools maxToolRounds stopWhen messages := by
  have hrun : generateRun b tools maxToolRounds stopWhen messages = _ :=
    (congrArg (generateLoop b tools stopWhen · [] messages) hrounds).trans hgenerate
  have hevents : streamRun b tools maxToolRounds messages = _ :=
    (congrArg (streamLoop b tools · messages) hrounds).trans hstream
  refine ⟨?_, ?_, fun result hresult => ?_⟩
  · rw [hrun, hevents]
  · rw [hrun, hevents]
  · rw [generate, hrun] at hresult
    rw [hevents, ← Except.ok.inj hresult]
    exact b.delivers messages

theorem sameLoop_of_nothingRuns (h : NothingRuns b tools maxToolRounds messages) :
    SameLoop b tools maxToolRounds stopWhen messages := by
  cases hrounds : roundsOf maxToolRounds with
  | zero =>
    refine ⟨?_, ?_, fun result hresult => ?_⟩
    · rw [streamRun, generateRun, hrounds]
      rfl
    · rw [streamRun, generateRun, hrounds]
      rfl
    · rw [generate, generateRun, hrounds, generateLoop, aggregate_nil] at hresult
      cases hresult
  | succ rounds =>
    cases hruns : runsTools tools (b.complete messages) with
    | false =>
      exact sameLoop_of_once b tools maxToolRounds stopWhen messages hrounds
        (generateLoop_stop b tools stopWhen rounds [] hruns) (streamLoop_stop b tools rounds hruns)
    | true =>
      rw [NothingRuns, hruns] at h
      rcases h with hnegative | hnot | ⟨hzero, hreached⟩
      · rw [roundsOf] at hrounds
        omega
      · cases hnot
      · have hone : rounds = 0 := by
          rw [roundsOf] at hrounds
          omega
        subst hone
        have hgenerate := generateLoop_last b tools stopWhen [] hruns
        rw [hreached] at hgenerate
        exact sameLoop_of_once b tools maxToolRounds stopWhen messages hrounds hgenerate
          (streamLoop_last b tools messages)

/-- After a second round the stream's response has the calls of the first as well. -/
theorem not_sameLoop_of_continue {rounds : Nat} (hrounds : roundsOf maxToolRounds = rounds + 2)
    (hruns : runsTools tools (b.complete messages) = true) :
    ¬SameLoop b tools maxToolRounds stopWhen messages := by
  intro hsame
  obtain ⟨c, step, hlast, hstep, hresponse⟩ := generateLoop_final b tools stopWhen
    (rounds + 1) [] messages
  obtain ⟨result, hresult, hfinal⟩ := aggregate_response hstep
  have hdelivers := hsame.response result (by rw [generate, generateRun, hrounds]; exact hresult)
  have hsent := hsame.sent
  rw [streamRun, generateRun, hrounds] at hsent
  rw [streamRun, hrounds, hfinal, hresponse] at hdelivers
  rw [← hsent] at hlast
  have hcalls := (StreamAccumulator.response_toolCalls _).symm.trans hdelivers.toolCalls
  rw [streamLoop_calls] at hcalls
  obtain ⟨rest, hrest⟩ := sent_cons b tools rounds
    (continued tools messages (stepResponse b messages))
  rw [streamLoop_continue b tools rounds hruns] at hcalls hlast
  rw [hrest] at hcalls hlast
  have hmem : c ∈ continued tools messages (stepResponse b messages) :: rest := by
    rw [List.getLast?_cons_cons] at hlast
    exact List.mem_of_getLast? hlast
  have hsub := List.sublist_flatten_of_mem (List.mem_map_of_mem (f := fun c =>
    (b.complete c).toolCalls) hmem)
  have hwants : 0 < (b.complete messages).toolCalls.length := by
    have hnonempty : (toolCallsOf (b.complete messages)).isEmpty = false := by
      rw [runsTools, wantsTools] at hruns
      simp only [Bool.and_eq_true, Bool.not_eq_true'] at hruns
      exact hruns.1.1
    rw [toolCallsOf, List.isEmpty_map] at hnonempty
    exact List.length_pos_iff.mpr (List.isEmpty_eq_false_iff.mp hnonempty)
  have hlength := congrArg List.length hcalls
  rw [List.flatMap_cons, List.length_append] at hlength
  have hle := hsub.length_le
  rw [← List.flatMap_def] at hle
  omega

/-- The two run the same loop only where no tool runs. -/
theorem sameLoop_iff :
    SameLoop b tools maxToolRounds stopWhen messages ↔
      NothingRuns b tools maxToolRounds messages := by
  refine ⟨fun hsame => ?_, sameLoop_of_nothingRuns b tools maxToolRounds stopWhen messages⟩
  cases hruns : runsTools tools (b.complete messages) with
  | false => exact .inr (.inl hruns)
  | true =>
    rcases hrounds : roundsOf maxToolRounds with _ | _ | rounds
    · rw [roundsOf] at hrounds
      exact .inl (by omega)
    · have hexecuted := hsame.executed
      rw [streamRun, generateRun, hrounds, generateLoop_last b tools stopWhen [] hruns, streamLoop_last] at hexecuted
      rw [roundsOf] at hrounds
      exact .inr (.inr ⟨by omega, hexecuted.symm⟩)
    · exact absurd hsame (not_sameLoop_of_continue b tools maxToolRounds stopWhen messages hrounds
        hruns)

end Agreement

end Loops

section Demo

open Py.Ascii Unpriced

def askTime : ToolCall := ⟨"call", "time", .dict [], none⟩

/-- Asks for the time, and tells it once there is an answer. -/
def timekeeper : ModelBehaviour where
  complete conversation := match conversation with
    | [_] => ⟨"r1", "m", "p", ⟨.assistant, [.ofToolCall askTime.data], none, none⟩,
        ⟨"tool_calls", none⟩, .zero⟩
    | _ => ⟨"r2", "m", "p", ⟨.assistant, [.ofText "Noon"], none, none⟩, ⟨"stop", none⟩, .zero⟩
  stream conversation := match conversation with
    | [_] => [.toolCallEndOf askTime, .finishOf "r1" "m" "p" ⟨"tool_calls", none⟩ .zero]
    | _ => [.textDeltaOf "Noon", .finishOf "r2" "m" "p" ⟨"stop", none⟩ .zero]
  begins conversation := by
    split <;> exact List.cons_ne_nil _ _
  delivers conversation := by
    split
    · exact ⟨rfl, rfl, rfl, rfl⟩
    · exact ⟨by decide, rfl, rfl, rfl⟩

def clock : Tool := ⟨"time", some fun _ => .ok (.str "12:00")⟩

/-- After one round of tools the stream's response still has the call, and
`generate`'s has not. -/
theorem stream_keeps_call :
    ¬SameLoop timekeeper [clock] 1 none [⟨.user, [.ofText "What time is it?"], none, none⟩] := by
  intro h
  have hcalls := (h.response _ rfl).toolCalls
  exact absurd (congrArg List.length hcalls) (by decide)

end Demo

end Llm
end DotRunner
