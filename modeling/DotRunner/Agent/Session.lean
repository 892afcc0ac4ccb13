import DotRunner.Agent.Turns
import DotRunner.Behaviour

/-!
# The session

One `AgentSession`, moving in steps.  A step is a call of the host, a message put
in a queue, a change of the cancellation token, an answer of the provider or of
the tools, an exception that comes out of some other `await`, or the session going on
by itself.  `Location` says where in `process_input` the session stands; the calls
of `process_input` that wait for a follow-up to be processed are counted by
`followUpDepth`, as in the source.
-/

namespace DotRunner
namespace Agent

open Py

/-- `hashlib.md5(json.dumps(arguments, sort_keys=True).encode()).hexdigest()[:8]` -/
class Signatures where
  argsHash : Value → String

namespace Unsigned

/-- Every call of a tool has one signature. -/
scoped instance : Signatures := ⟨fun _ => ""⟩

end Unsigned

/-! ## The state machine -/

inductive SessionState where
  | idle
  | processing
  | awaitingInput
  | closed
deriving DecidableEq

inductive Trigger where
  | submit
  | complete
  | awaitInput
  | resumeInput
  | fatalError
  | abort
  | close
deriving DecidableEq

def transitions : SessionState → Trigger → Option SessionState
  | .idle, .submit => some .processing
  | .idle, .close => some .closed
  | .idle, .abort => some .closed
  | .processing, .complete => some .idle
  | .processing, .awaitInput => some .awaitingInput
  | .processing, .fatalError => some .closed
  | .processing, .abort => some .closed
  | .awaitingInput, .resumeInput => some .processing
  | .awaitingInput, .abort => some .closed
  | _, _ => none

/-! ## Loop detection -/

structure LoopDetector where
  windowSize : Nat
  /-- at most `windowSize` of them, the newest last -/
  signatures : List String := []

namespace LoopDetector

def record [Signatures] (d : LoopDetector) (call : ToolCall) : LoopDetector :=
  let signatures := d.signatures ++ [call.name ++ ":" ++ Signatures.argsHash call.arguments]
  { d with signatures := signatures.drop (signatures.length - d.windowSize) }

/-- Every stretch of `n` signatures is the first one. -/
def repeats (n : Nat) (pattern : List String) : Nat → List String → Bool
  | 0, _ => true
  | fuel + 1, recent =>
    recent.isEmpty || (recent.take n == pattern && repeats n pattern fuel (recent.drop n))

def check (d : LoopDetector) : Option String :=
  if d.signatures.length < d.windowSize then none
  else if [1, 2, 3].any fun n =>
      d.windowSize % n == 0 && repeats n (d.signatures.take n) d.windowSize d.signatures
  then some ("Loop detected: the last " ++ toString d.windowSize ++
    " tool calls follow a repeating pattern. Try a different approach.")
  else none

end LoopDetector

/-! ## The session's data -/

structure SessionConfig where
  systemPrompt : String
  maxTurns : Int := 0
  maxToolRoundsPerInput : Int := 0
  enableLoopDetection : Bool := true
  loopDetectionWindow : Nat := 10
  supportsParallelToolCalls : Bool := true
  toolResultRetentionTurns : Int := 20

inductive TerminationReason where
  | natural
  | cancelled
  | maxTurns
  | contextLimit
  | awaitingInput
  | toolRoundLimit
deriving DecidableEq

inductive Raised where
  | invalidTransition (trigger : Trigger) (state : SessionState)
  | llmError (retryable : Bool)
  /-- `asyncio.CancelledError` -/
  | cancelledError
  | exception
deriving DecidableEq

/-- The events that say how an invocation goes. -/
inductive Event where
  | sessionStart
  | userInput (content : String)
  | steeringInjected (content : String)
  | totalTurnLimit (totalTurns : Nat)
  | roundLimit (roundCount : Nat)
  | contextLengthExceeded
  | error
  | awaitingInput (text : String)
  | loopDetection (warning : String)
  | sessionEnd (state : SessionState)
deriving DecidableEq

inductive Outcome where
  | returned (text : String)
  | raised (e : Raised)
deriving DecidableEq

/-- The variables of the loop of one `process_input`. -/
structure LoopVars where
  roundCount : Nat
  lastText : String

inductive Location where
  /-- no invocation is under way; how the last one ended -/
  | resting (last : Option Outcome)
  /-- before the test of the `while` loop -/
  | looping (vars : LoopVars)
  /-- the provider has been asked -/
  | calling (vars : LoopVars) (messages : List Message)
  /-- the batch is under way -/
  | executing (vars : LoopVars) (calls : List ToolCall)
  /-- in `_process_follow_ups`, before the queue is drained -/
  | followingUp (result : String)

structure Cancellation where
  isCancelled : Bool := false
  isImmediate : Bool := false

structure Session where
  config : SessionConfig
  state : SessionState := .idle
  history : List Turn := []
  sessionStarted : Bool := false
  contextHydrated : Bool := false
  steeringQueue : List String := []
  followUpQueue : List String := []
  cancellation : Cancellation := {}
  loopDetector : LoopDetector
  followUpDepth : Nat := 0
  providerCallCount : Nat := 0
  cooperativeCancelCount : Nat := 0
  terminationReason : TerminationReason := .natural
  location : Location := .resting none
  emitted : List Event := []

/-- A message of the mounted context. -/
inductive SeededMessage where
  | system (content : String)
  | user (content : String)
  | assistant (content : String)
  /-- another role, or no message at all -/
  | other

structure CallResult where
  text : String
  reasoning : Option String := none
  reasoningSignature : Option String := none
  toolCalls : List ToolCall := []

inductive ProviderAnswer where
  | response (r : CallResult)
  | contextLengthError
  /-- another `LLMError` -/
  | llmError (retryable : Bool)
  | exception
  | cancelledError

inductive ToolsAnswer where
  /-- what the call at each position gives -/
  | finished (result : Nat → ToolResult)
  | exception
  | cancelledError

inductive Action where
  | processInput (prompt : String) (seeded : List SeededMessage)
  | resumeWithInput (answer : String) (seeded : List SeededMessage)
  | shutdown
  | steer (message : String)
  | followUp (message : String)
  | setCancellation (c : Cancellation)
  /-- the session goes on; the text of its system prompt, should it need it -/
  | proceed (systemText : String)
  | provider (answer : ProviderAnswer)
  | tools (answer : ToolsAnswer)
  /-- what an `await` of neither the provider nor the tools raises: `CancelledError`, or another -/
  | fault (cancelled : Bool)

/-! ## The steps -/

def SeededMessage.turn? : SeededMessage → Option Turn
  | .user content => some (.user content)
  | .assistant content => some (.assistant { content := content })
  | .system _ | .other => none

/-- `_looks_like_question` -/
def looksLikeQuestion (text : String) : Bool :=
  let lines := (Text.split ['\n'] (Text.rstrip text.toList)).map Text.strip
  match lines.reverse.find? fun l => !l.isEmpty && !Text.startsWith l "```".toList with
  | some line => line.getLast? == some '?'
  | none => false

namespace Session

def emit (s : Session) (e : Event) : Session := { s with emitted := s.emitted ++ [e] }

def addTurn (s : Session) (turn : Turn) : Session := { s with history := s.history ++ [turn] }

def goTo (s : Session) (l : Location) : Session := { s with location := l }

/-- The exception leaves every `process_input` under way, each of them counting down. -/
def raise (s : Session) (e : Raised) : Session :=
  { s with followUpDepth := 0, location := .resting (some (.raised e)) }

/-- `self._state_machine.<trigger>()`, and what follows it -/
def fire (s : Session) (trigger : Trigger) (next : Session → Session) : Session :=
  match transitions s.state trigger with
  | some state => next { s with state := state }
  | none => s.raise (.invalidTransition trigger s.state)

def hydrateHistoryFromContext (s : Session) (seeded : List SeededMessage) : Session :=
  if s.contextHydrated then s
  else { s with
    contextHydrated := true
    history := s.history ++ seeded.filterMap SeededMessage.turn? }

def drainSteering (s : Session) : Session :=
  { s with
    steeringQueue := []
    history := s.history ++ s.steeringQueue.map .steering
    emitted := s.emitted ++ s.steeringQueue.map .steeringInjected }

def start (s : Session) : Session :=
  if s.sessionStarted then s else { s with sessionStarted := true }.emit .sessionStart

/-- What `process_input` does before it submits. -/
def opened (s : Session) (seeded : List SeededMessage) : Session :=
  { s.hydrateHistoryFromContext seeded with terminationReason := .natural }.start

/-- `process_input`, up to its loop -/
def processInput (s : Session) (seeded : List SeededMessage) (prompt : String) : Session :=
  (s.opened seeded).fire .submit fun s =>
    ((s.addTurn (.user prompt)).emit (.userInput prompt)).drainSteering.goTo (.looping ⟨0, ""⟩)

/-- The call that stands lowest gives its text back: to the host, or to the call waiting for it. -/
def returnText (s : Session) (text : String) : Session :=
  { s with location :=
      if s.followUpDepth = 0 then .resting (some (.returned text)) else .followingUp text }

def processFollowUps (s : Session) (lastResult : String) : Session :=
  { s with followUpDepth := s.followUpDepth + 1, location := .followingUp lastResult }

/-- One round of the loop of `_process_follow_ups`, or what comes after it. -/
def drainFollowUp (s : Session) (result : String) : Session :=
  match s.followUpQueue with
  | msg :: rest => { s with followUpQueue := rest }.processInput [] msg
  | [] =>
    let s := { s with followUpDepth := s.followUpDepth - 1 }
    (if s.followUpDepth = 0 then s.emit (.sessionEnd s.state) else s).returnText result

def cancelInvocation (s : Session) (vars : LoopVars) : Session :=
  { s with
    terminationReason := .cancelled
    cooperativeCancelCount := s.cooperativeCancelCount + 1 }.fire .complete fun s =>
      (s.emit (.sessionEnd s.state)).processFollowUps vars.lastText

/-- What stands after the loop. -/
def afterLoop (s : Session) (vars : LoopVars) : Session :=
  ({ s with terminationReason := .toolRoundLimit }.emit (.roundLimit vars.roundCount)).fire .complete
    fun s => s.processFollowUps vars.lastText

/-- The messages for a request, with the retention window given. -/
def messagesKeeping (s : Session) (retention : Int) (systemText : String) : List Message :=
  { role := .system, content := .text systemText } ::
    (convertHistoryToMessages s.history retention).filter (·.role ≠ .system)

/-- `_convert_history_to_messages` -/
def messages (s : Session) (systemText : String) : List Message :=
  s.messagesKeeping s.config.toolResultRetentionTurns systemText

/-- An empty system prompt is refused when the messages are built. -/
def request (s : Session) (vars : LoopVars) (systemText : String) : Session :=
  if s.config.systemPrompt = "" then s.raise .exception
  else { s with
    providerCallCount := s.providerCallCount + 1
    location := .calling vars (s.messages systemText) }

def roundsLeft (s : Session) (vars : LoopVars) : Prop :=
  s.config.maxToolRoundsPerInput ≤ 0 ∨ (vars.roundCount : Int) < s.config.maxToolRoundsPerInput

def turnLimitReached (s : Session) : Prop :=
  s.config.maxTurns > 0 ∧ (s.history.length : Int) ≥ s.config.maxTurns

instance (s : Session) (vars : LoopVars) : Decidable (s.roundsLeft vars) :=
  inferInstanceAs (Decidable (_ ∨ _))

instance (s : Session) : Decidable s.turnLimitReached := inferInstanceAs (Decidable (_ ∧ _))

/-- One round of the loop of `process_input`, up to the request. -/
def loopRound (s : Session) (vars : LoopVars) (systemText : String) : Session :=
  if s.roundsLeft vars then
    if s.cancellation.isCancelled then s.cancelInvocation vars
    else if s.turnLimitReached then
      -- `break`, which leads into the code for the round limit
      ({ s with terminationReason := .maxTurns }.emit (.totalTurnLimit s.history.length)).afterLoop vars
    else s.request vars systemText
  else s.afterLoop vars

/-- An error that closes the session. -/
def fail (s : Session) (e : Raised) : Session :=
  (s.emit .error).fire .fatalError fun s => (s.emit (.sessionEnd s.state)).raise e

/-- The answer is recorded; without calls it ends the loop. -/
def respond (s : Session) (vars : LoopVars) (r : CallResult) : Session :=
  let s := s.addTurn (.assistant ⟨r.text, r.toolCalls, r.reasoning, r.reasoningSignature⟩)
  if r.toolCalls.isEmpty then
    if looksLikeQuestion r.text then
      { s with terminationReason := .awaitingInput }.fire .awaitInput fun s =>
        (s.emit (.awaitingInput r.text)).returnText r.text
    else s.fire .complete fun s => s.processFollowUps r.text
  else { s with location :=
      .executing (if r.text = "" then vars else { vars with lastText := r.text }) r.toolCalls }

def providerAnswered (s : Session) (vars : LoopVars) : ProviderAnswer → Session
  | .contextLengthError =>
    (({ s with terminationReason := .contextLimit }.emit .error).emit .contextLengthExceeded).fire
      .complete fun s => s.processFollowUps vars.lastText
  | .llmError retryable =>
    if retryable then (s.emit .error).raise (.llmError true) else s.fail (.llmError false)
  | .exception => s.fail .exception
  | .cancelledError => s.raise .cancelledError
  | .response r => if s.cancellation.isImmediate then s.cancelInvocation vars else s.respond vars r

/-- `_execute_tool_calls`: only the batch that runs in parallel answers for a cancellation. -/
def executeToolCalls (parallel : Bool) (calls : List ToolCall) :
    ToolsAnswer → Except Raised (List ToolResult)
  | .finished result => .ok (calls.mapIdx fun i _ => result i)
  | .exception => .error .exception
  | .cancelledError =>
    if parallel ∧ calls.length > 1 then
      .ok (calls.map fun _ => ⟨false, "Tool execution was cancelled by user"⟩)
    else .error .cancelledError

def recordCalls [Signatures] (s : Session) (calls : List ToolCall) : Session :=
  if s.config.enableLoopDetection then
    { s with loopDetector := calls.foldl LoopDetector.record s.loopDetector }
  else s

def checkLoopDetection (s : Session) : Session :=
  if s.config.enableLoopDetection then
    match s.loopDetector.check with
    | some warning =>
      { (s.addTurn (.steering warning)).emit (.loopDetection warning) with
        loopDetector := { s.loopDetector with signatures := [] } }
    | none => s
  else s

def toolsAnswered [Signatures] (s : Session) (vars : LoopVars) (calls : List ToolCall)
    (answer : ToolsAnswer) : Session :=
  match executeToolCalls s.config.supportsParallelToolCalls calls answer with
  | .error e => s.raise e
  | .ok results =>
    (((s.addTurn (.toolResults results)).recordCalls calls).drainSteering).checkLoopDetection.goTo
      (.looping { vars with roundCount := vars.roundCount + 1 })

def resumeWithInput (s : Session) (seeded : List SeededMessage) (answer : String) : Session :=
  s.fire .resumeInput fun s => s.fire .complete fun s => s.processInput seeded answer

/-- `shutdown`, between two invocations -/
def shutdown (s : Session) : Session :=
  match s.state with
  | .closed => s
  | .processing => s.fire .fatalError fun s => s.emit (.sessionEnd s.state)
  | .awaitingInput => s.fire .abort fun s => s.emit (.sessionEnd s.state)
  | .idle => s.fire .close fun s => s.emit (.sessionEnd s.state)

/-- `none`: the action is not possible where the session stands. -/
def step [Signatures] (s : Session) (a : Action) : Option Session :=
  match a, s.location with
  | .steer message, _ => some { s with steeringQueue := s.steeringQueue ++ [message] }
  | .followUp message, _ => some { s with followUpQueue := s.followUpQueue ++ [message] }
  | .setCancellation c, _ => some { s with cancellation := c }
  | .processInput prompt seeded, .resting _ => some (s.processInput seeded prompt)
  | .resumeWithInput answer seeded, .resting _ => some (s.resumeWithInput seeded answer)
  | .shutdown, .resting _ => some s.shutdown
  | .proceed systemText, .looping vars => some (s.loopRound vars systemText)
  | .proceed _, .followingUp result => some (s.drainFollowUp result)
  | .provider answer, .calling vars _ => some (s.providerAnswered vars answer)
  | .tools answer, .executing vars calls => some (s.toolsAnswered vars calls answer)
  | .fault _, .resting _ => none
  | .fault cancelled, _ => some (s.raise (if cancelled then .cancelledError else .exception))
  | _, _ => none

/-- A session as it is made. -/
def new (config : SessionConfig) : Session where
  config := config
  loopDetector := { windowSize := config.loopDetectionWindow }

def Step [Signatures] (s : Session) (a : Action) (s' : Session) : Prop := s.step a = some s'

end Session

/-- A session, and all it has done since it was made. -/
structure Life [Signatures] (config : SessionConfig) where
  steps : List (Behaviour.Transition Session Action)
  session : Session
  run : Behaviour.Run Session.Step (.new config) steps session

/-- The life that takes the given actions. -/
def Life.play [Signatures] (config : SessionConfig) (actions : List Action)
    (h : (Behaviour.play Session.step (.new config) actions).isSome) : Life config where
  steps := ((Behaviour.play Session.step (.new config) actions).get h).1
  session := ((Behaviour.play Session.step (.new config) actions).get h).2
  run := Behaviour.run_of_play (Option.some_get h).symm

end Agent
end DotRunner
