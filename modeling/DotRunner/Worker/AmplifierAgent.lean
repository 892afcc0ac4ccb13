import DotRunner.Behaviour

/-!
# The worker on the agent library

`AmplifierAgentOrchestrator.execute`: an agent, a session and a turn are made, the
events of the turn are read in a task of their own, and whatever becomes of it one
shielded task cleans up and announces the completion.  The caller may be cancelled
wherever it waits; each operation of the library may succeed or raise, and where
nothing bounds it may never settle.
-/

namespace DotRunner
namespace AmplifierAgent

open Behaviour

inductive Status where
  | success
  | incomplete
  | cancelled
deriving DecidableEq

/-- `result.state` -/
inductive TerminalState where
  | success
  | cancelled
  | other
deriving DecidableEq

inductive Handle where
  | session
  | agent
deriving DecidableEq

/-- What can be seen of an execution. -/
inductive Event where
  | cancelRequested
  | turnStarted
  | terminal (state : TerminalState)
  | turnCancel
  | close (h : Handle)
  | closeFailed (h : Handle)
  | dispatched (status : Status)
  | returned
  | raised
deriving DecidableEq

/-- How an awaited operation of the library ends.  An exception that is neither an
`Exception` nor a `CancelledError` ends the event loop. -/
inductive Result where
  | done
  | raised
  | cancelled
  /-- it succeeded, and what is then done with its value raised -/
  | spoiled

/-- How an operation under `_bounded` ends. -/
inductive Settling where
  | done
  | raised
  | cancelled
  | timedOut

def Settling.failed : Settling → Bool
  | done => false
  | _ => true

/-- The task that reads the stream. -/
inductive Consumer where
  | absent
  | running
  | finished (state : TerminalState)
  | failed
  | cancelled
deriving DecidableEq

/-- Where the caller waits. -/
inductive Caller where
  /-- for the history, before and after which the configuration is read -/
  | preparing
  | creatingAgent
  | creatingSession
  | startingTurn
  /-- for the shielded consumer -/
  | streaming
  /-- for the shielded finaliser -/
  | finalising
  | ended
deriving DecidableEq

/-- Where the finaliser is.  `cancel_and_drain` runs at its beginning or, `again`, when
the completion has been handed back. -/
inductive Finaliser where
  | absent
  | scheduled
  | cancelling (again : Bool)
  | draining (again : Bool)
  | closing (h : Handle)
  /-- the delivery has been scheduled -/
  | publishing
  /-- the delivery has handed back before dispatch -/
  | deferred
  | dispatching
  | done
deriving DecidableEq

inductive Primary where
  | error
  | cancelled
deriving DecidableEq

structure State where
  caller : Caller := .preparing
  finaliser : Finaliser := .absent
  agent : Bool := false
  session : Bool := false
  turn : Bool := false
  consumer : Consumer := .absent
  status : Status := .incomplete
  primary : Option Primary := none
  /-- `caller.cancelling() - initial_cancels` -/
  requested : Nat := 0
  /-- a cancellation the caller has not been given yet -/
  pending : Bool := false
  /-- `committed_status` -/
  committed : Option Status := none
  /-- `cancellation_drained` -/
  drained : Bool := false
  cleanupErrors : Nat := 0
  log : List Event := []

namespace State

def note (s : State) (e : Event) : State := { s with log := s.log ++ [e] }

/-! ## Into finalisation -/

/-- The `finally` clause: its task is made, and waited for. -/
def finally_ (s : State) : State := { s with caller := .finalising, finaliser := .scheduled }

/-- `except BaseException` -/
def fail (s : State) : State := { s with primary := some .error }.finally_

/-- `except asyncio.CancelledError` -/
def cancel (s : State) : State :=
  { s with primary := some .cancelled, status := .cancelled }.finally_

/-- An operation the caller awaits has ended; a cancellation that was pending has been
thrown into it. -/
def resume (s : State) (r : Result) (keep goOn : State → State) : State :=
  let s := { s with pending := false }
  match r with
  | .done => goOn (keep s)
  | .raised => s.fail
  | .cancelled => s.cancel
  | .spoiled => (keep s).fail

/-- What the caller makes of the consumer's end; `joined` where the reply could be put
together. -/
def read (s : State) (joined : Bool) : State :=
  match s.consumer with
  | .finished .success => if joined then { s with status := .success }.finally_ else s.fail
  | .finished .cancelled => { s with status := .cancelled }.fail
  | .cancelled => s.cancel
  | _ => s.fail

/-! ## Finalisation -/

/-- `cleanup_failure`, where the operation has failed. -/
def cleanup (s : State) (r : Settling) : State :=
  if r.failed then { s with cleanupErrors := s.cleanupErrors + 1 } else s

/-- In front of the delivery. -/
def beforeDelivery (s : State) : State :=
  if 0 < s.cleanupErrors ∧ s.primary = none ∧ s.status ≠ .cancelled then
    { s with status := .incomplete, finaliser := .publishing }
  else { s with finaliser := .publishing }

def closeAgent (s : State) : State :=
  if s.agent then { s with finaliser := .closing .agent }.note (.close .agent) else s.beforeDelivery

def closeSession (s : State) : State :=
  if s.session then { s with finaliser := .closing .session }.note (.close .session)
  else s.closeAgent

/-- A close has settled. -/
def closeSettled (s : State) (h : Handle) (r : Settling) : State :=
  if r.failed then (s.cleanup r).note (.closeFailed h) else s

def afterClose (s : State) : Handle → State
  | .session => s.closeAgent
  | .agent => s.beforeDelivery

/-- What follows `cancel_and_drain`. -/
def afterDrain (s : State) (again : Bool) : State :=
  if again then { s with finaliser := .publishing } else s.closeSession

def cancelAndDrain (s : State) (again : Bool) : State :=
  if s.drained = false ∧ s.turn = true then
    { s with drained := true, finaliser := .cancelling again }.note .turnCancel
  else s.afterDrain again

/-- `finalize` begins. -/
def finalize (s : State) : State :=
  if s.status = .cancelled then s.cancelAndDrain false else s.closeSession

/-- How the stream stands when it is waited for no longer. -/
def drainResult (s : State) : Settling :=
  match s.consumer with
  | .finished _ => .done
  | .failed => .raised
  | .cancelled => .cancelled
  | _ => .timedOut

def observePendingCancellation (s : State) : State :=
  if 0 < s.requested then
    { s with status := .cancelled, primary := s.primary.or (some .cancelled) }
  else s

/-- `publish_completion`, to its entry into `hooks.emit`. -/
def publishCompletion (s : State) : State :=
  let s := s.observePendingCancellation
  if s.status = .cancelled ∧ s.turn = true ∧ s.drained = false then
    { s with finaliser := .deferred }
  else
    { s with finaliser := .dispatching, committed := some s.status }.note (.dispatched s.status)

/-- A cancellation reaches the caller while it waits for the finaliser. -/
def interrupt (s : State) : State :=
  { s with
    pending := false
    status := if s.committed = none then .cancelled else s.status
    primary := s.primary.or (some .cancelled) }

/-- The finaliser is done, and the caller ends. -/
def finish (s : State) : State :=
  { s with caller := .ended }.note
    (if s.primary = none ∧ s.cleanupErrors = 0 then .returned else .raised)

end State

/-! ## Steps -/

inductive Action where
  /-- somebody cancels the caller -/
  | cancel
  | prepared (r : Result)
  | agentCreated (r : Result)
  | sessionCreated (r : Result)
  | turnStarted (r : Result)
  /-- the stream ends, or breaks, or its task is cancelled -/
  | streamEnds (consumer : Consumer)
  | read (joined : Bool)
  /-- a cancellation reaches the caller in front of a shield -/
  | interrupted
  | finalizeBegins
  | cancelSettles (r : Settling)
  | drainSettles
  | closeSettles (r : Settling)
  | publish
  | deferredResumes
  | deliverySettles (r : Settling)
  | finalizeDone

open State in
/-- One step, where it is possible. -/
def next (s : State) : Action → Option State
  | .cancel =>
    if s.caller = .ended then none
    else some ({ s with requested := s.requested + 1, pending := true }.note .cancelRequested)
  | .prepared r =>
    if s.caller = .preparing then
      some (s.resume r id fun s => { s with caller := .creatingAgent })
    else none
  | .agentCreated r =>
    if s.caller = .creatingAgent then
      some (s.resume r (fun s => { s with agent := true })
        fun s => { s with caller := .creatingSession })
    else none
  | .sessionCreated r =>
    if s.caller = .creatingSession then
      some (s.resume r (fun s => { s with session := true })
        fun s => { s with caller := .startingTurn })
    else none
  | .turnStarted r =>
    if s.caller = .startingTurn then
      some (s.resume r (fun s => { s with turn := true }.note .turnStarted)
        fun s => { s with caller := .streaming, consumer := .running })
    else none
  | .streamEnds consumer =>
    if s.consumer = .running then match consumer with
      | .finished state => some ({ s with consumer := .finished state }.note (.terminal state))
      | .failed => some { s with consumer := .failed }
      | .cancelled => some { s with consumer := .cancelled }
      | _ => none
    else none
  | .read joined =>
    if s.caller = .streaming ∧ s.consumer ≠ .running ∧ s.pending = false then some (s.read joined)
    else none
  | .interrupted =>
    if s.pending = false then none
    else if s.caller = .streaming then some { s with pending := false }.cancel
    else if s.caller = .finalising then some s.interrupt
    else none
  | .finalizeBegins => if s.finaliser = .scheduled then some s.finalize else none
  | .cancelSettles r => match s.finaliser with
    | .cancelling again =>
      if s.consumer = .absent then some ((s.cleanup r).afterDrain again)
      else some { s.cleanup r with finaliser := .draining again }
    | _ => none
  | .drainSettles => match s.finaliser with
    | .draining again => some ((s.cleanup s.drainResult).afterDrain again)
    | _ => none
  | .closeSettles r => match s.finaliser with
    | .closing h => some ((s.closeSettled h r).afterClose h)
    | _ => none
  | .publish => if s.finaliser = .publishing then some s.publishCompletion else none
  | .deferredResumes => if s.finaliser = .deferred then some (s.cancelAndDrain true) else none
  | .deliverySettles r =>
    if s.finaliser = .dispatching then some { s.cleanup r with finaliser := .done } else none
  | .finalizeDone =>
    if s.finaliser = .done ∧ s.caller = .finalising ∧ s.pending = false then some s.finish
    else none

def Step (s : State) (a : Action) (s' : State) : Prop := next s a = some s'

end AmplifierAgent
end DotRunner
