import DotRunner.Agent.Turns
import DotRunner.Behaviour
import DotRunner.Py.JsonLine

/-!
# Subagents

The four tools a session steers its subagents with.  They share the records of a
`SubagentManager`.  Only `wait` suspends, while `session.spawn` runs the subagent: it
is two steps here, and the calls of other tools may come between them.
-/

namespace DotRunner
namespace Agent

open Behaviour Py

/-! ## Records -/

inductive SubagentStatus where
  | pending
  | running
  | completed
  | failed
  | closed
deriving DecidableEq

structure SubagentState where
  agentId : String
  task : String
  status : SubagentStatus := .pending
  workingDir : String := ""
  maxTurns : Int := 50
  model : String := ""
  pendingMessages : List String := []
  result : Option String := none
deriving DecidableEq

structure SubagentManager where
  maxDepth : Int := 1
  currentDepth : Int := 0
  /-- whether the coordinator has the capability `session.spawn` -/
  spawnAvailable : Bool := true
  agents : Dict String SubagentState := .empty

/-- `self._agents[agent_id] = state`, which also stands for changes made to the record. -/
def SubagentManager.put (m : SubagentManager) (agentId : String) (state : SubagentState) :
    SubagentManager :=
  { m with agents := m.agents.set agentId state }

@[simp] theorem SubagentManager.get?_put (m : SubagentManager) (agentId : String)
    (state : SubagentState) (other : String) :
    (m.put agentId state).agents.get? other =
      if agentId = other then some state else m.agents.get? other :=
  m.agents.get?_set agentId state other

@[simp] theorem SubagentManager.spawnAvailable_put (m : SubagentManager) (agentId : String)
    (state : SubagentState) : (m.put agentId state).spawnAvailable = m.spawnAvailable := rfl

/-- The arguments of `spawn_agent`. -/
structure SpawnArguments where
  task : String := ""
  workingDir : String := ""
  maxTurns : Int := 50
  model : String := ""

/-- What `session.spawn` is called with, by this module. -/
structure SpawnRequest where
  agentName : String
  instruction : String
  /-- `max_turns` of `orchestrator_config` -/
  maxTurns : Option Int
  /-- `model` of the one entry of `provider_preferences` -/
  model : Option String
deriving DecidableEq

/-- How a call of `session.spawn` ends. -/
inductive SpawnOutcome where
  /-- it returned a dictionary -/
  | replied (output : Option String) (sessionId : Option String)
  /-- it returned something else, whose `str` this is -/
  | returned (text : String)
  | raised (text : String)
  /-- `CancelledError`, which `except Exception` lets pass -/
  | cancelled
deriving DecidableEq

/-! ## Tools -/

section Tools

variable [Runtime]

/-- `json.dumps` of texts and numbers, which it takes all of. -/
def jsonText (fields : List (String × Value)) : String :=
  String.ofList (Json.lineText (.dict fields))

def agentNotFound (agentId : String) : ToolResult :=
  ⟨false, "Agent not found: " ++ agentId⟩

namespace SubagentManager

/-- `agentId` is the identifier drawn for the new agent. -/
def spawnAgent (m : SubagentManager) (agentId : String) (args : SpawnArguments) :
    SubagentManager × ToolResult :=
  if m.currentDepth ≥ m.maxDepth then
    (m, ⟨false, "Subagent depth limit reached: current_depth=" ++ toString m.currentDepth ++
      ", max_depth=" ++ toString m.maxDepth ++ ". Cannot spawn deeper."⟩)
  else if args.task = "" then (m, ⟨false, "Missing required 'task' parameter."⟩)
  else
    let state : SubagentState := {
      agentId := agentId
      task := args.task
      workingDir := args.workingDir
      maxTurns := args.maxTurns
      model := args.model }
    (m.put agentId state,
      ⟨true, jsonText [("agent_id", .str agentId), ("status", .str "pending")]⟩)

def sendInput (m : SubagentManager) (agentId message : String) : SubagentManager × ToolResult :=
  match m.agents.get? agentId with
  | none => (m, agentNotFound agentId)
  | some state =>
    if state.status = .closed then
      (m, ⟨false, "Agent " ++ agentId ++ " is closed. Cannot send input."⟩)
    else
      let messages := state.pendingMessages ++ [message]
      (m.put agentId { state with pendingMessages := messages },
        ⟨true, jsonText [("agent_id", .str agentId), ("status", .str "message_queued"),
          ("pending_count", .int messages.length)]⟩)

def closeAgent (m : SubagentManager) (agentId : String) : SubagentManager × ToolResult :=
  match m.agents.get? agentId with
  | none => (m, agentNotFound agentId)
  | some state =>
    (m.put agentId { state with status := .closed, pendingMessages := [] },
      ⟨true, jsonText [("agent_id", .str agentId), ("status", .str "closed")]⟩)

end SubagentManager

namespace SubagentState

/-- The task and the queued messages, as one text. -/
def instruction (state : SubagentState) : String :=
  "\n".intercalate (state.task ::
    if state.pendingMessages = [] then []
    else "\n\nAdditional instructions:" :: state.pendingMessages.map ("- " ++ ·))

def spawnRequest (state : SubagentState) : SpawnRequest where
  agentName := state.agentId
  instruction := state.instruction
  maxTurns := if state.maxTurns ≠ 0 then some state.maxTurns else none
  model := if state.model ≠ "" then some state.model else none

/-- What an agent that has ended answers to `wait`. -/
def cachedReply (state : SubagentState) : ToolResult :=
  ⟨state.status = .completed, state.result.getD ""⟩

end SubagentState

/-- The first part of a call of `wait`. -/
inductive WaitStart where
  | replies (reply : ToolResult)
  | awaits (m : SubagentManager) (request : SpawnRequest)

def spawnNotAvailable : ToolResult :=
  ⟨false, "session.spawn capability not available. Subagent execution requires an app host that " ++
    "registers this capability (e.g. amplifier CLI)."⟩

def SubagentManager.wait (m : SubagentManager) (agentId : String) : WaitStart :=
  match m.agents.get? agentId with
  | none => .replies (agentNotFound agentId)
  | some state =>
    if state.status = .completed ∨ state.status = .failed then .replies state.cachedReply
    else if m.spawnAvailable then
      .awaits (m.put agentId { state with status := .running }) state.spawnRequest
    else .replies spawnNotAvailable

def completedReply (agentId output : String) (sessionId : Option String) : ToolResult :=
  ⟨true, jsonText [("agent_id", .str agentId), ("status", .str "completed"),
    ("output", .str output), ("session_id", sessionId.elim .none .str)]⟩

def failedReply (agentId error : String) : ToolResult :=
  ⟨false, jsonText [("agent_id", .str agentId), ("status", .str "failed"),
    ("error", .str error)]⟩

def SubagentState.complete (state : SubagentState) (output : String) : SubagentState :=
  { state with status := .completed, result := some output, pendingMessages := [] }

/-- The second part of a call of `wait`, with its reply where it has one. -/
def SubagentState.resume (state : SubagentState) (agentId : String) :
    SpawnOutcome → SubagentState × Option ToolResult
  | .replied output sessionId =>
    (state.complete (output.getD ""), some (completedReply agentId (output.getD "") sessionId))
  | .returned text => (state.complete text, some (completedReply agentId text none))
  | .raised text =>
    ({ state with status := .failed, result := some text }, some (failedReply agentId text))
  | .cancelled => (state, none)

end Tools

/-! ## Interleavings -/

namespace Delegation

inductive Event where
  /-- the agent's task is handed to `session.spawn` -/
  | started (agentId : String) (request : SpawnRequest)
  | finished (agentId : String) (outcome : SpawnOutcome)
  /-- a call of `wait` returns -/
  | replied (agentId : String) (reply : ToolResult)
  /-- a message is acknowledged as queued -/
  | queued (agentId message : String)
  | closed (agentId : String)
deriving DecidableEq

/-- What runs without a suspension. -/
inductive Call where
  | spawnAgent (agentId : String) (args : SpawnArguments)
  | sendInput (agentId message : String)
  | wait (agentId : String)
  /-- an execution ends, and the call of `wait` that started it goes on -/
  | resume (agentId : String) (outcome : SpawnOutcome)
  | closeAgent (agentId : String)

end Delegation

/-- A session's subagents, the executions under way, and what has happened. -/
structure Delegation where
  manager : SubagentManager
  /-- the agents that `session.spawn` is running, once for each call -/
  inFlight : List String := []
  log : List Delegation.Event := []

namespace Delegation

variable [Runtime]

/-- `none` where the call cannot happen: identifiers are drawn anew, and only what was
started ends. -/
def step (d : Delegation) : Call → Option Delegation
  | .spawnAgent agentId args =>
    if d.manager.agents.contains agentId then none
    else some { d with manager := (d.manager.spawnAgent agentId args).1 }
  | .sendInput agentId message =>
    let (manager, reply) := d.manager.sendInput agentId message
    some { d with
      manager := manager
      log := d.log ++ if reply.success then [.queued agentId message] else [] }
  | .wait agentId =>
    match d.manager.wait agentId with
    | .replies reply => some { d with log := d.log ++ [.replied agentId reply] }
    | .awaits manager request => some {
        manager := manager
        inFlight := agentId :: d.inFlight
        log := d.log ++ [.started agentId request] }
  | .resume agentId outcome =>
    if agentId ∈ d.inFlight then
      (d.manager.agents.get? agentId).map fun state =>
        let (state, reply) := state.resume agentId outcome
        { manager := d.manager.put agentId state
          inFlight := d.inFlight.erase agentId
          log := d.log ++ [.finished agentId outcome] ++ reply.toList.map (.replied agentId) }
    else none
  | .closeAgent agentId =>
    let (manager, reply) := d.manager.closeAgent agentId
    some { d with
      manager := manager
      log := d.log ++ if reply.success then [.closed agentId] else [] }

def Step (d : Delegation) (call : Call) (d' : Delegation) : Prop :=
  d.step call = some d'

def new (maxDepth currentDepth : Int) (spawnAvailable : Bool) : Delegation where
  manager := { maxDepth := maxDepth, currentDepth := currentDepth, spawnAvailable := spawnAvailable }

/-! ## What a call can do -/

inductive Effect (d : Delegation) : Call → Delegation → Prop where
  | spawnRefused {agentId : String} {args : SpawnArguments} : Effect d (.spawnAgent agentId args) d
  | spawned {agentId : String} {args : SpawnArguments} (state : SubagentState)
      (hfresh : d.manager.agents.get? agentId = none) (hpending : state.status = .pending)
      (hempty : state.pendingMessages = []) :
      Effect d (.spawnAgent agentId args)
        { d with manager := d.manager.put agentId state }
  | inputRefused {agentId message : String}
      (hclosed : ∀ state, d.manager.agents.get? agentId = some state → state.status = .closed) :
      Effect d (.sendInput agentId message) d
  | queued {agentId message : String} (state : SubagentState)
      (hstate : d.manager.agents.get? agentId = some state) (hopen : state.status ≠ .closed) :
      Effect d (.sendInput agentId message)
        { d with
          manager := d.manager.put agentId {
            state with pendingMessages := state.pendingMessages ++ [message] }
          log := d.log ++ [.queued agentId message] }
  | notFound {agentId : String} (hunknown : d.manager.agents.get? agentId = none) :
      Effect d (.wait agentId)
        { d with log := d.log ++ [.replied agentId (agentNotFound agentId)] }
  | cached {agentId : String} (state : SubagentState)
      (hstate : d.manager.agents.get? agentId = some state)
      (hended : state.status = .completed ∨ state.status = .failed) :
      Effect d (.wait agentId)
        { d with log := d.log ++ [.replied agentId state.cachedReply] }
  | notAvailable {agentId : String} (hnone : d.manager.spawnAvailable = false) :
      Effect d (.wait agentId) { d with log := d.log ++ [.replied agentId spawnNotAvailable] }
  | started {agentId : String} (state : SubagentState)
      (hstate : d.manager.agents.get? agentId = some state)
      (hopen : state.status ≠ .completed ∧ state.status ≠ .failed)
      (havailable : d.manager.spawnAvailable = true) :
      Effect d (.wait agentId) {
        manager := d.manager.put agentId { state with status := .running }
        inFlight := agentId :: d.inFlight
        log := d.log ++ [.started agentId state.spawnRequest] }
  | resumed {agentId : String} {outcome : SpawnOutcome} (state : SubagentState)
      (hstate : d.manager.agents.get? agentId = some state) (hflight : agentId ∈ d.inFlight) :
      Effect d (.resume agentId outcome) {
        manager := d.manager.put agentId (state.resume agentId outcome).1
        inFlight := d.inFlight.erase agentId
        log := d.log ++ [.finished agentId outcome] ++
          (state.resume agentId outcome).2.toList.map (.replied agentId) }
  | closeUnknown {agentId : String} (hunknown : d.manager.agents.get? agentId = none) :
      Effect d (.closeAgent agentId) d
  | closed {agentId : String} (state : SubagentState)
      (hstate : d.manager.agents.get? agentId = some state) :
      Effect d (.closeAgent agentId)
        { d with
          manager := d.manager.put agentId { state with status := .closed, pendingMessages := [] }
          log := d.log ++ [.closed agentId] }

theorem effect_of_step {d d' : Delegation} {call : Call} (h : Step d call d') :
    Effect d call d' := by
  unfold Step at h
  cases call with
  | spawnAgent agentId args =>
    rw [step] at h
    split at h
    · cases h
    · rename_i hfresh
      obtain rfl := Option.some.inj h
      unfold SubagentManager.spawnAgent
      split
      · exact .spawnRefused
      · split
        · exact .spawnRefused
        · refine .spawned _ ?_ rfl rfl
          simpa [Dict.contains] using hfresh
  | sendInput agentId message =>
    rw [step, SubagentManager.sendInput] at h
    cases hstate : d.manager.agents.get? agentId with
    | none =>
      simp only [hstate, agentNotFound, Bool.false_eq_true, if_false, List.append_nil] at h
      obtain rfl := Option.some.inj h
      exact .inputRefused (by simp [hstate])
    | some state =>
      by_cases hclosed : state.status = .closed
      · simp only [hstate, hclosed, if_true, Bool.false_eq_true, if_false, List.append_nil] at h
        obtain rfl := Option.some.inj h
        exact .inputRefused (by simp [hstate, hclosed])
      · simp only [hstate, hclosed, if_false, if_true] at h
        obtain rfl := Option.some.inj h
        exact .queued state hstate hclosed
  | wait agentId =>
    rw [step, SubagentManager.wait] at h
    cases hstate : d.manager.agents.get? agentId with
    | none =>
      rw [hstate] at h
      obtain rfl := Option.some.inj h
      exact .notFound hstate
    | some state =>
      rw [hstate] at h
      dsimp only at h
      split_ifs at h with hended havailable
      · obtain rfl := Option.some.inj h
        exact .cached state hstate hended
      · obtain rfl := Option.some.inj h
        exact .started state hstate (not_or.mp hended) havailable
      · obtain rfl := Option.some.inj h
        exact .notAvailable (Bool.eq_false_iff.mpr havailable)
  | resume agentId outcome =>
    rw [step] at h
    split at h
    · rename_i hflight
      obtain ⟨state, hstate, rfl⟩ := Option.map_eq_some_iff.mp h
      exact .resumed state hstate hflight
    · cases h
  | closeAgent agentId =>
    rw [step, SubagentManager.closeAgent] at h
    cases hstate : d.manager.agents.get? agentId with
    | none =>
      simp only [hstate, agentNotFound, Bool.false_eq_true, if_false, List.append_nil] at h
      obtain rfl := Option.some.inj h
      exact .closeUnknown hstate
    | some state =>
      simp only [hstate, if_true] at h
      obtain rfl := Option.some.inj h
      exact .closed state hstate

end Delegation
end Agent
end DotRunner
