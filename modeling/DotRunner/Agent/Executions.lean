import DotRunner.Agent.Subagents
import DotRunner.Py.Ascii

/-!
# Executions of subagents

An agent is to be executed once, before it is closed; a call of `wait` is to return
what came of it, and an acknowledged message is to reach it.  The tools see to this
as long as nobody waits for an agent that is running or closed, nobody writes to one
that has started, and nobody closes one with messages still in its queue.
-/

namespace DotRunner
namespace Agent

open Behaviour Py

/-! ## What is promised -/

def SpawnRequest.Includes (request : SpawnRequest) (message : String) : Prop :=
  ("- " ++ message).toList <:+: request.instruction.toList

/-- The agent has not started, and has the message in its queue. -/
def SubagentManager.Awaits (m : SubagentManager) (agentId message : String) : Prop :=
  ∃ state, m.agents.get? agentId = some state ∧ state.status = .pending ∧
    message ∈ state.pendingMessages

section Replies

variable [Runtime]

/-- The replies that report how an execution ended: to the call of `wait` that started it, and
to a later one. -/
def SpawnOutcome.replies (agentId : String) : SpawnOutcome → List ToolResult
  | .replied output sessionId =>
    [completedReply agentId (output.getD "") sessionId, ⟨true, output.getD ""⟩]
  | .returned text => [completedReply agentId text none, ⟨true, text⟩]
  | .raised text => [failedReply agentId text, ⟨false, text⟩]
  | .cancelled => []

end Replies

namespace Delegation

def Event.starts (agentId : String) : Event → Prop
  | .started agent _ => agent = agentId
  | _ => False

def Event.closes (agentId : String) : Event → Prop
  | .closed agent => agent = agentId
  | _ => False

section Promise

variable [Runtime]

/-- What is promised of an event, among those before and after it. -/
def Event.Justified (m : SubagentManager) (earlier : List Event) (e : Event)
    (later : List Event) : Prop :=
  match e with
  | .started agentId _ => ∀ e ∈ earlier, ¬e.starts agentId ∧ ¬e.closes agentId
  | .replied agentId reply =>
    (∃ e ∈ earlier, e.starts agentId) →
      ∃ outcome, .finished agentId outcome ∈ earlier ∧ reply ∈ outcome.replies agentId
  | .queued agentId message =>
    (∃ request, .started agentId request ∈ later ∧ request.Includes message) ∨
      m.Awaits agentId message
  | _ => True

def Faithful (d : Delegation) : Prop := EachAt (Event.Justified d.manager) d.log

/-- The call does not wait for an agent that is running or closed, send a message to one that
has started, or close one with messages in its queue. -/
def Orderly (t : Transition Delegation Call) : Prop :=
  match t.action with
  | .wait agentId =>
    t.source.manager.spawnAvailable = true →
      ∀ state, t.source.manager.agents.get? agentId = some state →
        state.status ≠ .running ∧ state.status ≠ .closed
  | .sendInput agentId _ =>
    ∀ state, t.source.manager.agents.get? agentId = some state →
      state.status = .pending ∨ state.status = .closed
  | .closeAgent agentId =>
    ∀ state, t.source.manager.agents.get? agentId = some state →
      state.status = .pending → state.pendingMessages = []
  | _ => True

/-! ## What the records say of the past -/

/-- The record of an agent agrees with what has happened to it. -/
structure Recorded (log : List Event) (agentId : String) (state : SubagentState) : Prop where
  pending : state.status = .pending → ∀ e ∈ log, ¬e.starts agentId ∧ ¬e.closes agentId
  running : state.status = .running → ∃ e ∈ log, e.starts agentId
  closed : state.status = .closed → ∃ e ∈ log, e.closes agentId
  ended : state.status = .completed ∨ state.status = .failed →
    ∃ outcome, .finished agentId outcome ∈ log ∧ state.cachedReply ∈ outcome.replies agentId
  queued : ∀ message ∈ state.pendingMessages, .queued agentId message ∈ log

/-- The events neither start nor close the agent. -/
def Silent (agentId : String) (events : List Event) : Prop :=
  ∀ e ∈ events, ¬e.starts agentId ∧ ¬e.closes agentId

structure Consistent (d : Delegation) : Prop where
  records : ∀ agentId state, d.manager.agents.get? agentId = some state →
    Recorded d.log agentId state
  unknown : ∀ agentId, d.manager.agents.get? agentId = none → Silent agentId d.log
  inFlight : ∀ agentId ∈ d.inFlight, ∃ e ∈ d.log, e.starts agentId
  available : d.manager.spawnAvailable = false → ∀ e ∈ d.log, ∀ agentId, ¬e.starts agentId

theorem Recorded.append {log : List Event} {agentId : String} {state : SubagentState}
    (h : Recorded log agentId state) {events : List Event} (hsilent : Silent agentId events) :
    Recorded (log ++ events) agentId state where
  pending hpending := List.forall_mem_append.mpr ⟨h.pending hpending, hsilent⟩
  running hrunning := by
    obtain ⟨e, he, hstarts⟩ := h.running hrunning
    exact ⟨e, List.mem_append_left _ he, hstarts⟩
  closed hclosed := by
    obtain ⟨e, he, hcloses⟩ := h.closed hclosed
    exact ⟨e, List.mem_append_left _ he, hcloses⟩
  ended hended := by
    obtain ⟨outcome, hfinished, hreply⟩ := h.ended hended
    exact ⟨outcome, List.mem_append_left _ hfinished, hreply⟩
  queued message hmessage := List.mem_append_left _ (h.queued message hmessage)

/-- Nothing but the log grows, by events that start and close nothing. -/
theorem Consistent.append {d : Delegation} (h : Consistent d) {events : List Event}
    (hsilent : ∀ agentId, Silent agentId events) :
    Consistent { d with log := d.log ++ events } where
  records agentId state hstate := (h.records agentId state hstate).append (hsilent agentId)
  unknown agentId hunknown :=
    List.forall_mem_append.mpr ⟨h.unknown agentId hunknown, hsilent agentId⟩
  inFlight agentId hflight := by
    obtain ⟨e, he, hstarts⟩ := h.inFlight agentId hflight
    exact ⟨e, List.mem_append_left _ he, hstarts⟩
  available hnone := List.forall_mem_append.mpr
    ⟨h.available hnone, fun e he agentId => (hsilent agentId e he).1⟩

/-- One record changes, with events that concern its agent only. -/
theorem Consistent.put {d : Delegation} (h : Consistent d) {agentId : String}
    {state : SubagentState} {events : List Event} {inFlight : List String}
    (hrecord : Recorded (d.log ++ events) agentId state)
    (hother : ∀ other, agentId ≠ other → Silent other events)
    (hflight : ∀ other ∈ inFlight, other ∈ d.inFlight ∨ ∃ e ∈ events, e.starts other)
    (havailable : d.manager.spawnAvailable = false → ∀ e ∈ events, ∀ other, ¬e.starts other) :
    Consistent ⟨d.manager.put agentId state, inFlight, d.log ++ events⟩ where
  records other state' hstate' := by
    rw [SubagentManager.get?_put] at hstate'
    split at hstate'
    · rename_i heq
      obtain rfl := Option.some.inj hstate'
      rw [← heq]
      exact hrecord
    · rename_i hne
      exact (h.records other state' hstate').append (hother other hne)
  unknown other hunknown := by
    rw [SubagentManager.get?_put] at hunknown
    split at hunknown
    · cases hunknown
    · rename_i hne
      exact List.forall_mem_append.mpr ⟨h.unknown other hunknown, hother other hne⟩
  inFlight other hin := by
    rcases hflight other hin with hold | ⟨e, he, hstarts⟩
    · obtain ⟨e, he, hstarts⟩ := h.inFlight other hold
      exact ⟨e, List.mem_append_left _ he, hstarts⟩
    · exact ⟨e, List.mem_append_right _ he, hstarts⟩
  available hnone := List.forall_mem_append.mpr ⟨h.available hnone, havailable hnone⟩

theorem Recorded.resumed {log : List Event} {agentId : String} {state : SubagentState}
    (h : Recorded log agentId state)
    (outcome : SpawnOutcome) {events : List Event} (hsilent : Silent agentId events)
    (hfinished : .finished agentId outcome ∈ events) :
    Recorded (log ++ events) agentId (state.resume agentId outcome).1 := by
  have hmem : Event.finished agentId outcome ∈ log ++ events :=
    List.mem_append_right _ hfinished
  cases outcome with
  | replied output sessionId =>
    refine ⟨nofun, nofun, nofun, fun _ => ⟨_, hmem, ?_⟩, nofun⟩
    exact List.mem_cons_of_mem _ List.mem_cons_self
  | returned text =>
    refine ⟨nofun, nofun, nofun, fun _ => ⟨_, hmem, ?_⟩, nofun⟩
    exact List.mem_cons_of_mem _ List.mem_cons_self
  | raised text =>
    refine ⟨nofun, nofun, nofun, fun _ => ⟨_, hmem, ?_⟩, (h.append hsilent).queued⟩
    exact List.mem_cons_of_mem _ List.mem_cons_self
  | cancelled => exact h.append hsilent

omit [Runtime] in
theorem silent_resumed (agentId other : String) (outcome : SpawnOutcome) (reply : Option ToolResult) :
    Silent other ([.finished agentId outcome] ++ reply.toList.map (Event.replied agentId)) := by
  intro e he
  rcases List.mem_append.mp he with he | he
  · obtain rfl := List.mem_singleton.mp he
    exact ⟨id, id⟩
  · obtain ⟨reply, -, rfl⟩ := List.mem_map.mp he
    exact ⟨id, id⟩

theorem consistent_step {d d' : Delegation} {call : Call} (hstep : Step d call d')
    (h : Consistent d) : Consistent d' := by
  cases effect_of_step hstep with
  | spawnRefused | inputRefused hclosed | closeUnknown hunknown => exact h
  | @spawned agentId args state hfresh hpending hempty =>
    have hlog : d.log ++ [] = d.log := List.append_nil d.log
    rw [← hlog]
    refine h.put ⟨fun _ => ?_, ?_, ?_, ?_, ?_⟩ ?_ ?_ ?_
    · rw [hlog]
      exact h.unknown agentId hfresh
    · simp [hpending]
    · simp [hpending]
    · simp [hpending]
    · simp [hempty]
    · exact fun _ _ => nofun
    · exact fun _ hin => .inl hin
    · exact fun _ => nofun
  | @queued agentId message state hstate hopen =>
    have hsilent : ∀ other, Silent other [Event.queued agentId message] := by
      intro other e he
      obtain rfl := List.mem_singleton.mp he
      exact ⟨id, id⟩
    have hrecord := (h.records agentId state hstate).append (hsilent agentId)
    refine h.put ⟨hrecord.pending, hrecord.running, hrecord.closed, hrecord.ended, ?_⟩
      (fun other _ => hsilent other) (fun _ hin => .inl hin) (fun _ e he other => (hsilent other e he).1)
    intro m hm
    rcases List.mem_append.mp hm with hm | hm
    · exact hrecord.queued m hm
    · rw [List.mem_singleton.mp hm]
      exact List.mem_append_right _ List.mem_cons_self
  | notFound hunknown | cached state hstate hended | notAvailable hnone =>
    refine h.append fun agentId e he => ?_
    obtain rfl := List.mem_singleton.mp he
    exact ⟨id, id⟩
  | @started agentId state hstate hopen havailable =>
    have hmem : Event.started agentId state.spawnRequest ∈
        d.log ++ [.started agentId state.spawnRequest] :=
      List.mem_append_right _ List.mem_cons_self
    refine h.put ⟨nofun, fun _ => ⟨_, hmem, rfl⟩, nofun, nofun, fun m hm => ?_⟩ ?_ ?_ ?_
    · exact List.mem_append_left _ ((h.records agentId state hstate).queued m hm)
    · intro other hne e he
      obtain rfl := List.mem_singleton.mp he
      exact ⟨hne, id⟩
    · intro other hin
      rcases List.mem_cons.mp hin with rfl | hin
      · exact .inr ⟨_, List.mem_cons_self, rfl⟩
      · exact .inl hin
    · intro hnone
      rw [havailable] at hnone
      cases hnone
  | @resumed agentId outcome state hstate hflight =>
    rw [List.append_assoc]
    refine h.put ((h.records agentId state hstate).resumed outcome (silent_resumed _ _ _ _)
      List.mem_cons_self) (fun other _ => silent_resumed _ _ _ _) ?_ ?_
    · exact fun other hin => .inl (List.mem_of_mem_erase hin)
    · exact fun _ e he other => (silent_resumed _ other _ _ e he).1
  | @closed agentId state hstate =>
    have hmem : Event.closed agentId ∈ d.log ++ [.closed agentId] :=
      List.mem_append_right _ List.mem_cons_self
    refine h.put ⟨nofun, nofun, fun _ => ⟨_, hmem, rfl⟩, nofun, nofun⟩ ?_
      (fun _ hin => .inl hin) ?_
    · intro other hne e he
      obtain rfl := List.mem_singleton.mp he
      exact ⟨id, hne⟩
    · intro _ e he other
      obtain rfl := List.mem_singleton.mp he
      exact id

/-! ## Keeping the promise -/

omit [Runtime] in
theorem infix_intercalate_of_mem {α : Type} {sep x : List α} {xs : List (List α)} (h : x ∈ xs) :
    x <:+: sep.intercalate xs := by
  induction xs with
  | nil => cases h
  | cons y ys ih =>
    cases ys with
    | nil =>
      have hself : x <:+: y := List.mem_singleton.mp h ▸ List.infix_refl x
      exact hself.trans (List.intercalate_singleton ▸ List.infix_refl y)
    | cons z zs =>
      rw [List.intercalate_cons_cons]
      rcases List.mem_cons.mp h with rfl | h
      · rw [List.append_assoc]
        exact (List.prefix_append _ _).isInfix
      · exact (ih h).trans (List.suffix_append _ _).isInfix

omit [Runtime] in
theorem includes_of_mem {state : SubagentState} {message : String}
    (h : message ∈ state.pendingMessages) : state.spawnRequest.Includes message := by
  have hsome : state.pendingMessages ≠ [] := List.ne_nil_of_mem h
  have hline : ("- " ++ message).toList ∈
      (state.task :: "\n\nAdditional instructions:" ::
        state.pendingMessages.map ("- " ++ ·)).map String.toList :=
    List.mem_map_of_mem (List.mem_cons_of_mem _ (List.mem_cons_of_mem _ (List.mem_map_of_mem h)))
  show ("- " ++ message).toList <:+: state.instruction.toList
  rw [SubagentState.instruction, if_neg hsome, String.toList_intercalate]
  exact infix_intercalate_of_mem hline

/-- One event more: the earlier ones are as justified as they were, as far as the messages still
awaited are concerned. -/
theorem faithful_snoc {m m' : SubagentManager} {log : List Event} {e : Event}
    (h : EachAt (Event.Justified m) log)
    (hkeep : ∀ agentId message, m.Awaits agentId message → m'.Awaits agentId message ∨
      ∃ request, e = .started agentId request ∧ request.Includes message)
    (hnew : Event.Justified m' log e []) : EachAt (Event.Justified m') (log ++ [e]) := by
  refine eachAt_snoc.mpr ⟨h.imp fun earlier x later hx => ?_, hnew⟩
  cases x with
  | started agentId request => exact hx
  | finished agentId outcome => exact hx
  | replied agentId reply => exact hx
  | closed agentId => exact hx
  | queued agentId message =>
    rcases hx with ⟨request, hstarted, hincludes⟩ | hawaits
    · exact .inl ⟨request, List.mem_append_left _ hstarted, hincludes⟩
    · rcases hkeep agentId message hawaits with hawaits | ⟨request, rfl, hincludes⟩
      · exact .inr hawaits
      · exact .inl ⟨request, List.mem_append_right _ List.mem_cons_self, hincludes⟩

omit [Runtime] in
/-- A message keeps waiting unless its agent's record changes. -/
theorem awaits_put {m : SubagentManager} {agentId : String} {state : SubagentState}
    (h : ∀ message, m.Awaits agentId message →
      state.status = .pending ∧ message ∈ state.pendingMessages)
    {other message : String} (hawaits : m.Awaits other message) :
    (m.put agentId state).Awaits other message := by
  by_cases heq : agentId = other
  · subst heq
    exact ⟨state, by simp, h message hawaits⟩
  · obtain ⟨state', hstate', hpending⟩ := hawaits
    exact ⟨state', by simp [heq, hstate'], hpending⟩

omit [Runtime] in
theorem awaits_iff {m : SubagentManager} {agentId : String} {state : SubagentState}
    (hstate : m.agents.get? agentId = some state) {message : String} :
    m.Awaits agentId message ↔ state.status = .pending ∧ message ∈ state.pendingMessages := by
  constructor
  · rintro ⟨state', hstate', hpending⟩
    obtain rfl := Option.some.inj (hstate.symm.trans hstate')
    exact hpending
  · exact fun hpending => ⟨state, hstate, hpending⟩

omit [Runtime] in
theorem awaits_put_self {m : SubagentManager} {agentId : String} {state : SubagentState}
    {message : String} : (m.put agentId state).Awaits agentId message ↔
      state.status = .pending ∧ message ∈ state.pendingMessages :=
  awaits_iff (by simp)

/-- A call keeps the promise exactly if it is orderly. -/
theorem faithful_iff_orderly {t : Transition Delegation Call} (hstep : Step t.source t.action t.target)
    (hc : Consistent t.source) (h : Faithful t.source) : Faithful t.target ↔ Orderly t := by
  obtain ⟨d, call, d'⟩ := t
  have heffect : Effect d call d' := effect_of_step hstep
  cases heffect with
  | spawnRefused => exact iff_of_true h trivial
  | @spawned agentId args state hfresh hpending hempty =>
    refine iff_of_true (h.imp fun earlier e later he => ?_) trivial
    cases e with
    | queued other message =>
      refine he.imp_right (awaits_put ?_)
      rintro message ⟨state', hstate', -⟩
      rw [hfresh] at hstate'
      cases hstate'
    | _ => exact he
  | inputRefused hclosed => exact iff_of_true h fun state hstate => .inr (hclosed state hstate)
  | @queued agentId message state hstate hopen =>
    constructor
    · intro htarget state' hstate'
      obtain rfl := Option.some.inj (hstate.symm.trans hstate')
      rcases (eachAt_snoc.mp htarget).2 with ⟨_, hstarted, -⟩ | hawaits
      · cases hstarted
      · exact .inl (awaits_put_self.mp hawaits).1
    · intro horderly
      have hpending : state.status = .pending := (horderly state hstate).resolve_right hopen
      refine faithful_snoc h (fun _ _ hawaits => .inl (awaits_put (fun m hm => ?_) hawaits)) (.inr ?_)
      · exact ⟨hpending, List.mem_append_left _ ((awaits_iff hstate).mp hm).2⟩
      · exact awaits_put_self.mpr ⟨hpending, List.mem_append_right _ List.mem_cons_self⟩
  | @notFound agentId hunknown =>
    refine iff_of_true (faithful_snoc h (fun _ _ hawaits => .inl hawaits) ?_) ?_
    · rintro ⟨e, he, hstarts⟩
      exact absurd hstarts (hc.unknown agentId hunknown e he).1
    · intro _ state hstate
      rw [hunknown] at hstate
      cases hstate
  | @cached agentId state hstate hended =>
    refine iff_of_true (faithful_snoc h (fun _ _ hawaits => .inl hawaits) fun _ => ?_) ?_
    · exact (hc.records agentId state hstate).ended hended
    · intro _ state' hstate'
      obtain rfl := Option.some.inj (hstate.symm.trans hstate')
      rcases hended with hended | hended <;> simp [hended]
  | @notAvailable agentId hnone =>
    refine iff_of_true (faithful_snoc h (fun _ _ hawaits => .inl hawaits) ?_) ?_
    · rintro ⟨e, he, hstarts⟩
      exact absurd hstarts (hc.available hnone e he agentId)
    · intro havailable
      rw [hnone] at havailable
      cases havailable
  | @started agentId state hstate hopen havailable =>
    have hrecord : Recorded d.log agentId state := hc.records agentId state hstate
    constructor
    · intro htarget _ state' hstate'
      obtain rfl := Option.some.inj (hstate.symm.trans hstate')
      have hnew : Silent agentId d.log := (eachAt_snoc.mp htarget).2
      constructor
      · intro hrunning
        obtain ⟨e, he, hstarts⟩ := hrecord.running hrunning
        exact (hnew e he).1 hstarts
      · intro hclosed
        obtain ⟨e, he, hcloses⟩ := hrecord.closed hclosed
        exact (hnew e he).2 hcloses
    · intro horderly
      have hnot := horderly havailable state hstate
      have hpending : state.status = .pending := by
        cases hstatus : state.status <;> simp_all
      refine faithful_snoc h (fun other message hawaits => ?_) (hrecord.pending hpending)
      by_cases heq : agentId = other
      · subst heq
        exact .inr ⟨_, rfl, includes_of_mem ((awaits_iff hstate).mp hawaits).2⟩
      · obtain ⟨state', hstate', hwaits⟩ := hawaits
        exact .inl ⟨state', by simp [heq, hstate'], hwaits⟩
  | @resumed agentId outcome state hstate hflight =>
    -- the agent has started, so that no message awaits it
    have hnone : ∀ message, ¬d.manager.Awaits agentId message := by
      intro message hawaits
      obtain ⟨e, he, hstarts⟩ := hc.inFlight agentId hflight
      exact ((hc.records agentId state hstate).pending ((awaits_iff hstate).mp hawaits).1 e he).1
        hstarts
    refine iff_of_true ?_ trivial
    have hfinished : EachAt (Event.Justified
        (d.manager.put agentId (state.resume agentId outcome).1)) (d.log ++ [.finished agentId outcome]) :=
      faithful_snoc h (fun _ _ hawaits =>
        .inl (awaits_put (fun message hm => absurd hm (hnone message)) hawaits)) trivial
    cases hreply : (state.resume agentId outcome).2 with
    | none =>
      show EachAt _ (_ ++ [])
      rw [List.append_nil]
      exact hfinished
    | some reply =>
      refine faithful_snoc hfinished (fun _ _ hawaits => .inl hawaits) fun _ => ?_
      refine ⟨outcome, List.mem_append_right _ List.mem_cons_self, ?_⟩
      cases outcome with
      | replied output sessionId | returned text | raised text =>
        obtain rfl := Option.some.inj hreply
        exact List.mem_cons_self
      | cancelled => cases hreply
  | closeUnknown hunknown =>
    refine iff_of_true h fun state hstate => ?_
    rw [hunknown] at hstate
    cases hstate
  | @closed agentId state hstate =>
    have hrecord : Recorded d.log agentId state := hc.records agentId state hstate
    constructor
    · intro htarget state' hstate' hpending
      obtain rfl := Option.some.inj (hstate.symm.trans hstate')
      refine List.eq_nil_iff_forall_not_mem.mpr fun message hmessage => ?_
      obtain ⟨earlier, later, hsplit⟩ := List.append_of_mem (hrecord.queued message hmessage)
      rcases (eachAt_snoc.mp htarget).1 earlier _ later hsplit with
        ⟨request, hstarted, -⟩ | hawaits
      · rcases List.mem_append.mp hstarted with hstarted | hstarted
        · refine (hrecord.pending hpending (.started agentId request) ?_).1 rfl
          rw [hsplit]
          exact List.mem_append_right _ (List.mem_cons_of_mem _ hstarted)
        · cases List.mem_singleton.mp hstarted
      · cases (awaits_put_self.mp hawaits).1
    · intro horderly
      refine faithful_snoc h (fun _ _ hawaits => .inl (awaits_put (fun message hm => ?_) hawaits)) trivial
      obtain ⟨hpending, hm⟩ := (awaits_iff hstate).mp hm
      rw [horderly state hstate hpending] at hm
      cases hm

/-! ## Whole lives -/

/-- The calls of a session, in any order they can come in. -/
structure Life where
  maxDepth : Int
  currentDepth : Int
  spawnAvailable : Bool
  steps : List (Transition Delegation Call)
  last : Delegation
  run : Run Step (new maxDepth currentDepth spawnAvailable) steps last

def Life.play (maxDepth currentDepth : Int) (spawnAvailable : Bool) (calls : List Call)
    (h : (Behaviour.play step (new maxDepth currentDepth spawnAvailable) calls).isSome) : Life where
  maxDepth := maxDepth
  currentDepth := currentDepth
  spawnAvailable := spawnAvailable
  steps := ((Behaviour.play step (new maxDepth currentDepth spawnAvailable) calls).get h).1
  last := ((Behaviour.play step (new maxDepth currentDepth spawnAvailable) calls).get h).2
  run := run_of_play (Option.some_get h).symm

theorem consistent_new (maxDepth currentDepth : Int) (spawnAvailable : Bool) :
    Consistent (new maxDepth currentDepth spawnAvailable) := by
  refine ⟨?_, ?_, ?_, ?_⟩ <;> simp [new, Silent]

/-- A life keeps the promise at every moment exactly if all its calls are orderly. -/
theorem faithful_iff_all_orderly (life : Life) :
    (∀ t ∈ life.steps, Faithful t.target) ↔ ∀ t ∈ life.steps, Orderly t := by
  refine Run.forall_iff (P := fun d => Consistent d ∧ Faithful d) ?_ ?_ life.run
    ⟨consistent_new _ _ _, eachAt_nil⟩
  · exact fun t hstep h => faithful_iff_orderly hstep h.1 h.2
  · exact fun t hstep hfaithful h => ⟨consistent_step hstep h.1, hfaithful⟩

theorem not_faithful_of_restarted {d : Delegation} {agentId : String} {request : SpawnRequest}
    {earlier : List Event} (hlog : d.log = earlier ++ [.started agentId request])
    (hstarted : ∃ e ∈ earlier, e.starts agentId) : ¬Faithful d := by
  intro h
  obtain ⟨e, he, hstarts⟩ := hstarted
  exact (h earlier _ [] hlog e he).1 hstarts

end Promise

section Demo

open Py.Ascii

/-- Two calls of `wait` in one round, both before the execution ends. -/
def waitedTwice : Life :=
  .play 1 0 true [.spawnAgent "a" { task := "plan" }, .wait "a", .wait "a"] (by decide +kernel)

def planStarted : Event := .started "a" ⟨"a", "plan", some 50, none⟩

theorem planStarted_twice :
    (waitedTwice.steps.get ⟨2, by decide +kernel⟩).target.log =
      [planStarted] ++ [.started "a" ⟨"a", "plan", some 50, none⟩] := by
  decide +kernel

/-- The second call hands the task over again. -/
theorem second_wait_restarts : ∃ life : Life, ∃ t ∈ life.steps, ¬Faithful t.target :=
  ⟨waitedTwice, waitedTwice.steps.get ⟨2, by decide +kernel⟩, List.get_mem _ _,
    not_faithful_of_restarted planStarted_twice ⟨_, List.mem_cons_self, rfl⟩⟩

end Demo

end Delegation
end Agent
end DotRunner
