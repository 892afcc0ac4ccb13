import DotRunner.Observability.Aggregator

/-!
# Who is charged

The responses carry their usage under keys the aggregator does not read, so nothing is ever
charged; and the record it closes is the last one of the node.
-/

namespace DotRunner
namespace Telemetry

open Py Behaviour

/-! ## Records -/

section Lists

variable {α : Type} (f : α → α)

@[simp] theorem onLast_nil : onLast f [] = [] := rfl

@[simp] theorem onLast_concat (l : List α) (x : α) : onLast f (l ++ [x]) = l ++ [f x] := by
  simp [onLast]

theorem getLast?_onLast (l : List α) : (onLast f l).getLast? = l.getLast?.map f := by
  rcases List.eq_nil_or_concat l with rfl | ⟨l, x, rfl⟩ <;> simp

theorem mem_onLast {l : List α} {x : α} (h : x ∈ onLast f l) : ∃ y ∈ l, x = y ∨ x = f y := by
  rcases List.eq_nil_or_concat l with rfl | ⟨l, y, rfl⟩
  · cases h
  · simp only [List.concat_eq_append, onLast_concat, List.mem_append, List.mem_singleton] at h ⊢
    rcases h with h | rfl
    · exact ⟨x, .inl h, .inl rfl⟩
    · exact ⟨y, .inr rfl, .inr rfl⟩

end Lists

theorem getD_pushRun (runs : Dict String (List NodeRun)) (node' node : String) (run : NodeRun) :
    (pushRun runs node' run).getD node [] =
      if node' = node then runs.getD node [] ++ [run] else runs.getD node [] := by
  rw [pushRun, Dict.getD, Dict.get?_set]
  split
  · rename_i h
    rw [h]
    rfl
  · rfl

theorem getD_onLastRun (runs : Dict String (List NodeRun)) (node' node : String)
    (f : NodeRun → NodeRun) : (onLastRun runs node' f).getD node [] =
      if node' = node then onLast f (runs.getD node []) else runs.getD node [] := by
  unfold onLastRun
  split
  · rename_i hnone
    split
    · rename_i h
      rw [← h, Dict.getD, hnone]
      rfl
    · rfl
  · rename_i list hsome
    rw [Dict.getD, Dict.get?_set]
    split
    · rename_i h
      rw [← h, Dict.getD, hsome]
      rfl
    · rfl

/-- Every record is under the id of a node. -/
theorem State.exists_of_mem_allRuns {s : State} {run : NodeRun} (h : run ∈ s.allRuns) :
    ∃ node, run ∈ s.runsOf node := by
  obtain ⟨past, state⟩ := s
  cases state with
  | none => cases h
  | some state =>
    obtain ⟨runs, hruns, hrun⟩ := List.mem_flatten.mp h
    obtain ⟨⟨node, _⟩, hentry, rfl⟩ := List.mem_map.mp hruns
    refine ⟨node, ?_⟩
    have hget : state.nodeRuns.get? node = some _ := (Dict.get?_eq_some_iff _).mpr hentry
    show run ∈ (state.nodeRuns.get? node).getD []
    rwa [hget]

/-! ## What the aggregator reads of a response -/

/-- A key that neither emitter has. -/
theorem count_payload (sender : Sender) {key : String} (h : key ∈ ["tokens_in", "tokens_out",
    "tokens_cached", "tokens_reasoning"]) : sender.payload.count key 0 = 0 := by
  have hnone : sender.payload.get? key = none := by
    simp only [List.mem_cons, List.not_mem_nil, or_false] at h
    cases sender <;> rcases h with rfl | rfl | rfl | rfl <;>
      simp [Sender.payload, Dict.ofList, Dict.setAll]
  rw [Payload.count, hnone]

/-- The record is of the same execution, with the same tokens, and no other time to end than
the one given. -/
structure Keeps (now : Nat) (f : NodeRun → NodeRun) : Prop where
  startedAt : ∀ run, (f run).startedAt = run.startedAt
  tokens : ∀ run, (f run).tokens = run.tokens
  completedAt : ∀ run, (f run).completedAt = run.completedAt ∨ (f run).completedAt = some now

theorem keeps_completed (now : Nat) (data : Payload) : Keeps now (.completed now data) := by
  refine ⟨fun _ => rfl, fun run => ?_, fun _ => .inr rfl⟩
  funext kind
  cases kind <;> rfl

theorem keeps_charged (now : Nat) (sender : Sender) : Keeps now (.charged sender.payload) := by
  refine ⟨fun _ => rfl, fun run => ?_, fun _ => .inl rfl⟩
  funext kind
  cases kind with
  | input => simp [NodeRun.tokens, NodeRun.charged, count_payload sender]
  | output => simp [NodeRun.tokens, NodeRun.charged, count_payload sender]
  | cached => simp [NodeRun.tokens, NodeRun.charged, count_payload sender]
  | reasoning => rfl

theorem totals_response (sender : Sender) (s : PipelineRunState) :
    (handleProviderResponse sender.payload s).totals = s.totals := by
  funext kind
  cases kind <;>
    simp [PipelineRunState.totals, handleProviderResponse, count_payload sender]

/-! ## What an event does to the records -/

/-- The last record of some nodes is changed by `f`. -/
def Touched (f : NodeRun → NodeRun) (s s' : State) : Prop :=
  ∀ node, s'.runsOf node = s.runsOf node ∨ s'.runsOf node = onLast f (s.runsOf node)

theorem touched_onLastRun {past past' : List Action} {state state' : PipelineRunState}
    {f : NodeRun → NodeRun} {node' : String}
    (h : state'.nodeRuns = onLastRun state.nodeRuns node' f) :
    Touched f ⟨past, some state⟩ ⟨past', some state'⟩ := by
  intro node
  show state'.nodeRuns.getD node [] = state.nodeRuns.getD node [] ∨
    state'.nodeRuns.getD node [] = onLast f (state.nodeRuns.getD node [])
  rw [h, getD_onLastRun]
  split
  · exact .inr rfl
  · exact .inl rfl

/-- No event but the two that begin something makes a record, or changes a total. -/
theorem touched_after {s : State} {a : Action} (hstart : a.isPipelineStart = false)
    (hnode : ∀ node rest, a ≠ .nodeStart node rest) :
    (s.after a).state.isSome = s.state.isSome ∧ (s.after a).totals = s.totals ∧
      ∃ f, Keeps s.past.length f ∧ Touched f s (s.after a) := by
  have hsame : Keeps s.past.length id := ⟨fun _ => rfl, fun _ => rfl, fun _ => .inl rfl⟩
  obtain ⟨past, state⟩ := s
  cases state with
  | none =>
    have hnone : handle past.length none a = none := by
      cases a with
      | pipelineStart data => cases hstart
      | _ => rfl
    refine ⟨?_, ?_, id, hsame, fun node => .inl ?_⟩
    · show (handle past.length none a).isSome = false
      rw [hnone]
      rfl
    · show ((handle past.length none a).map _).getD 0 = 0
      rw [hnone]
      rfl
    · show ((handle past.length none a).map _).getD [] = []
      rw [hnone]
      rfl
  | some state =>
    cases a with
    | pipelineStart data => cases hstart
    | nodeStart node rest => exact absurd rfl (hnode node rest)
    | pipelineComplete data => exact ⟨rfl, rfl, id, hsame, fun _ => .inl rfl⟩
    | nodeComplete began node rest =>
      exact ⟨rfl, rfl, _, keeps_completed _ _, touched_onLastRun rfl⟩
    | skip node rest => exact ⟨rfl, rfl, _, keeps_completed _ _, touched_onLastRun rfl⟩
    | response began sender =>
      refine ⟨rfl, totals_response sender state, _, keeps_charged _ sender, ?_⟩
      cases hcurrent : state.currentNode with
      | none => exact fun node => .inl (by simp [State.runsOf, State.after, handle,
          handleProviderResponse, hcurrent])
      | some node' =>
        by_cases hempty : node' = ""
        · exact fun node => .inl (by simp [State.runsOf, State.after, handle,
            handleProviderResponse, hcurrent, hempty])
        · have hruns : (handleProviderResponse sender.payload state).nodeRuns =
              onLastRun state.nodeRuns node' (.charged sender.payload) := by
            simp [handleProviderResponse, hcurrent, hempty]
          exact touched_onLastRun hruns
    | error data => exact ⟨rfl, rfl, id, hsame, fun _ => .inl rfl⟩
    | other => exact ⟨rfl, rfl, id, hsame, fun _ => .inl rfl⟩

/-! ## What holds over a run -/

structure Good (s : State) : Prop where
  begun : s.state.isSome = s.past.any Action.isPipelineStart
  last : ∀ node, (s.runsOf node).getLast?.map NodeRun.startedAt = lastBegan s.past node
  earlier : ∀ node, ∀ run ∈ s.runsOf node, ∀ time, run.completedAt = some time → time < s.past.length
  free : ∀ node, ∀ run ∈ s.runsOf node, run.tokens = 0
  totals : s.totals = 0

theorem Good.begin : Good {} := ⟨rfl, fun _ => rfl, nofun, nofun, rfl⟩

theorem Good.touched {s s' : State} {a : Action} {f : NodeRun → NodeRun} (h : Good s)
    (hpast : s'.past = a :: s.past) (hstart : a.isPipelineStart = false)
    (hlast : ∀ node, lastBegan s'.past node = lastBegan s.past node)
    (hstate : s'.state.isSome = s.state.isSome) (htotals : s'.totals = s.totals)
    (hkeeps : Keeps s.past.length f) (htouched : Touched f s s') : Good s' := by
  constructor
  · rw [hstate, h.begun, hpast, List.any_cons, hstart, Bool.false_or]
  · intro node
    rw [hlast, ← h.last]
    rcases htouched node with heq | heq
    · rw [heq]
    · rw [heq, getLast?_onLast, Option.map_map]
      congr 1
      funext run
      exact hkeeps.startedAt run
  · intro node run hrun time htime
    rw [hpast, List.length_cons]
    rcases htouched node with heq | heq
    · rw [heq] at hrun
      exact Nat.lt_succ_of_lt (h.earlier node run hrun time htime)
    · rw [heq] at hrun
      obtain ⟨run', hrun', rfl | rfl⟩ := mem_onLast f hrun
      · exact Nat.lt_succ_of_lt (h.earlier node _ hrun' time htime)
      · rcases hkeeps.completedAt run' with hsame | hnow
        · rw [hsame] at htime
          exact Nat.lt_succ_of_lt (h.earlier node run' hrun' time htime)
        · rw [hnow] at htime
          cases htime
          omega
  · intro node run hrun
    rcases htouched node with heq | heq
    · rw [heq] at hrun
      exact h.free node run hrun
    · rw [heq] at hrun
      obtain ⟨run', hrun', rfl | rfl⟩ := mem_onLast f hrun
      · exact h.free node _ hrun'
      · rw [hkeeps.tokens]
        exact h.free node run' hrun'
  · rw [htotals, h.totals]

@[simp] theorem text_withNode (node : String) (rest : Payload) :
    (withNode node rest).text "node_id" "" = node := by
  rw [Payload.text, withNode, Dict.get?_set_self]

/-- The records of a node after the event that an execution begins. -/
theorem runsOf_nodeStart (past : List Action) (state : PipelineRunState) (node' node : String)
    (rest : Payload) : ∃ run : NodeRun, run.startedAt = past.length ∧ run.completedAt = none ∧
      run.tokens = 0 ∧ (State.after ⟨past, some state⟩ (.nodeStart node' rest)).runsOf node =
        if node' = node then State.runsOf ⟨past, some state⟩ node ++ [run]
        else State.runsOf ⟨past, some state⟩ node := by
  refine ⟨{ attempt := (withNode node' rest).count "attempt" 1, startedAt := past.length },
    rfl, rfl, ?_, ?_⟩
  · funext kind
    cases kind <;> rfl
  · show (handleNodeStart past.length (withNode node' rest) state).nodeRuns.getD node [] = _
    simp only [handleNodeStart, text_withNode, getD_pushRun]
    rfl

theorem Good.pipelineStart (s : State) (data : Payload) : Good (s.after (.pipelineStart data)) := by
  refine ⟨rfl, fun _ => rfl, nofun, nofun, ?_⟩
  funext kind
  cases kind <;> rfl

theorem Good.nodeStart {s : State} (h : Good s) (node : String) (rest : Payload) :
    Good (s.after (.nodeStart node rest)) := by
  obtain ⟨past, state⟩ := s
  have hlater : ∀ node, ∀ run ∈ State.runsOf ⟨past, state⟩ node, ∀ time,
      run.completedAt = some time → time < past.length + 1 := fun node run hrun time htime =>
    Nat.lt_succ_of_lt (h.earlier node run hrun time htime)
  have hbegan : ∀ node', lastBegan (.nodeStart node rest :: past) node' =
      if node = node' ∧ state.isSome then some past.length
      else (State.runsOf ⟨past, state⟩ node').getLast?.map NodeRun.startedAt := by
    intro node'
    rw [lastBegan, h.last node', ← h.begun]
  cases state with
  | none =>
    refine ⟨h.begun, fun node' => ?_, hlater, h.free, h.totals⟩
    show none = lastBegan (.nodeStart node rest :: past) node'
    rw [hbegan, if_neg (by simp)]
    rfl
  | some state =>
    refine ⟨h.begun, fun node' => ?_, fun node' run hrun => ?_, fun node' run hrun => ?_, h.totals⟩
    all_goals obtain ⟨run', hstarted, hcompleted, htokens, hruns⟩ :=
      runsOf_nodeStart past state node node' rest
    · show _ = lastBegan (.nodeStart node rest :: past) node'
      rw [hbegan, hruns]
      by_cases hnode : node = node'
      · simp [hnode, hstarted]
      · simp [hnode]
    · show ∀ time, run.completedAt = some time → time < past.length + 1
      rw [hruns] at hrun
      split at hrun
      · rcases List.mem_append.mp hrun with hrun | hrun
        · exact hlater node' run hrun
        · rw [List.mem_singleton.mp hrun, hcompleted]
          nofun
      · exact hlater node' run hrun
    · rw [hruns] at hrun
      split at hrun
      · rcases List.mem_append.mp hrun with hrun | hrun
        · exact h.free node' run hrun
        · rw [List.mem_singleton.mp hrun, htokens]
      · exact h.free node' run hrun

theorem Good.after {s : State} (h : Good s) (a : Action) : Good (s.after a) := by
  by_cases hstart : a.isPipelineStart = true
  · cases a with
    | pipelineStart data => exact .pipelineStart s data
    | _ => cases hstart
  · by_cases hnode : ∃ node rest, a = .nodeStart node rest
    · obtain ⟨node, rest, rfl⟩ := hnode
      exact h.nodeStart node rest
    · have hstart' : a.isPipelineStart = false := by simpa using hstart
      have hnode' : ∀ node rest, a ≠ .nodeStart node rest := fun node rest ha =>
        hnode ⟨node, rest, ha⟩
      obtain ⟨hstate, htotals, f, hkeeps, htouched⟩ := touched_after (s := s) hstart' hnode'
      refine h.touched rfl hstart' (fun node => ?_) hstate htotals hkeeps htouched
      cases a with
      | pipelineStart data => cases hstart'
      | nodeStart node' rest => exact absurd rfl (hnode' node' rest)
      | _ => rfl

/-! ## Which steps conserve -/

theorem Good.tokensOf {s : State} (h : Good s) (node : String) (began : Nat) :
    s.tokensOf node began = 0 := by
  refine List.sum_eq_zero fun tokens htokens => ?_
  obtain ⟨run, hrun, rfl⟩ := List.mem_map.mp htokens
  exact h.free node run (List.mem_filter.mp hrun).1

theorem Good.balanced {s : State} (h : Good s) : s.Balanced := by
  rw [State.Balanced, h.totals]
  refine List.sum_eq_zero fun tokens htokens => ?_
  obtain ⟨run, hrun, rfl⟩ := List.mem_map.mp htokens
  obtain ⟨node, hnode⟩ := State.exists_of_mem_allRuns hrun
  exact h.free node run hnode

/-- Nothing is charged, whatever the response carries. -/
theorem charged_iff {s s' : State} (h : Good s) (h' : Good s') (began : Option Nat)
    (data : Payload) : Charged s s' began data ↔ carried data = 0 := by
  constructor
  · intro hcharged
    have htotals := hcharged.totals
    rw [h.totals, h'.totals, zero_add] at htotals
    exact htotals.symm
  · intro hcarried
    constructor
    · rw [h.totals, h'.totals, hcarried, zero_add]
    · intro node time
      rw [h.tokensOf, h'.tokensOf, hcarried, ite_self, zero_add]

/-- Of the records of a node the last one is closed. -/
theorem closed_onLast {now : Nat} (data : Payload) {runs : List NodeRun}
    (hearlier : ∀ run ∈ runs, ∀ time, run.completedAt = some time → time < now) :
    ((onLast (.completed now data) runs).filter (·.completedAt = some now)).map
      NodeRun.startedAt = (runs.getLast?.map NodeRun.startedAt).toList := by
  rcases List.eq_nil_or_concat runs with rfl | ⟨front, run, rfl⟩
  · rfl
  · rw [List.concat_eq_append] at hearlier ⊢
    have hfront : front.filter (fun run => decide (run.completedAt = some now)) = [] := by
      refine List.filter_eq_nil_iff.mpr fun run' hrun' => ?_
      intro hnow
      have hlt := hearlier run' (List.mem_append_left _ hrun') now (of_decide_eq_true hnow)
      omega
    rw [onLast_concat, List.filter_append, hfront, List.nil_append,
      List.filter_singleton, List.getLast?_concat]
    simp [NodeRun.completed]

/-- The record that a `node_complete` closes is that of the last execution. -/
theorem Good.closedAt_after {s : State} (h : Good s) {a : Action} (node : String) (rest : Payload)
    (ha : handle s.past.length s.state a =
      s.state.map (handleNodeComplete s.past.length (withNode node rest))) :
    (s.after a).closedAt node s.past.length = (lastBegan s.past node).toList := by
  rw [← h.last, State.closedAt]
  have hruns : (s.after a).runsOf node =
      onLast (.completed s.past.length (withNode node rest)) (s.runsOf node) := by
    rw [State.runsOf, State.after, ha, State.runsOf]
    cases s.state with
    | none => rfl
    | some state =>
      show (handleNodeComplete _ _ state).nodeRuns.getD node [] = onLast _ (state.nodeRuns.getD node [])
      simp only [handleNodeComplete, text_withNode, getD_onLastRun, if_pos]
  rw [hruns]
  exact closed_onLast _ (h.earlier node)

theorem toList_eq_singleton {α : Type} {o : Option α} {x : α} : o.toList = [x] ↔ o = some x := by
  cases o <;> simp

theorem toList_eq_nil {α : Type} {o : Option α} : o.toList = [] ↔ o = none := by
  cases o <;> simp

theorem Good.conserved_iff {s : State} (h : Good s) (a : Action) :
    Conserved ⟨s, a, s.after a⟩ ↔ Meets ⟨s, a, s.after a⟩ := by
  have h' := h.after a
  have hended : ∀ began node rest, a = .nodeComplete began node rest →
      (s.after a).closedAt node s.past.length = (lastBegan s.past node).toList := by
    rintro began node rest rfl
    exact h.closedAt_after node rest rfl
  have hskipped : ∀ node rest, a = .skip node rest →
      (s.after a).closedAt node s.past.length = (lastBegan s.past node).toList := by
    rintro node rest rfl
    exact h.closedAt_after node rest rfl
  constructor
  · intro hconserved
    cases a with
    | response began sender =>
      exact (charged_iff h h' began sender.payload).mp (hconserved.charged began sender rfl)
    | nodeComplete began node rest =>
      have hclosed := hconserved.closed began node rest rfl
      rw [hended began node rest rfl] at hclosed
      exact toList_eq_singleton.mp hclosed
    | skip node rest =>
      have hclosed := hconserved.skipped node rest rfl
      rw [hskipped node rest rfl] at hclosed
      exact toList_eq_nil.mp hclosed
    | _ => trivial
  · intro hmeets
    constructor
    · exact h'.balanced
    · rintro began sender rfl
      exact (charged_iff h h' began sender.payload).mpr hmeets
    · intro began node rest ha
      rw [hended began node rest ha]
      subst ha
      exact toList_eq_singleton.mpr hmeets
    · intro node rest ha
      rw [hskipped node rest ha]
      subst ha
      exact toList_eq_nil.mpr hmeets

/-- Attribution is conserved over a run exactly if no response carries tokens, and a node is
complete only while the last execution that began of it is the one that ends. -/
theorem conserved_iff_meets (life : Life) :
    (∀ t ∈ life.steps, Conserved t) ↔ ∀ t ∈ life.steps, Meets t := by
  have hiff : ∀ t : Transition State Action, Step t.source t.action t.target → Good t.source →
      (Conserved t ↔ Meets t) := by
    rintro ⟨s, a, s'⟩ ⟨-, htarget⟩ h
    dsimp only at htarget h
    rw [htarget]
    exact h.conserved_iff a
  have hnext : ∀ t : Transition State Action, Step t.source t.action t.target → Conserved t →
      Good t.source → Good t.target := by
    intro t hstep _ h
    rw [hstep.2]
    exact h.after t.action
  exact life.run.forall_iff hiff hnext .begin

section Demo

/-- A worker is sent to the model and comes back with ten tokens, of each side. -/
def tenTokens : Sender :=
  .direct "A" "anthropic" "claude" .none ⟨10, 10, 20, none, none, none, none⟩ "stop" 5 1 .none

def startState : State := State.after {} (.pipelineStart .empty)

def nodeState : State := startState.after (.nodeStart "A" .empty)

def tenLife : Life where
  steps := [⟨{}, .pipelineStart .empty, startState⟩, ⟨startState, .nodeStart "A" .empty, nodeState⟩,
    ⟨nodeState, .response (some 1) tenTokens, nodeState.after (.response (some 1) tenTokens)⟩]
  last := nodeState.after (.response (some 1) tenTokens)
  run := by
    have hbegan : BeganAt nodeState.past 1 "A" := ⟨_, rfl⟩
    exact .cons ⟨trivial, rfl⟩ (.cons ⟨trivial, rfl⟩ (.cons ⟨hbegan, rfl⟩ .nil))

/-- The totals stay as they were. -/
theorem tokens_lost : ¬∀ life : Life, ∀ t ∈ life.steps, Conserved t := by
  intro h
  have hconserved := h tenLife ⟨nodeState, .response (some 1) tenTokens, _⟩
    (List.mem_cons_of_mem _ (List.mem_cons_of_mem _ List.mem_cons_self))
  have hcharged := hconserved.charged (some 1) tenTokens rfl
  have htotals := congrFun hcharged.totals .input
  exact absurd htotals (by decide)

end Demo

end Telemetry
end DotRunner
