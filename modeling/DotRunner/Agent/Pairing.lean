import DotRunner.Agent.Steps

/-!
# Calls and results stay paired

The results of a batch are appended right after the turn that made the calls, one for
each, or the session stays in a state it never asks the provider from.  So a history
from which a request is made is a list of whole batches, and the conversion gives
each result the id of its call.
-/

namespace DotRunner
namespace Agent

open Behaviour

/-! ## Paired messages -/

/-- The ids answered before the next assistant message. -/
def answersOf (rest : List Message) : List (Option String) :=
  ((rest.takeWhile (·.role ≠ .assistant)).filter (·.role = .tool)).map (·.toolCallId)

/-- The calls of each assistant message are answered once each, in order, before the next one. -/
def CallsAnswered : List Message → Prop
  | [] => True
  | m :: rest =>
    (m.role = .assistant → answersOf rest = m.toolCalls.map fun c => some c.id) ∧ CallsAnswered rest

/-- Each tool message has the id of a call of the nearest assistant message before it, whose
calls are given at the start. -/
def ResultsCarried (nearest : List CallEntry) : List Message → Prop
  | [] => True
  | m :: rest =>
    (m.role = .tool → ∃ c ∈ nearest, m.toolCallId = some c.id) ∧
      ResultsCarried (if m.role = .assistant then m.toolCalls else nearest) rest

/-- One system message, the first. -/
def SystemFirst : List Message → Prop
  | [] => False
  | m :: rest => m.role = .system ∧ ∀ m' ∈ rest, m'.role ≠ .system

/-- The batches of calls in a list of messages. -/
def batches (messages : List Message) : Nat := messages.countP fun m => !m.toolCalls.isEmpty

/-- The first list is the second but for the contents of tool messages that are followed by at
least `retention` batches. -/
inductive Retains (retention : Int) : List Message → List Message → Prop where
  | nil : Retains retention [] []
  | kept (m : Message) {l l₀ : List Message} (h : Retains retention l l₀) :
      Retains retention (m :: l) (m :: l₀)
  | elided (m : Message) (content : MessageContent) {l l₀ : List Message} (hrole : m.role = .tool)
      (hon : 0 < retention) (hold : retention ≤ batches l₀) (h : Retains retention l l₀) :
      Retains retention ({ m with content := content } :: l) (m :: l₀)

namespace Retains

variable {retention : Int}

theorem refl (l : List Message) : Retains retention l l := by
  induction l with
  | nil => exact .nil
  | cons m l ih => exact .kept m ih

theorem append {l₁ l₁' l₂ l₂' : List Message} (h : Retains retention l₂ l₂')
    (h' : List.Forall₂ (fun m m₀ => m = m₀ ∨ (m₀.role = .tool ∧ 0 < retention ∧
      retention ≤ batches l₂' ∧ ∃ content, m = { m₀ with content := content })) l₁ l₁') :
    Retains retention (l₁ ++ l₂) (l₁' ++ l₂') := by
  induction h' with
  | nil => exact h
  | @cons m m₀ l₁ l₁' hm _ ih =>
    rcases hm with rfl | ⟨hrole, hon, hold, content, rfl⟩
    · exact .kept m ih
    · refine .elided m₀ content hrole hon ?_ ih
      rw [List.append_eq, batches, List.countP_append]
      unfold batches at hold
      omega

end Retains

/-! ## Histories made of whole batches -/

inductive Balanced : List Turn → Prop where
  | nil : Balanced []
  | user (content : String) {l : List Turn} (h : Balanced l) : Balanced (.user content :: l)
  | steering (content : String) {l : List Turn} (h : Balanced l) : Balanced (.steering content :: l)
  | answer (turn : AssistantTurn) {l : List Turn} (hnone : turn.toolCalls = []) (h : Balanced l) :
      Balanced (.assistant turn :: l)
  | batch (turn : AssistantTurn) (results : List ToolResult) {l : List Turn}
      (hsome : turn.toolCalls ≠ []) (hlength : results.length = turn.toolCalls.length)
      (h : Balanced l) : Balanced (.assistant turn :: .toolResults results :: l)

namespace Balanced

theorem append {l l' : List Turn} (h : Balanced l) (h' : Balanced l') : Balanced (l ++ l') := by
  induction h with
  | nil => exact h'
  | user content _ ih => exact .user content ih
  | steering content _ ih => exact .steering content ih
  | answer turn hnone _ ih => exact .answer turn hnone ih
  | batch turn results hsome hlength _ ih => exact .batch turn results hsome hlength ih

theorem map_steering (messages : List String) : Balanced (messages.map .steering) := by
  induction messages with
  | nil => exact .nil
  | cons message messages ih => exact .steering message ih

theorem replayed (seeded : List SeededMessage) :
    Balanced (seeded.filterMap SeededMessage.turn?) := by
  induction seeded with
  | nil => exact .nil
  | cons m seeded ih =>
    cases m with
    | user content => exact .user content ih
    | assistant content => exact .answer { content := content } rfl ih
    | system content => exact ih
    | other => exact ih

end Balanced

/-! ## Their messages -/

/-- The messages of the turns, from a batch of the given ordinal on. -/
def converted (keepFrom : Int) (ordinal : Nat) (turns : List Turn) : List Message :=
  Transducer.emitted (convertTurn keepFrom) ⟨[], ordinal⟩ turns

/-- The messages of a batch. -/
def resultMessages (elide : Bool) (calls : List ToolCall) (results : List ToolResult) : List Message :=
  results.mapIdx fun i result => toolMessage elide calls[i]? result

theorem converted_answer (keepFrom : Int) (ordinal : Nat) {turn : AssistantTurn}
    (hnone : turn.toolCalls = []) (l : List Turn) :
    converted keepFrom ordinal (.assistant turn :: l) =
      buildAssistantMessage turn :: converted keepFrom ordinal l := by
  have hempty : turn.toolCalls.isEmpty = true := List.isEmpty_iff.mpr hnone
  rw [converted, Transducer.emitted, convertTurn, hempty]
  rfl

theorem converted_batch (keepFrom : Int) (ordinal : Nat) {turn : AssistantTurn}
    (hsome : turn.toolCalls ≠ []) (results : List ToolResult) (l : List Turn) :
    converted keepFrom ordinal (.assistant turn :: .toolResults results :: l) =
      buildAssistantMessage turn ::
        (resultMessages (decide ((ordinal : Int) < keepFrom)) turn.toolCalls results ++
          converted keepFrom (ordinal + 1) l) := by
  have hempty : turn.toolCalls.isEmpty = false := List.isEmpty_eq_false_iff.mpr hsome
  rw [converted, Transducer.emitted, convertTurn, hempty]
  rfl

theorem resultMessages_role {elide : Bool} {calls : List ToolCall} {results : List ToolResult} :
    ∀ m ∈ resultMessages elide calls results, m.role = .tool ∧ m.toolCalls = [] := by
  intro m hm
  obtain ⟨i, hi, rfl⟩ := List.mem_mapIdx.mp hm
  exact ⟨rfl, rfl⟩

/-- As many results as calls, each with the id of the call in its place. -/
theorem resultMessages_ids (elide : Bool) {calls : List ToolCall} {results : List ToolResult}
    (hlength : results.length = calls.length) :
    (resultMessages elide calls results).map (·.toolCallId) = calls.map fun c => some c.id := by
  apply List.ext_getElem
  · simp only [resultMessages, List.length_map, List.length_mapIdx, hlength]
  · intro i h h'
    simp only [List.length_map] at h'
    simp only [resultMessages, List.getElem_map, List.getElem_mapIdx, toolMessage,
      List.getElem?_eq_getElem h', Option.map_some]

theorem answersOf_results_append {results rest : List Message}
    (h : ∀ m ∈ results, m.role = .tool ∧ m.toolCalls = []) :
    answersOf (results ++ rest) = results.map (·.toolCallId) ++ answersOf rest := by
  induction results with
  | nil => rfl
  | cons m results ih =>
    have hm := (h m List.mem_cons_self).1
    have hrest := ih fun m' h' => h m' (List.mem_cons_of_mem _ h')
    rw [List.cons_append, answersOf, List.takeWhile_cons_of_pos (by simp [hm]),
      List.filter_cons_of_pos (by simp [hm]), List.map_cons, List.map_cons, List.cons_append, ← hrest]
    rfl

theorem answersOf_cons_of_other {m : Message} {rest : List Message} (hassistant : m.role ≠ .assistant)
    (htool : m.role ≠ .tool) : answersOf (m :: rest) = answersOf rest := by
  rw [answersOf, List.takeWhile_cons_of_pos (by simp [hassistant]),
    List.filter_cons_of_neg (by simp [htool])]
  rfl

theorem answersOf_cons_assistant {m : Message} {rest : List Message} (h : m.role = .assistant) :
    answersOf (m :: rest) = [] := by
  rw [answersOf, List.takeWhile_cons_of_neg (by simp [h])]
  rfl

theorem countP_batch (turn : AssistantTurn) (results : List ToolResult) (l : List Turn) :
    List.countP Turn.isToolResults (.assistant turn :: .toolResults results :: l) =
      List.countP Turn.isToolResults l + 1 := by
  rw [List.countP_cons_of_neg Bool.false_ne_true, List.countP_cons_of_pos rfl]

section Converted

variable {turns : List Turn} (h : Balanced turns)

include h

theorem answersOf_converted (keepFrom : Int) (ordinal : Nat) :
    answersOf (converted keepFrom ordinal turns) = [] := by
  induction h generalizing ordinal with
  | nil => rfl
  | user content _ ih =>
    refine Eq.trans (answersOf_cons_of_other ?_ ?_) (ih ordinal) <;> exact fun h => nomatch h
  | steering content _ ih =>
    refine Eq.trans (answersOf_cons_of_other ?_ ?_) (ih ordinal) <;> exact fun h => nomatch h
  | answer turn hnone _ _ =>
    rw [converted_answer keepFrom ordinal hnone]
    exact answersOf_cons_assistant rfl
  | batch turn results hsome _ _ _ =>
    rw [converted_batch keepFrom ordinal hsome]
    exact answersOf_cons_assistant rfl

theorem callsAnswered_converted (keepFrom : Int) (ordinal : Nat) :
    CallsAnswered (converted keepFrom ordinal turns) := by
  have hskip : ∀ {results rest : List Message}, (∀ m ∈ results, m.role = .tool ∧ m.toolCalls = []) →
      CallsAnswered rest → CallsAnswered (results ++ rest) := by
    intro results rest hresults hrest
    induction results with
    | nil => exact hrest
    | cons m results ih =>
      refine ⟨fun hm => ?_, ih fun m' h' => hresults m' (List.mem_cons_of_mem _ h')⟩
      rw [(hresults m List.mem_cons_self).1] at hm
      cases hm
  induction h generalizing ordinal with
  | nil => trivial
  | user content _ ih => exact ⟨fun h => (nomatch h), ih ordinal⟩
  | steering content _ ih => exact ⟨fun h => (nomatch h), ih ordinal⟩
  | answer turn hnone hl ih =>
    rw [converted_answer keepFrom ordinal hnone]
    refine ⟨fun _ => ?_, ih ordinal⟩
    rw [answersOf_converted hl, buildAssistantMessage, hnone]
    rfl
  | batch turn results hsome hlength hl ih =>
    rw [converted_batch keepFrom ordinal hsome]
    refine ⟨fun _ => ?_, hskip resultMessages_role (ih _)⟩
    rw [answersOf_results_append resultMessages_role, answersOf_converted hl, List.append_nil,
      resultMessages_ids _ hlength, buildAssistantMessage, List.map_map]
    rfl

theorem resultsCarried_converted (keepFrom : Int) (ordinal : Nat) (nearest : List CallEntry) :
    ResultsCarried nearest (converted keepFrom ordinal turns) := by
  have hskip : ∀ {results rest : List Message} {nearest : List CallEntry},
      (∀ m ∈ results, m.role = .tool ∧ m.toolCalls = []) →
      (∀ m ∈ results, ∃ c ∈ nearest, m.toolCallId = some c.id) →
      ResultsCarried nearest rest → ResultsCarried nearest (results ++ rest) := by
    intro results rest nearest hresults hids hrest
    induction results with
    | nil => exact hrest
    | cons m results ih =>
      refine ⟨fun _ => hids m List.mem_cons_self, ?_⟩
      rw [if_neg (by simp [(hresults m List.mem_cons_self).1])]
      exact ih (fun m' h' => hresults m' (List.mem_cons_of_mem _ h'))
        fun m' h' => hids m' (List.mem_cons_of_mem _ h')
  induction h generalizing ordinal nearest with
  | nil => trivial
  | user content _ ih => exact ⟨fun h => (nomatch h), ih ordinal nearest⟩
  | steering content _ ih => exact ⟨fun h => (nomatch h), ih ordinal nearest⟩
  | answer turn hnone _ ih =>
    rw [converted_answer keepFrom ordinal hnone]
    exact ⟨fun h => (nomatch h), ih ordinal _⟩
  | batch turn results hsome hlength _ ih =>
    rw [converted_batch keepFrom ordinal hsome]
    refine ⟨fun h => (nomatch h), hskip resultMessages_role (fun m hm => ?_) (ih _ _)⟩
    have hid : m.toolCallId ∈ turn.toolCalls.map fun c => some c.id := by
      rw [← resultMessages_ids _ hlength]
      exact List.mem_map_of_mem hm
    obtain ⟨c, hc, heq⟩ := List.mem_map.mp hid
    exact ⟨⟨c.id, c.name, c.name, c.arguments⟩, List.mem_map_of_mem hc, heq.symm⟩

theorem converted_not_system (keepFrom : Int) (ordinal : Nat) :
    ∀ m ∈ converted keepFrom ordinal turns, m.role ≠ .system := by
  induction h generalizing ordinal with
  | nil => exact fun _ h => nomatch h
  | user content _ ih => exact List.forall_mem_cons.mpr ⟨fun h => (nomatch h), ih ordinal⟩
  | steering content _ ih => exact List.forall_mem_cons.mpr ⟨fun h => (nomatch h), ih ordinal⟩
  | answer turn hnone _ ih =>
    rw [converted_answer keepFrom ordinal hnone]
    exact List.forall_mem_cons.mpr ⟨fun h => (nomatch h), ih ordinal⟩
  | batch turn results hsome _ _ ih =>
    rw [converted_batch keepFrom ordinal hsome]
    refine List.forall_mem_cons.mpr ⟨fun h => (nomatch h), List.forall_mem_append.mpr ⟨?_, ih _⟩⟩
    intro m hm hsystem
    rw [(resultMessages_role m hm).1] at hsystem
    cases hsystem

/-- Each batch of results goes with one batch of calls. -/
theorem batches_converted (keepFrom : Int) (ordinal : Nat) :
    batches (converted keepFrom ordinal turns) = turns.countP Turn.isToolResults := by
  have hresults : ∀ (elide : Bool) (calls : List ToolCall) (results : List ToolResult),
      batches (resultMessages elide calls results) = 0 := by
    intro elide calls results
    refine List.countP_eq_zero.mpr fun m hm => ?_
    rw [(resultMessages_role m hm).2]
    exact Bool.false_ne_true
  induction h generalizing ordinal with
  | nil => rfl
  | user content _ ih => exact ih ordinal
  | steering content _ ih => exact ih ordinal
  | answer turn hnone _ ih =>
    rw [converted_answer keepFrom ordinal hnone, batches, List.countP_cons_of_neg]
    · exact ih ordinal
    · rw [buildAssistantMessage, hnone]
      exact Bool.false_ne_true
  | batch turn results hsome _ _ ih =>
    rw [converted_batch keepFrom ordinal hsome, batches, List.countP_cons_of_pos,
      List.countP_append]
    · have hzero := hresults (decide ((ordinal : Int) < keepFrom)) turn.toolCalls results
      have hrest := ih (ordinal + 1)
      unfold batches at hzero hrest
      rw [hzero, hrest, Nat.zero_add, countP_batch]
    · simpa [buildAssistantMessage] using hsome

/-- With `turns` the last ones of a history, eliding keeps to the window. -/
theorem retains_converted {keepFrom retention : Int} (ordinal : Nat)
    (hkeep : keepFrom = -1 ∨ (0 < retention ∧
      keepFrom = (ordinal + turns.countP Turn.isToolResults : Nat) - retention)) :
    Retains retention (converted keepFrom ordinal turns) (converted (-1) ordinal turns) := by
  induction h generalizing ordinal with
  | nil => exact .nil
  | user content _ ih => exact .kept _ (ih ordinal hkeep)
  | steering content _ ih => exact .kept _ (ih ordinal hkeep)
  | answer turn hnone _ ih =>
    rw [converted_answer keepFrom ordinal hnone, converted_answer (-1) ordinal hnone]
    exact .kept _ (ih ordinal hkeep)
  | @batch turn results l hsome _ hl ih =>
    rw [converted_batch keepFrom ordinal hsome, converted_batch (-1) ordinal hsome]
    rw [countP_batch] at hkeep
    refine .kept _ (Retains.append (ih (ordinal + 1) (by omega)) ?_)
    have hnever : decide ((ordinal : Int) < -1) = false := decide_eq_false (by omega)
    rw [hnever]
    by_cases helide : (ordinal : Int) < keepFrom
    · have hbounds : 0 < retention ∧ retention ≤ batches (converted (-1) (ordinal + 1) l) := by
        rw [batches_converted hl]
        omega
      refine List.forall₂_iff_get.mpr ⟨?_, fun i h h' => .inr ⟨?_, hbounds.1, hbounds.2, ?_⟩⟩
      · simp only [resultMessages, List.length_mapIdx]
      · exact (resultMessages_role _ (List.get_mem _ _)).1
      · simp only [resultMessages, List.get_eq_getElem, List.getElem_mapIdx]
        exact ⟨_, rfl⟩
    · rw [decide_eq_false helide]
      exact List.forall₂_same.mpr fun m _ => .inl rfl

end Converted

/-! ## Sessions -/

namespace Session

/-- The history of a session between two invocations, unless it cannot start another. -/
def Rested (s : Session) : Prop :=
  s.state = .processing ∨ s.state = .closed ∨ Balanced s.history

/-- While a batch is under way the history ends with its calls. -/
def Kept (s : Session) : Prop :=
  match s.location with
  | .executing _ calls => ∃ (earlier : List Turn) (turn : AssistantTurn),
      s.history = earlier ++ [.assistant turn] ∧ turn.toolCalls = calls ∧ calls ≠ [] ∧
        Balanced earlier
  | .resting _ => s.Rested
  | .looping _ | .calling _ _ | .followingUp _ => Balanced s.history

theorem kept_of_balanced {s : Session} (h : Balanced s.history)
    (hloc : ∀ vars calls, s.location ≠ .executing vars calls) : s.Kept := by
  unfold Kept
  cases hat : s.location with
  | executing vars calls => exact absurd hat (hloc vars calls)
  | resting last => exact .inr (.inr h)
  | looping vars => exact h
  | calling vars messages => exact h
  | followingUp result => exact h

theorem rested_of_kept {s : Session} (h : s.Kept) (hrest : s.AtRest) : s.Rested := by
  obtain ⟨last, hloc⟩ := hrest
  rwa [Kept, hloc] at h

theorem balanced_of_rested {s : Session} (h : s.Rested)
    (hstate : s.state = .idle ∨ s.state = .awaitingInput) : Balanced s.history := by
  rcases h with h | h | h
  · rw [h] at hstate
    rcases hstate with hstate | hstate <;> cases hstate
  · rw [h] at hstate
    rcases hstate with hstate | hstate <;> cases hstate
  · exact h

theorem kept_begun {s : Session} (h : Balanced s.history) (replayed : List SeededMessage)
    (events : List Event) (prompt : String) : (s.begun replayed events prompt).Kept :=
  ((h.append (.replayed replayed)).append (.user prompt .nil)).append
    (.map_steering s.steeringQueue)

theorem kept_step [Signatures] {s s' : Session} {a : Action} (hstep : Step s a s')
    (hplaced : s.Placed) (h : s.Kept) : s'.Kept := by
  cases effect_of_step hstep hplaced with
  | steer | followUp | setCancellation => exact h
  | begin prompt seeded replayed events hrest hidle =>
    exact kept_begun (balanced_of_rested (rested_of_kept h hrest) (.inl hidle)) _ _ _
  | resume answer seeded replayed events hrest hawaiting =>
    exact kept_begun (balanced_of_rested (rested_of_kept h hrest) (.inr hawaiting)) _ _ _
  | refusePrompt prompt seeded replayed events hrest =>
    rcases rested_of_kept h hrest with hstate | hstate | hbalanced
    · exact .inl hstate
    · exact .inr (.inl hstate)
    · exact .inr (.inr (hbalanced.append (.replayed replayed)))
  | refuseAnswer answer seeded hrest =>
    have hrested : s.Rested := rested_of_kept h hrest
    exact hrested
  | shutdown events hrest =>
    obtain ⟨last, hloc⟩ := hrest
    unfold Kept
    simp only [hloc]
    exact .inr (.inl rfl)
  | roundLimit vars systemText hloc | cancel vars systemText hloc
  | turnLimit vars systemText hloc | contextLimit vars messages hloc
  | immediateCancel vars messages r hloc =>
    rw [Kept, hloc] at h
    exact h.append .nil
  | noPrompt vars systemText hloc | retryable vars messages hloc | cancelledCall vars messages hloc =>
    rw [Kept, hloc] at h
    exact .inr (.inr h)
  | request vars systemText hloc =>
    rw [Kept, hloc] at h
    exact h
  | fail => exact .inr (.inl rfl)
  | answer vars messages r hloc =>
    rw [Kept, hloc] at h
    exact h.append (.answer _ rfl .nil)
  | question vars messages r hloc =>
    rw [Kept, hloc] at h
    refine kept_of_balanced (h.append (.answer _ rfl .nil)) fun vars calls => ?_
    show (if s.followUpDepth = 0 then _ else _) ≠ _
    split <;> exact fun h => by cases h
  | calls vars vars' messages r hloc himmediate hcalls =>
    rw [Kept, hloc] at h
    exact ⟨s.history, _, rfl, rfl, hcalls, h⟩
  | batch vars toolCalls given results warnings detector hloc hresults =>
    rw [Kept, hloc] at h
    obtain ⟨earlier, turn, hhistory, hcalls, hsome, hearlier⟩ := h
    have hlength : results.length = turn.toolCalls.length := by
      rw [hcalls]
      exact length_executeToolCalls hresults
    have hbatch : Balanced (s.history ++ [.toolResults results]) := by
      rw [hhistory, List.append_assoc]
      exact hearlier.append (.batch turn results (hcalls ▸ hsome) hlength .nil)
    exact (hbatch.append (.map_steering s.steeringQueue)).append (.map_steering warnings)
  | batchRaises vars toolCalls given e hloc =>
    -- The calls stay unanswered, and the state stays `processing`.
    rw [Placed, hloc] at hplaced
    exact .inl hplaced
  | nextFollowUp result systemText message rest replayed events hloc =>
    rw [Kept, hloc] at h
    exact kept_begun (s := { s with followUpQueue := rest }) h _ _ _
  | lostFollowUp result systemText message rest replayed events hloc =>
    rw [Kept, hloc] at h
    exact .inr (.inr (h.append (.replayed replayed)))
  | noMoreFollowUps result systemText hloc =>
    rw [Kept, hloc] at h
    refine kept_of_balanced h fun vars calls => ?_
    show (if s.followUpDepth - 1 = 0 then _ else _) ≠ _
    split <;> exact fun h => by cases h
  | fault cancelled hbusy =>
    cases hloc : s.location with
    | resting last => exact absurd ⟨last, hloc⟩ hbusy
    | executing vars calls =>
      rw [Placed, hloc] at hplaced
      exact .inl hplaced
    | looping vars | calling vars messages | followingUp result =>
      rw [Kept, hloc] at h
      exact .inr (.inr h)

theorem placed_and_kept [Signatures] {config : SessionConfig} {ts : List (Transition Session Action)}
    {s : Session} (run : Run Step (.new config) ts s) : s.Placed ∧ s.Kept :=
  run.invariant (P := fun s => s.Placed ∧ s.Kept)
    (fun _ _ _ hstep h => ⟨placed_step hstep h.1, kept_step hstep h.1 h.2⟩)
    ⟨placed_new config, .inr (.inr .nil)⟩

end Session

/-- The messages that a step sends to the provider. -/
def request? (t : Transition Session Action) : Option (List Message) :=
  match t.source.location, t.target.location with
  | .looping _, .calling _ messages => some messages
  | _, _ => none

/-- A request is built from the history of a session in its loop. -/
theorem request?_eq_some [Signatures] {t : Transition Session Action}
    (hstep : Session.Step t.source t.action t.target) (hplaced : t.source.Placed)
    (hkept : t.source.Kept) {messages : List Message} (h : request? t = some messages) :
    Balanced t.source.history ∧ ∃ systemText, messages = t.source.messages systemText := by
  obtain ⟨s, a, s'⟩ := t
  unfold request? at h
  split at h
  case h_2 => cases h
  case h_1 vars vars' sent hloc hloc' =>
    obtain rfl := Option.some.inj h
    simp only at hloc hloc' hstep hplaced hkept ⊢
    have heffect := Session.effect_of_step hstep hplaced
    rw [Session.Kept, hloc] at hkept
    refine ⟨hkept, ?_⟩
    cases heffect with
    | request _ systemText => exact ⟨systemText, (Location.calling.inj hloc').2.symm⟩
    | steer | followUp | setCancellation | shutdown =>
      rw [hloc] at hloc'
      cases hloc'
    | question _ _ _ hat =>
      rw [hloc] at hat
      cases hat
    | noMoreFollowUps _ _ hat =>
      rw [hloc] at hat
      cases hat
    | _ => cases hloc'

/-- Calls and results are paired in the messages, and only old results are elided. -/
structure PairedRequest (s : Session) (messages : List Message) : Prop where
  systemFirst : SystemFirst messages
  callsAnswered : CallsAnswered messages
  resultsCarried : ResultsCarried [] messages
  retained : ∃ systemText, messages = s.messages systemText ∧
    Retains s.config.toolResultRetentionTurns messages (s.messagesKeeping 0 systemText)

theorem messagesKeeping_eq {s : Session} (h : Balanced s.history) (retention : Int)
    (systemText : String) : s.messagesKeeping retention systemText =
      { role := .system, content := .text systemText } ::
        converted (keepFrom s.history retention) 0 s.history := by
  have hnone : ∀ {turns : List Turn}, Balanced turns → turns.filterMap systemMessage? = [] := by
    intro turns hturns
    induction hturns with
    | nil => rfl
    | user _ _ ih | steering _ _ ih | answer _ _ _ ih | batch _ _ _ _ _ ih => exact ih
  rw [Session.messagesKeeping, convertHistoryToMessages, hnone h, List.nil_append]
  refine congrArg _ (List.filter_eq_self.mpr fun m hm => decide_eq_true ?_)
  exact converted_not_system h _ 0 m hm

theorem pairedRequest {s : Session} (h : Balanced s.history) (systemText : String) :
    PairedRequest s (s.messages systemText) where
  systemFirst := by
    rw [Session.messages, messagesKeeping_eq h]
    exact ⟨rfl, converted_not_system h _ 0⟩
  callsAnswered := by
    rw [Session.messages, messagesKeeping_eq h]
    exact ⟨fun h => (nomatch h), callsAnswered_converted h _ 0⟩
  resultsCarried := by
    rw [Session.messages, messagesKeeping_eq h]
    exact ⟨fun h => (nomatch h), resultsCarried_converted h _ 0 []⟩
  retained := by
    refine ⟨systemText, rfl, ?_⟩
    rw [Session.messages, messagesKeeping_eq h, messagesKeeping_eq h]
    refine .kept _ (retains_converted h 0 ?_)
    rw [Nat.zero_add, keepFrom]
    split
    · exact .inr ⟨by omega, rfl⟩
    · exact .inl rfl

/-- Every request sent in a life of a session has its calls and results paired. -/
def Life.Paired [Signatures] {config : SessionConfig} (life : Life config) : Prop :=
  ∀ t ∈ life.steps, ∀ messages, request? t = some messages → PairedRequest t.source messages

theorem requests_paired [Signatures] {config : SessionConfig} (life : Life config) :
    life.Paired := by
  intro t ht messages hmessages
  obtain ⟨hstep, earlier, -, hrun⟩ := life.run.before ht
  obtain ⟨hplaced, hkept⟩ := Session.placed_and_kept hrun
  obtain ⟨hbalanced, systemText, rfl⟩ := request?_eq_some hstep hplaced hkept hmessages
  exact pairedRequest hbalanced systemText

section Demo

open Unsigned

/-- One round of two calls, of which the retained window keeps the results. -/
def roundOfTwo : List Action :=
  [.processInput "go" [], .proceed "You run tools.",
    .provider (.response ⟨"", none, none, [⟨"a", "read", .dict []⟩, ⟨"b", "list", .dict []⟩]⟩),
    .tools (.finished fun _ => ⟨true, "done"⟩), .proceed "You run tools."]

example : ((Life.play { systemPrompt := "You run tools." } roundOfTwo (by decide +kernel)).steps.filterMap
    request?).map (fun messages => messages.map (·.toolCallId)) =
      [[none, none], [none, none, none, some "a", some "b"]] := by
  decide +kernel

end Demo

end Agent
end DotRunner
