import DotRunner.Agent.Pairing
import DotRunner.Llm.Requests

/-!
# The adapter to the unified client

A session hands its messages to `UnifiedProviderAdapter`, which translates their
contents and drops those that come to nothing.  The calls of an assistant message
stand outside its content, and are not translated.
-/

namespace DotRunner
namespace Agent

open Behaviour Py

/-! ## Translation -/

def translateRole : MessageRole → Llm.Role
  | .system => .system
  | .user => .user
  | .assistant => .assistant
  | .tool => .tool
  | .developer => .developer
  | .function => .tool

def translateBlock : ContentBlock → Option Llm.ContentPart
  | .text text => if hasText text then some (.ofText text) else none
  | .thinking thinking signature => some (.ofThinking { text := thinking, signature := signature })

def translateContent : MessageContent → List Llm.ContentPart
  | .text text => if hasText text then [.ofText text] else []
  | .blocks blocks => blocks.filterMap translateBlock

def toolResultPart (toolCallId content : String) : Llm.ContentPart where
  kind := .toolResult
  toolResult := some { toolCallId := toolCallId, content := .str content }

section Adapter

/- `str(msg.content)` of a list of blocks is the concern of `amplifier_core`. -/
variable (blocksStr : List ContentBlock → String)

def contentStr : MessageContent → String
  | .text text => text
  | .blocks blocks => blocksStr blocks

/-- `None` for a message that comes to nothing. -/
def translateMessage (m : Message) : Option Llm.Message :=
  match m.role, m.toolCallId.filter (· ≠ "") with
  | .tool, some toolCallId =>
    let content := contentStr blocksStr m.content
    some {
      role := .tool
      content := [toolResultPart toolCallId (if hasText content then content else "(no output)")]
      toolCallId := some toolCallId }
  | role, _ =>
    match translateContent m.content with
    | [] => none
    | part :: parts =>
      some { role := translateRole role, content := part :: parts, toolCallId := m.toolCallId }

def translateRequest (messages : List Message) : Llm.Request where
  messages := messages.filterMap (translateMessage blocksStr)

/-! ## What is promised -/

/-- The calls that a translated message makes. -/
def callsOf (m : Llm.Message) : List Llm.ToolCallData :=
  m.content.filterMap fun part => if part.kind = .toolCall then part.toolCall else none

/-- The results that a translated message carries. -/
def resultsOf (m : Llm.Message) : List Llm.ToolResultData :=
  m.content.filterMap fun part => if part.kind = .toolResult then part.toolResult else none

structure Preserves (messages : List Message) : Prop where
  /-- every call is in the translation of its message -/
  calls : ∀ m ∈ messages, m.role = .assistant → ∀ c ∈ m.toolCalls,
    ∃ m', translateMessage blocksStr m = some m' ∧
      ∃ call ∈ callsOf m', call.id = c.id ∧ call.name = c.name ∧ call.arguments = c.arguments
  /-- every tool message is a result for a call translated before it -/
  results : ∀ earlier m later, messages = earlier ++ m :: later → m.role = .tool →
    ∃ m', translateMessage blocksStr m = some m' ∧
      ∃ result ∈ resultsOf m', ∃ call ∈ (translateRequest blocksStr earlier).messages.flatMap callsOf,
        call.id = result.toolCallId
  /-- no message with calls is dropped -/
  kept : ∀ m ∈ messages, m.toolCalls ≠ [] → translateMessage blocksStr m ≠ none

/-! ## What is lost -/

theorem callsOf_translateMessage {m : Message} {m' : Llm.Message}
    (h : translateMessage blocksStr m = some m') : callsOf m' = [] := by
  have hblocks : ∀ part ∈ translateContent m.content, part.kind ≠ .toolCall := by
    intro part hpart
    cases hcontent : m.content with
    | text text =>
      rw [hcontent, translateContent] at hpart
      split at hpart
      · rw [List.mem_singleton.mp hpart]
        exact fun h => nomatch h
      · cases hpart
    | blocks blocks =>
      rw [hcontent, translateContent] at hpart
      obtain ⟨block, -, hblock⟩ := List.mem_filterMap.mp hpart
      cases block with
      | text text =>
        rw [translateBlock] at hblock
        split at hblock
        · rw [← Option.some.inj hblock]
          exact fun h => nomatch h
        · cases hblock
      | thinking thinking signature =>
        rw [← Option.some.inj hblock]
        exact fun h => nomatch h
  unfold translateMessage at h
  split at h
  · rw [← Option.some.inj h]
    rfl
  · split at h
    · cases h
    · rename_i part parts hcontent
      rw [← Option.some.inj h]
      refine List.filterMap_eq_nil_iff.mpr fun p hp => if_neg ?_
      rw [hcontent] at hblocks
      exact hblocks p hp

/-- The messages of a history without calls carry neither calls nor results. -/
theorem converted_plain {turns : List Turn} (h : Balanced turns)
    (hnone : ∀ turn, .assistant turn ∈ turns → turn.toolCalls = []) (keepFrom : Int)
    (ordinal : Nat) :
    ∀ m ∈ converted keepFrom ordinal turns, m.role ≠ .tool ∧ m.toolCalls = [] := by
  induction h generalizing ordinal with
  | nil => exact fun _ h => nomatch h
  | user content _ ih | steering content _ ih =>
    refine List.forall_mem_cons.mpr ⟨⟨fun h => (nomatch h), rfl⟩, ?_⟩
    exact ih (fun turn hturn => hnone turn (List.mem_cons_of_mem _ hturn)) ordinal
  | answer turn hcalls _ ih =>
    rw [converted_answer keepFrom ordinal hcalls]
    refine List.forall_mem_cons.mpr ⟨⟨fun h => (nomatch h), ?_⟩, ?_⟩
    · rw [buildAssistantMessage, hcalls]
      rfl
    · exact ih (fun turn hturn => hnone turn (List.mem_cons_of_mem _ hturn)) ordinal
  | batch turn results hsome => exact absurd (hnone turn List.mem_cons_self) hsome

theorem mem_converted {turns : List Turn} (h : Balanced turns) {turn : AssistantTurn}
    (hturn : .assistant turn ∈ turns) (keepFrom : Int) (ordinal : Nat) :
    buildAssistantMessage turn ∈ converted keepFrom ordinal turns := by
  induction h generalizing ordinal with
  | nil => cases hturn
  | user content _ ih | steering content _ ih =>
    rcases List.mem_cons.mp hturn with h | h
    · cases h
    · exact List.mem_cons_of_mem _ (ih h ordinal)
  | answer turn' hcalls _ ih =>
    rw [converted_answer keepFrom ordinal hcalls]
    rcases List.mem_cons.mp hturn with h | h
    · rw [Turn.assistant.inj h]
      exact List.mem_cons_self
    · exact List.mem_cons_of_mem _ (ih h ordinal)
  | batch turn' results hsome _ _ ih =>
    rw [converted_batch keepFrom ordinal hsome]
    rcases List.mem_cons.mp hturn with h | h
    · rw [Turn.assistant.inj h]
      exact List.mem_cons_self
    · rcases List.mem_cons.mp h with h | h
      · cases h
      · exact List.mem_cons_of_mem _ (List.mem_append_right _ (ih h _))

/-- A request is translated with all it says exactly if no call was made so far. -/
theorem preserves_iff {s : Session} (h : Balanced s.history) (systemText : String) :
    Preserves blocksStr (s.messages systemText) ↔
      ∀ turn, .assistant turn ∈ s.history → turn.toolCalls = [] := by
  rw [Session.messages, messagesKeeping_eq h]
  constructor
  · intro hpreserves turn hturn
    by_contra hsome
    obtain ⟨c, calls, hcalls⟩ := List.exists_cons_of_ne_nil hsome
    obtain ⟨m', hm', call, hcall, -⟩ := hpreserves.calls (buildAssistantMessage turn)
      (List.mem_cons_of_mem _ (mem_converted h hturn _ 0)) rfl
      ⟨c.id, c.name, c.name, c.arguments⟩ (by
        rw [buildAssistantMessage, hcalls]
        exact List.mem_cons_self)
    rw [callsOf_translateMessage blocksStr hm'] at hcall
    cases hcall
  · intro hnone
    have hall : ∀ m ∈ ({ role := .system, content := .text systemText } : Message) ::
        converted (keepFrom s.history s.config.toolResultRetentionTurns) 0 s.history,
        m.role ≠ .tool ∧ m.toolCalls = [] :=
      List.forall_mem_cons.mpr ⟨⟨fun h => (by cases h), rfl⟩, converted_plain h hnone _ 0⟩
    refine ⟨fun m hm _ c hc => ?_, fun earlier m later hsplit hrole => ?_, fun m hm hcalls => ?_⟩
    · rw [(hall m hm).2] at hc
      cases hc
    · refine absurd hrole (hall m ?_).1
      rw [hsplit]
      exact List.mem_append_right _ List.mem_cons_self
    · exact absurd (hall m hm).2 hcalls

/-- Every request of the life is translated with all it says just if no call was made before. -/
def Life.TranslatedIffPlain [Signatures] {config : SessionConfig} (life : Life config) : Prop :=
  ∀ t ∈ life.steps, ∀ messages, request? t = some messages →
    (Preserves blocksStr messages ↔
      ∀ turn, .assistant turn ∈ t.source.history → turn.toolCalls = [])

theorem translated_iff_plain [Signatures] {config : SessionConfig} (life : Life config) :
    life.TranslatedIffPlain blocksStr := by
  intro t ht messages hmessages
  obtain ⟨hstep, earlier, -, hrun⟩ := life.run.before ht
  obtain ⟨hplaced, hkept⟩ := Session.placed_and_kept hrun
  obtain ⟨hbalanced, systemText, rfl⟩ := request?_eq_some hstep hplaced hkept hmessages
  exact preserves_iff blocksStr hbalanced systemText

theorem not_preserves_of_dropped {messages : List Message}
    (h : (messages.any fun m => !m.toolCalls.isEmpty && (translateMessage blocksStr m).isNone) =
      true) : ¬Preserves blocksStr messages := by
  obtain ⟨m, hm, hdropped⟩ := List.any_eq_true.mp h
  simp only [Bool.and_eq_true, Bool.not_eq_true', List.isEmpty_eq_false_iff,
    Option.isNone_iff_eq_none] at hdropped
  exact fun hpreserves => hpreserves.kept m hm hdropped.1 hdropped.2

end Adapter

section Demo

open Unsigned

/-- The answer is a call and nothing else. -/
def callAlone : List Action :=
  [.processInput "go" [], .proceed "You run tools.",
    .provider (.response ⟨"", none, none, [⟨"a", "read", .dict []⟩]⟩),
    .tools (.finished fun _ => ⟨true, "done"⟩), .proceed "You run tools."]

def callAloneLife : Life { systemPrompt := "You run tools." } := .play _ callAlone (by decide +kernel)

/-- The step that sends the second request. -/
def secondRequest : Transition Session Action := callAloneLife.steps.get ⟨4, by decide +kernel⟩

/-- In the second request the message with the call is dropped. -/
theorem call_alone_dropped : ∃ (config : SessionConfig) (life : Life config),
    ∃ t ∈ life.steps, ∃ messages, request? t = some messages ∧
      ¬Preserves (fun _ => "") messages :=
  ⟨_, callAloneLife, secondRequest, List.get_mem _ _, (request? secondRequest).get (by decide +kernel),
    (Option.some_get _).symm, not_preserves_of_dropped _ (by decide +kernel)⟩

end Demo

end Agent
end DotRunner
