import DotRunner.Llm.Anthropic
import DotRunner.Py.Ascii

/-!
# Anthropic: the stream and the blocking call

The accumulator has one text, one thought without its signature and the calls,
in this order; the blocking call has the blocks.  They agree on messages that
have this order to begin with.
-/

namespace DotRunner
namespace Llm
namespace Anthropic

open Py

/-! ## The blocks of a message -/

namespace Block

def textual : Block → String
  | text t => t
  | _ => ""

def thought : Block → String
  | thinking t _ => t
  | _ => ""

/-- The part of a call. -/
def callPart : Block → Option ContentPart
  | toolUse id name input => some (part (toolUse id name input))
  | _ => none

end Block

/-- What is left of the blocks in a stream. -/
def accumulatedContent (blocks : List Block) : List ContentPart :=
  let text := String.join (blocks.map Block.textual)
  let thought := String.join (blocks.map Block.thought)
  (if text = "" then [] else [.ofText text]) ++
    (if thought = "" then [] else [.ofThinking { text := thought }]) ++
      blocks.filterMap Block.callPart

/-- A call as it is written down: id, name and input. -/
abbrev ToolUse := String × String × List (String × Value)

def toolBlocks (tools : List ToolUse) : List Block :=
  tools.map fun t => .toolUse t.1 t.2.1 t.2.2

/-- At most one thought, without a signature. -/
def thoughtBlocks (thought : Option String) : List Block :=
  thought.toList.map fun t => .thinking t none

/-- The blocks as the accumulator has them: texts, then at most one thought that
has no signature, then calls; and no text or thought that is empty. -/
def InOrder (blocks : List Block) : Prop :=
  ∃ (texts : List String) (thought : Option String) (tools : List ToolUse),
    blocks = texts.map .text ++ (thoughtBlocks thought ++ toolBlocks tools) ∧
      (texts ≠ [] → String.join texts ≠ "") ∧ thought ≠ some ""

section Content

variable {blocks rest : List Block} {texts : List String}

def Block.isText : Block → Bool
  | .text _ => true
  | _ => false

/-- The texts at the head of a list. -/
theorem exists_texts (blocks : List Block) : ∃ (texts : List String) (rest : List Block),
    blocks = texts.map .text ++ rest ∧ ∀ b, rest.head? = some b → b.isText = false := by
  induction blocks with
  | nil => exact ⟨[], [], rfl, nofun⟩
  | cons b blocks ih =>
    cases hb : b.isText with
    | true =>
      obtain ⟨texts, rest, rfl, hrest⟩ := ih
      cases b with
      | text t => exact ⟨t :: texts, rest, rfl, hrest⟩
      | _ => cases hb
    | false => exact ⟨[], b :: blocks, rfl, fun c hc => Option.some.inj hc ▸ hb⟩

theorem isText_iff (b : Block) : b.part.kind = .text ↔ b.isText = true := by
  cases b with
  | text t => exact iff_of_true rfl rfl
  | _ => exact iff_of_false nofun nofun

theorem not_startsWithText (h : ∀ b, rest.head? = some b → b.isText = false) :
    ¬startsWithText (rest.map Block.part) := by
  cases rest with
  | nil => exact id
  | cons b rest =>
    intro htext
    have hb : b.isText = true := (isText_iff b).mp htext
    rw [h b rfl] at hb
    cases hb

theorem join_textual (texts : List String) (rest : List Block) :
    String.join ((texts.map Block.text ++ rest).map Block.textual) =
      String.join texts ++ String.join (rest.map Block.textual) := by
  rw [List.map_append, String.join_append, List.map_map]
  exact congrArg (String.join · ++ _) (List.map_id texts)

theorem join_thought (texts : List String) (rest : List Block) :
    String.join ((texts.map Block.text ++ rest).map Block.thought) =
      String.join (rest.map Block.thought) := by
  induction texts with
  | nil => rfl
  | cons t texts ih =>
    rw [List.map_cons, List.cons_append, List.map_cons, String.join_cons, ih]
    exact String.empty_append

theorem callPart_texts (texts : List String) (rest : List Block) :
    (texts.map Block.text ++ rest).filterMap Block.callPart = rest.filterMap Block.callPart := by
  induction texts with
  | nil => rfl
  | cons t texts ih => exact ih

/-- The accumulated thought and the calls: no text among them. -/
def thoughtAndCalls (blocks : List Block) : List ContentPart :=
  (if String.join (blocks.map Block.thought) = "" then []
    else [.ofThinking { text := String.join (blocks.map Block.thought) }]) ++
      blocks.filterMap Block.callPart

theorem thoughtAndCalls_kind (blocks : List Block) :
    ∀ part ∈ thoughtAndCalls blocks, part.kind ≠ .text := by
  intro part hmem
  rcases List.mem_append.mp hmem with hmem | hmem
  · by_cases h : String.join (blocks.map Block.thought) = ""
    · rw [if_pos h] at hmem
      cases hmem
    · rw [if_neg h] at hmem
      rw [List.mem_singleton.mp hmem]
      exact nofun
  · obtain ⟨b, -, hb⟩ := List.mem_filterMap.mp hmem
    cases b with
    | toolUse id name input =>
      rw [← Option.some.inj hb]
      exact nofun
    | _ => cases hb

/-- Blocks that are all calls. -/
theorem exists_tools (h : ∀ b ∈ rest, b.part.kind = .toolCall) :
    ∃ tools : List ToolUse, rest = toolBlocks tools := by
  induction rest with
  | nil => exact ⟨[], rfl⟩
  | cons b rest ih =>
    obtain ⟨tools, rfl⟩ := ih fun c hc => h c (List.mem_cons_of_mem _ hc)
    have hb := h b List.mem_cons_self
    cases b with
    | toolUse id name input => exact ⟨(id, name, input) :: tools, rfl⟩
    | _ => cases hb

theorem callPart_kind {part : ContentPart} (h : part ∈ rest.filterMap Block.callPart) :
    part.kind = .toolCall := by
  obtain ⟨b, -, hb⟩ := List.mem_filterMap.mp h
  cases b with
  | toolUse id name input =>
    rw [← Option.some.inj hb]
    rfl
  | _ => cases hb

/-- Blocks without a text at their head, if they are as the accumulator has them. -/
theorem exists_thought (h : rest.map Block.part = thoughtAndCalls rest) :
    ∃ (thought : Option String) (tools : List ToolUse),
      rest = thoughtBlocks thought ++ toolBlocks tools ∧ thought ≠ some "" := by
  rw [thoughtAndCalls] at h
  by_cases hthought : String.join (rest.map Block.thought) = ""
  · rw [if_pos hthought, List.nil_append] at h
    obtain ⟨tools, htools⟩ := exists_tools fun b hb =>
      callPart_kind (h ▸ List.mem_map_of_mem hb)
    exact ⟨none, tools, htools, nofun⟩
  · rw [if_neg hthought] at h
    cases rest with
    | nil => exact absurd rfl hthought
    | cons b rest =>
      obtain ⟨hhead, htail⟩ := List.cons.inj h
      cases b with
      | thinking t signature =>
        have hdata := Option.some.inj (congrArg ContentPart.thinking hhead)
        have hsignature : signature = none := congrArg ThinkingData.signature hdata
        have htext : t = _ := congrArg ThinkingData.text hdata
        have hparts : rest.map Block.part = rest.filterMap Block.callPart := htail
        obtain ⟨tools, rfl⟩ := exists_tools fun c hc =>
          callPart_kind (hparts ▸ List.mem_map_of_mem hc)
        subst hsignature
        refine ⟨some t, tools, rfl, fun hempty => hthought ?_⟩
        exact htext.symm.trans (Option.some.inj hempty)
      | _ => cases congrArg ContentPart.kind hhead

theorem callPart_toolBlocks (tools : List ToolUse) :
    (toolBlocks tools).filterMap Block.callPart = (toolBlocks tools).map Block.part := by
  induction tools with
  | nil => rfl
  | cons t tools ih => exact congrArg (Block.part (.toolUse t.1 t.2.1 t.2.2) :: ·) ih

theorem thought_toolBlocks (tools : List ToolUse) :
    String.join ((toolBlocks tools).map Block.thought) = "" := by
  induction tools with
  | nil => rfl
  | cons t tools ih =>
    show String.join ("" :: (toolBlocks tools).map Block.thought) = ""
    rw [String.join_cons, ih]
    rfl

/-- What comes after the texts. -/
theorem thoughtAndCalls_blocks {thought : Option String} (hthought : thought ≠ some "")
    (tools : List ToolUse) : thoughtAndCalls (thoughtBlocks thought ++ toolBlocks tools) =
      (thoughtBlocks thought ++ toolBlocks tools).map Block.part := by
  rw [thoughtAndCalls]
  cases thought with
  | none =>
    show (if String.join ((toolBlocks tools).map Block.thought) = "" then _ else _) ++
      (toolBlocks tools).filterMap Block.callPart = (toolBlocks tools).map Block.part
    rw [if_pos (thought_toolBlocks tools), callPart_toolBlocks]
    rfl
  | some t =>
    have ht : t ≠ "" := fun h => hthought (congrArg some h)
    have hjoin : String.join ((thoughtBlocks (some t) ++ toolBlocks tools).map Block.thought) =
        t := by
      show String.join (t :: (toolBlocks tools).map Block.thought) = t
      rw [String.join_cons, thought_toolBlocks, String.append_empty]
    rw [hjoin, if_neg ht]
    show [_] ++ (toolBlocks tools).filterMap Block.callPart = _
    rw [callPart_toolBlocks]
    rfl

theorem accumulatedContent_eq (blocks : List Block) : accumulatedContent blocks =
    (if String.join (blocks.map Block.textual) = "" then []
      else [.ofText (String.join (blocks.map Block.textual))]) ++ thoughtAndCalls blocks :=
  List.append_assoc ..

/-- There is at most one text to begin with. -/
theorem mergeTexts_accumulated (blocks : List Block) :
    mergeTexts (accumulatedContent blocks) = accumulatedContent blocks := by
  have hself := mergeTexts_eq_self (thoughtAndCalls_kind blocks)
  have hstart : ¬startsWithText (thoughtAndCalls blocks) := by
    have hkind := thoughtAndCalls_kind blocks
    cases h : thoughtAndCalls blocks with
    | nil => exact id
    | cons part parts => exact hkind part (h ▸ List.mem_cons_self)
  rw [accumulatedContent_eq]
  by_cases htext : String.join (blocks.map Block.textual) = ""
  · rw [if_pos htext]
    exact hself
  · rw [if_neg htext]
    show consPart _ (mergeTexts (thoughtAndCalls blocks)) = _
    rw [hself, consPart_eq_cons (.inr hstart)]
    rfl

/-- The parts after the texts, which have to be the thought and the calls. -/
theorem rest_eq_of_merged (hblocks : blocks = texts.map .text ++ rest)
    (hrest : ∀ b, rest.head? = some b → b.isText = false)
    (h : accumulatedContent blocks = mergeTexts (blocks.map Block.part)) :
    mergeTexts (rest.map Block.part) = thoughtAndCalls rest ∧
      (texts ≠ [] → String.join texts ≠ "") := by
  have hkind := thoughtAndCalls_kind rest
  have hparts : blocks.map Block.part = texts.map .ofText ++ rest.map Block.part := by
    rw [hblocks, List.map_append, List.map_map]
    rfl
  have htac : thoughtAndCalls blocks = thoughtAndCalls rest := by
    rw [thoughtAndCalls, thoughtAndCalls, hblocks, join_thought, callPart_texts]
  rw [accumulatedContent_eq, htac, hparts] at h
  cases texts with
  | nil =>
    refine ⟨?_, fun hne => absurd rfl hne⟩
    by_cases htext : String.join (blocks.map Block.textual) = ""
    · rw [if_pos htext] at h
      exact h.symm
    · rw [if_neg htext] at h
      have hstart : startsWithText (mergeTexts (rest.map Block.part)) := by
        rw [List.map_nil, List.nil_append] at h
        rw [← h]
        rfl
      exact absurd ((startsWithText_mergeTexts _).mp hstart) (not_startsWithText hrest)
  | cons t texts =>
    rw [mergeTexts_texts (not_startsWithText hrest)] at h
    by_cases htext : String.join (blocks.map Block.textual) = ""
    · rw [if_pos htext, List.nil_append] at h
      exact absurd rfl (hkind (.ofText _) (h ▸ List.mem_cons_self))
    · rw [if_neg htext] at h
      obtain ⟨hhead, htail⟩ := List.cons.inj h
      have hjoin := Option.some.inj (congrArg ContentPart.text hhead)
      exact ⟨htail.symm, fun _ => hjoin ▸ htext⟩

theorem textual_eq_empty (h : ∀ part ∈ rest.map Block.part, part.kind ≠ .text) :
    String.join (rest.map Block.textual) = "" := by
  induction rest with
  | nil => rfl
  | cons b rest ih =>
    rw [List.map_cons, String.join_cons, ih fun p hp => h p (List.mem_cons_of_mem _ hp)]
    cases b with
    | text t => exact absurd rfl (h _ List.mem_cons_self)
    | _ => rfl

/-- Texts that are not all empty, and then what the accumulator has as it is. -/
theorem merged_of_rest (hrest : thoughtAndCalls rest = rest.map Block.part)
    (htexts : texts ≠ [] → String.join texts ≠ "") :
    accumulatedContent (texts.map Block.text ++ rest) =
      mergeTexts ((texts.map Block.text ++ rest).map Block.part) := by
  have hkind : ∀ part ∈ rest.map Block.part, part.kind ≠ .text :=
    hrest ▸ thoughtAndCalls_kind rest
  have hstart : ¬startsWithText (rest.map Block.part) := by
    cases h : rest.map Block.part with
    | nil => exact id
    | cons part parts => exact hkind part (h ▸ List.mem_cons_self)
  have htext : String.join ((texts.map Block.text ++ rest).map Block.textual) = String.join texts := by
    rw [join_textual, textual_eq_empty hkind, String.append_empty]
  have htac : thoughtAndCalls (texts.map Block.text ++ rest) = rest.map Block.part := by
    rw [← hrest, thoughtAndCalls, thoughtAndCalls, join_thought, callPart_texts]
  have hparts : (texts.map Block.text ++ rest).map Block.part =
      texts.map .ofText ++ rest.map Block.part := by
    rw [List.map_append, List.map_map]
    rfl
  rw [accumulatedContent_eq, htac, htext, hparts]
  cases texts with
  | nil => exact (mergeTexts_eq_self hkind).symm
  | cons t texts =>
    rw [if_neg (htexts nofun), mergeTexts_texts hstart, mergeTexts_eq_self hkind]
    rfl

/-- The accumulated message is the blocking one exactly for blocks in order. -/
theorem accumulatedContent_merged_iff (blocks : List Block) :
    mergeTexts (accumulatedContent blocks) = mergeTexts (blocks.map Block.part) ↔
      InOrder blocks := by
  rw [mergeTexts_accumulated]
  refine ⟨fun h => ?_, fun ⟨texts, thought, tools, hblocks, htexts, hthought⟩ => ?_⟩
  · obtain ⟨texts, rest, hblocks, hrest⟩ := exists_texts blocks
    obtain ⟨hmerged, htexts⟩ := rest_eq_of_merged hblocks hrest h
    have hnoText : ∀ part ∈ rest.map Block.part, part.kind ≠ .text := by
      intro part hmem hpart
      obtain ⟨p, hp, hkind⟩ := exists_text_mergeTexts ⟨part, hmem, hpart⟩
      exact thoughtAndCalls_kind rest p (hmerged ▸ hp) hkind
    obtain ⟨thought, tools, hrest', hthought⟩ :=
      exists_thought ((mergeTexts_eq_self hnoText).symm.trans hmerged)
    exact ⟨texts, thought, tools, hrest' ▸ hblocks, htexts, hthought⟩
  · rw [hblocks]
    exact merged_of_rest (thoughtAndCalls_blocks hthought tools) htexts

end Content

section Accumulated

variable [Runtime]

theorem parseArguments_of_carries {partials : List String} {input : List (String × Value)}
    (h : Json.loads (String.join partials).toList = some (.dict input) ∨
      String.join partials = "" ∧ input = []) :
    parseArguments (String.join partials) = .dict input := by
  rw [parseArguments]
  rcases h with h | ⟨hempty, rfl⟩
  · by_cases hempty : String.join partials = ""
    · rw [hempty] at h
      cases h
    · rw [if_neg hempty, h]
      rfl
  · rw [if_pos hempty]

/-- Block by block, the stream says the text, the thought and the call. -/
theorem said_of_carries {c : ChunkedBlock} {b : Block} (h : c.Carries b) :
    textOf c.sent = b.textual ∧ reasoningOf c.sent = b.thought ∧
      (callsOf c.sent).map (fun call => ContentPart.ofToolCall call.data) = b.callPart.toList := by
  cases c with
  | text deltas =>
    cases b with
    | text t =>
      have hjoin : String.join deltas = t := h
      refine ⟨?_, ?_, ?_⟩
      · rw [ChunkedBlock.sent, textOf_append, textOf_cons, textOf_deltas, hjoin]
        exact String.append_empty.trans String.empty_append
      · rw [ChunkedBlock.sent, reasoningOf_append, reasoningOf_cons,
          reasoningOf_map_silent deltas fun _ => rfl]
        rfl
      · rw [ChunkedBlock.sent, callsOf_append, callsOf_cons, callsOf_map_silent deltas fun _ => rfl]
        rfl
    | _ => exact h.elim
  | thinking deltas signature =>
    cases b with
    | thinking t signature' =>
      have hjoin : String.join deltas = t := h.1
      refine ⟨?_, ?_, ?_⟩
      · rw [ChunkedBlock.sent, textOf_append, textOf_cons, textOf_map_silent deltas fun _ => rfl]
        rfl
      · rw [ChunkedBlock.sent, reasoningOf_append, reasoningOf_cons, reasoningOf_deltas, hjoin]
        exact String.append_empty.trans String.empty_append
      · rw [ChunkedBlock.sent, callsOf_append, callsOf_cons, callsOf_map_silent deltas fun _ => rfl]
        rfl
    | _ => exact h.elim
  | redactedThinking data =>
    cases b with
    | redactedThinking data' => exact ⟨rfl, rfl, rfl⟩
    | _ => exact h.elim
  | toolUse id name partials =>
    cases b with
    | toolUse id' name' input =>
      obtain ⟨rfl, rfl, hinput⟩ := h
      refine ⟨?_, ?_, ?_⟩
      · rw [ChunkedBlock.sent, textOf_append, textOf_cons, textOf_map_silent partials fun _ => rfl]
        rfl
      · rw [ChunkedBlock.sent, reasoningOf_append, reasoningOf_cons,
          reasoningOf_map_silent partials fun _ => rfl]
        rfl
      · rw [ChunkedBlock.sent, callsOf_append, callsOf_cons,
          callsOf_map_silent partials fun _ => rfl]
        show [ContentPart.ofToolCall ⟨id, name, parseArguments (String.join partials), "function"⟩] =
          _
        rw [parseArguments_of_carries hinput]
        rfl
    | _ => exact h.elim

theorem said_of_delivery {cs : List ChunkedBlock} {bs : List Block}
    (h : List.Forall₂ ChunkedBlock.Carries cs bs) :
    textOf (cs.flatMap ChunkedBlock.sent) = String.join (bs.map Block.textual) ∧
      reasoningOf (cs.flatMap ChunkedBlock.sent) = String.join (bs.map Block.thought) ∧
        (callsOf (cs.flatMap ChunkedBlock.sent)).map (fun call => ContentPart.ofToolCall call.data) =
          bs.filterMap Block.callPart := by
  induction h with
  | nil => exact ⟨rfl, rfl, rfl⟩
  | @cons c b cs bs hcarries _ ih =>
    obtain ⟨htext, hthought, hcalls⟩ := said_of_carries hcarries
    obtain ⟨ihtext, ihthought, ihcalls⟩ := ih
    refine ⟨?_, ?_, ?_⟩
    · rw [List.flatMap_cons, textOf_append, htext, ihtext, List.map_cons, String.join_cons]
    · rw [List.flatMap_cons, reasoningOf_append, hthought, ihthought, List.map_cons,
        String.join_cons]
    · rw [List.flatMap_cons, callsOf_append, List.map_append, hcalls, ihcalls,
        List.filterMap_cons]
      cases b.callPart <;> rfl

theorem sent_unnamed (d : Delivery) : Unnamed d.sent := by
  have hblock : ∀ b : ChunkedBlock, Unnamed b.sent := by
    intro b e he
    cases b with
    | text deltas =>
      simp only [ChunkedBlock.sent, List.cons_append, List.mem_cons, List.mem_append, List.mem_map,
        List.not_mem_nil, or_false] at he
      rcases he with rfl | ⟨delta, -, rfl⟩ | rfl <;> rfl
    | thinking deltas signature =>
      simp only [ChunkedBlock.sent, List.cons_append, List.mem_cons, List.mem_append, List.mem_map,
        List.not_mem_nil, or_false] at he
      rcases he with rfl | ⟨delta, -, rfl⟩ | rfl <;> rfl
    | redactedThinking data => cases he
    | toolUse id name partials =>
      simp only [ChunkedBlock.sent, List.cons_append, List.mem_cons, List.mem_append, List.mem_map,
        List.not_mem_nil, or_false] at he
      rcases he with rfl | ⟨delta, -, rfl⟩ | rfl <;> rfl
  intro e he
  rcases List.mem_append.mp he with he | he
  · rcases List.mem_cons.mp he with rfl | he
    · rfl
    · obtain ⟨b, -, hmem⟩ := List.mem_flatMap.mp he
      exact hblock b e hmem
  · rw [List.mem_singleton.mp he]
    rfl

variable [CostTable] {d : Delivery} {m : RawMessage} {events : List RawEvent}

/-- The accumulated response, from the blocks. -/
theorem accumulated_content (h : d.Of m) (hevents : d.Within events) (model : String) :
    (StreamAccumulator.processAll {} (stream model events)).response.message.content =
      accumulatedContent m.content := by
  obtain ⟨htext, hthought, hcalls⟩ := said_of_delivery h.content
  rw [stream_eq_sent hevents, StreamAccumulator.response_content (sent_unnamed d)]
  have hwhole : textOf d.sent = String.join (m.content.map Block.textual) ∧
      reasoningOf d.sent = String.join (m.content.map Block.thought) ∧
        callsOf d.sent = callsOf (d.blocks.flatMap ChunkedBlock.sent) := by
    refine ⟨?_, ?_, ?_⟩
    · rw [Delivery.sent, textOf_append, textOf_cons, htext]
      exact String.append_empty.trans String.empty_append
    · rw [Delivery.sent, reasoningOf_append, reasoningOf_cons, hthought]
      exact String.append_empty.trans String.empty_append
    · rw [Delivery.sent, callsOf_append, callsOf_cons]
      exact List.append_nil _
  rw [StreamAccumulator.assembled, hwhole.1, hwhole.2.1, hwhole.2.2, hcalls]
  rfl

/-- The FINISH of a stream is its last event. -/
theorem accumulated_finish (h : d.Of m) (hevents : d.Within events) (model : String) :
    (StreamAccumulator.processAll {} (stream model events)).response.finishReason =
        mapFinishReason m.stopReason ∧
      (StreamAccumulator.processAll {} (stream model events)).response.usage.counts =
        ⟨m.usage.inputTokens, m.usage.outputTokens, m.usage.inputTokens + m.usage.outputTokens,
          none, none, none, none⟩ := by
  rw [stream_eq_sent hevents]
  obtain ⟨hreason, husage⟩ := StreamAccumulator.response_finish
    (.ofType .streamStart :: d.blocks.flatMap ChunkedBlock.sent) d.id d.model "anthropic"
    (mapFinishReason d.stopReason) d.usage
  refine ⟨?_, husage.trans ?_⟩
  · rw [← h.stopReason]
    exact hreason
  · rw [Delivery.usage, h.inputTokens, h.outputTokens]
    rfl

/-- A block as a request sends it back. -/
def Block.sentBack : Block → ContentBlock
  | text t => .text t
  | thinking t signature => .thinking t (signature.getD "")
  | redactedThinking data => .redactedThinking data
  | toolUse id name input => .toolUse id name (.dict input)

omit [CostTable] in
theorem translateAssistantContent_blocks (blocks : List Block) :
    translateAssistantContent (blocks.map Block.part) = .ok (blocks.map Block.sentBack) := by
  induction blocks with
  | nil => rfl
  | cons b blocks ih =>
    have hpart : translateAssistantPart b.part = .ok b.sentBack := by cases b <;> rfl
    rw [translateAssistantContent, List.map_cons, List.mapM_cons, hpart]
    show (translateAssistantContent (blocks.map Block.part) >>= _) = _
    rw [ih]
    rfl

omit [Runtime] [CostTable] in
/-- What is accumulated are blocks again. -/
theorem exists_blocks (blocks : List Block) :
    ∃ left : List Block, accumulatedContent blocks = left.map Block.part := by
  have hcalls : ∃ left : List Block, blocks.filterMap Block.callPart = left.map Block.part := by
    induction blocks with
    | nil => exact ⟨[], rfl⟩
    | cons b blocks ih =>
      obtain ⟨left, hleft⟩ := ih
      cases b with
      | toolUse id name input =>
        exact ⟨.toolUse id name input :: left, congrArg (Block.part (.toolUse id name input) :: ·) hleft⟩
      | _ => exact ⟨left, hleft⟩
  obtain ⟨left, hleft⟩ := hcalls
  refine ⟨(if String.join (blocks.map Block.textual) = "" then []
    else [.text (String.join (blocks.map Block.textual))]) ++
      (if String.join (blocks.map Block.thought) = "" then []
        else [.thinking (String.join (blocks.map Block.thought)) none]) ++ left, ?_⟩
  rw [accumulatedContent, hleft, List.map_append, List.map_append]
  split <;> split <;> rfl

/-- The accumulated response is the one of the blocking call, up to texts that
are put together, and sends the blocks of the message back. -/
structure AgreesWithCall (model : String) (events : List RawEvent) (m : RawMessage) : Prop where
  message : (StreamAccumulator.processAll {} (stream model events)).response.message.merged =
    (translateResponse m).message.merged
  finishReason : (StreamAccumulator.processAll {} (stream model events)).response.finishReason =
    (translateResponse m).finishReason
  usage : (StreamAccumulator.processAll {} (stream model events)).response.usage.counts =
    (translateResponse m).usage.counts
  replay : ∃ blocks : List Block,
    translateAssistantContent
        (StreamAccumulator.processAll {} (stream model events)).response.message.content =
      .ok (blocks.map Block.sentBack) ∧
    mergeTexts (blocks.map Block.part) = mergeTexts (m.content.map Block.part)

/-- A stream agrees with the blocking call exactly for blocks in order, and
without cache counters. -/
theorem accumulated_agrees_iff (h : d.Of m) (hevents : d.Within events) (model : String) :
    AgreesWithCall model events m ↔
      InOrder m.content ∧ m.usage.cacheReadInputTokens = none ∧
        m.usage.cacheCreationInputTokens = none := by
  have hcontent := accumulated_content h hevents model
  obtain ⟨hreason, husage⟩ := accumulated_finish h hevents model
  refine ⟨fun hagrees => ?_, fun ⟨horder, hread, hwrite⟩ => ?_⟩
  · have hmerged : mergeTexts (accumulatedContent m.content) =
        mergeTexts (m.content.map Block.part) := by
      rw [← hcontent]
      exact congrArg Message.content hagrees.message
    have hcounts := husage.symm.trans hagrees.usage
    exact ⟨(accumulatedContent_merged_iff m.content).mp hmerged,
      (congrArg Usage.cacheReadTokens hcounts).symm, (congrArg Usage.cacheWriteTokens hcounts).symm⟩
  · have hmerged := (accumulatedContent_merged_iff m.content).mpr horder
    refine ⟨?_, hreason, ?_, ?_⟩
    · show (⟨.assistant, mergeTexts _, none, none⟩ : Message) =
        ⟨.assistant, mergeTexts (m.content.map Block.part), none, none⟩
      rw [hcontent, hmerged]
    · rw [husage]
      show _ = (mapUsage m.usage).counts
      rw [mapUsage, hread, hwrite]
      rfl
    · obtain ⟨blocks, hblocks⟩ := exists_blocks m.content
      refine ⟨blocks, ?_, ?_⟩
      · rw [hcontent, hblocks, translateAssistantContent_blocks]
      · rw [← hblocks, hmerged]

end Accumulated

section Demo

open Py.Ascii Unpriced

def greeting : RawMessage where
  id := "msg"
  model := "claude"
  content := [.text "Hi"]
  stopReason := some "end_turn"
  usage := { inputTokens := 3, outputTokens := 1 }

def greetingStream : Delivery where
  id := "msg"
  model := "claude"
  inputTokens := 3
  blocks := [.text ["H", "i"]]
  updates := []
  stopReason := some "end_turn"
  outputTokens := 1

theorem accumulated_agrees_greeting : AgreesWithCall "claude" greetingStream.events greeting := by
  have hof : greetingStream.Of greeting :=
    ⟨rfl, rfl, rfl, rfl, rfl, .cons (by decide : String.join ["H", "i"] = "Hi") .nil⟩
  have horder : InOrder greeting.content := ⟨["Hi"], none, [], rfl, fun _ => by decide, nofun⟩
  have hwithin : greetingStream.Within greetingStream.events := rfl
  exact (accumulated_agrees_iff hof hwithin "claude").mpr ⟨horder, rfl, rfl⟩

/-- A thought with its signature, and then a text. -/
def considered : RawMessage := { greeting with content := [.thinking "Hm" (some "sig"), .text "Hi"] }

def consideredStream : Delivery :=
  { greetingStream with blocks := [.thinking ["Hm"] (some "sig"), .text ["Hi"]] }

/-- The thought comes after the text, and without the signature. -/
theorem thought_out_of_order : consideredStream.Of considered ∧
    ¬AgreesWithCall "claude" consideredStream.events considered := by
  refine ⟨⟨rfl, rfl, rfl, rfl, rfl, .cons ⟨by decide, rfl⟩ (.cons
    (by decide : String.join ["Hi"] = "Hi") .nil)⟩, fun h => ?_⟩
  have hkinds := congrArg (fun m : Message => m.content.map ContentPart.kind) h.message
  exact absurd hkinds (by decide)

end Demo

end Anthropic
end Llm
end DotRunner
