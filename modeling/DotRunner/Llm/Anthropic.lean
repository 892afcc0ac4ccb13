import DotRunner.Llm.Accumulator
import DotRunner.Llm.AnthropicRequest
import DotRunner.Llm.Validation

/-!
# Streaming from Anthropic

A message is a list of content blocks.  It comes whole, or as events that open
each block, fill it and close it.  The adapter translates both ways, and the
blocks of a stream lose their places in the accumulator.
-/

namespace DotRunner
namespace Llm
namespace Anthropic

open Py

/-! ## What the provider sends -/

/-- A content block of a response. -/
inductive Block where
  | text (text : String)
  | thinking (thinking : String) (signature : Option String)
  | redactedThinking (data : String)
  | toolUse (id name : String) (input : List (String × Value))

/-- The counters of a message; those of the cache need not be there. -/
structure RawUsage where
  inputTokens : Int
  outputTokens : Int
  cacheReadInputTokens : Option Int := none
  cacheCreationInputTokens : Option Int := none

structure RawMessage where
  id : String
  model : String
  content : List Block
  stopReason : Option String
  usage : RawUsage

/-- A block as it is opened: its text and its input are still to come. -/
inductive BlockStart where
  | text
  | thinking
  | toolUse (id name : String)
  | other (type : String)

inductive Delta where
  | text (text : String)
  | inputJson (partialJson : String)
  | thinking (thinking : String)
  | signature (signature : String)
  | other (type : String)

inductive RawEvent where
  | messageStart (id model : String) (inputTokens : Int)
  | contentBlockStart (block : BlockStart)
  | contentBlockDelta (delta : Delta)
  | contentBlockStop
  | messageDelta (stopReason : Option String) (outputTokens : Int)
  | messageStop
  | other (type : String)

/-! ## The maps -/

def finishReasons : List (String × String) :=
  [("end_turn", "stop"), ("stop_sequence", "stop"), ("max_tokens", "length"),
    ("tool_use", "tool_calls")]

def mapFinishReason (stopReason : Option String) : FinishReason :=
  ⟨(finishReasons.lookup (stopReason.getD "")).getD "other", stopReason⟩

def mapUsage (usage : RawUsage) : Usage where
  inputTokens := usage.inputTokens
  outputTokens := usage.outputTokens
  totalTokens := usage.inputTokens + usage.outputTokens
  cacheReadTokens := usage.cacheReadInputTokens
  cacheWriteTokens := usage.cacheCreationInputTokens

def Block.part : Block → ContentPart
  | .text t => .ofText t
  | .toolUse id name input => .ofToolCall { id := id, name := name, arguments := .dict input }
  | .thinking t signature => .ofThinking { text := t, signature := signature }
  | .redactedThinking data => .ofRedacted { text := data, redacted := true }

/-- The blocking call. -/
def translateResponse (raw : RawMessage) : Response where
  id := raw.id
  model := raw.model
  provider := "anthropic"
  message := ⟨.assistant, raw.content.map Block.part, none, none⟩
  finishReason := mapFinishReason raw.stopReason
  usage := mapUsage raw.usage

/-! ## The stream -/

/-- The block types the loop remembers. -/
inductive BlockType where
  | text
  | thinking
  | toolUse
deriving DecidableEq

structure StreamState where
  messageId : String := ""
  model : String
  inputTokens : Int := 0
  outputTokens : Int := 0
  finishReason : FinishReason := { reason := "other" }
  currentBlockType : Option BlockType := none
  currentToolId : String := ""
  currentToolName : String := ""
  toolArgsParts : List String := []

section Stream

variable [Runtime] (s : StreamState)

def blockStart : BlockStart → StreamState × List StreamEvent
  | .text => ({ s with currentBlockType := some .text }, [.ofType .textStart])
  | .toolUse id name =>
    ({ s with
        currentBlockType := some .toolUse
        currentToolId := id
        currentToolName := name
        toolArgsParts := [] },
      [.toolCallStartOf ⟨id, name, .dict [], none⟩])
  | .thinking => ({ s with currentBlockType := some .thinking }, [.ofType .reasoningStart])
  | .other _ => (s, [])

def blockDelta : Delta → StreamState × List StreamEvent
  | .text text => (s, [.textDeltaOf text])
  | .inputJson partialJson =>
    ({ s with toolArgsParts := s.toolArgsParts ++ [partialJson] }, [.toolCallDeltaOf partialJson])
  | .thinking thinking => (s, [.reasoningDeltaOf thinking])
  | .signature _ | .other _ => (s, [])

/-- The call of a block, from all of its input. -/
def toolUseCall (id name argsStr : String) : ToolCall where
  id := id
  name := name
  arguments := parseArguments argsStr
  rawArguments := orNone argsStr

def blockStop : StreamState × List StreamEvent :=
  ({ s with currentBlockType := none },
    match s.currentBlockType with
    | some .text => [.ofType .textEnd]
    | some .toolUse =>
      [.toolCallEndOf (toolUseCall s.currentToolId s.currentToolName (String.join s.toolArgsParts))]
    | some .thinking => [.ofType .reasoningEnd]
    | none => [])

/-- The usage of a stream has no cache counters. -/
def streamUsage : Usage where
  inputTokens := s.inputTokens
  outputTokens := s.outputTokens
  totalTokens := s.inputTokens + s.outputTokens

def step : RawEvent → StreamState × List StreamEvent
  | .messageStart id model inputTokens =>
    ({ s with messageId := id, model := model, inputTokens := inputTokens }, [.ofType .streamStart])
  | .contentBlockStart block => blockStart s block
  | .contentBlockDelta delta => blockDelta s delta
  | .contentBlockStop => blockStop s
  | .messageDelta stopReason outputTokens =>
    ({ s with outputTokens := outputTokens, finishReason := mapFinishReason stopReason }, [])
  | .messageStop =>
    (s, [.finishOf s.messageId s.model "anthropic" s.finishReason (streamUsage s)])
  | .other _ => (s, [])

/-- `AnthropicAdapter.stream` -/
def stream (model : String) (events : List RawEvent) : List StreamEvent :=
  Transducer.emitted step { model := model } events

end Stream

/-! ## Streams of a message -/

/-- A block with the deltas that fill it. -/
inductive ChunkedBlock where
  | text (deltas : List String)
  | thinking (deltas : List String) (signature : Option String)
  | redactedThinking (data : String)
  | toolUse (id name : String) (partials : List String)

namespace ChunkedBlock

/-- Opened, filled and closed. -/
def events : ChunkedBlock → List RawEvent
  | text deltas =>
    .contentBlockStart .text :: deltas.map (.contentBlockDelta ∘ .text) ++ [.contentBlockStop]
  | thinking deltas signature =>
    .contentBlockStart .thinking :: deltas.map (.contentBlockDelta ∘ .thinking) ++
      signature.toList.map (.contentBlockDelta ∘ .signature) ++ [.contentBlockStop]
  | redactedThinking _ => [.contentBlockStart (.other "redacted_thinking"), .contentBlockStop]
  | toolUse id name partials =>
    .contentBlockStart (.toolUse id name) :: partials.map (.contentBlockDelta ∘ .inputJson) ++
      [.contentBlockStop]

/-- The block is this one.  The pieces of an input are JSON when put together;
where there are none the input is empty. -/
def Carries [Runtime] : ChunkedBlock → Block → Prop
  | text deltas, .text t => String.join deltas = t
  | thinking deltas signature, .thinking t signature' =>
    String.join deltas = t ∧ signature = signature'
  | redactedThinking data, .redactedThinking data' => data = data'
  | toolUse id name partials, .toolUse id' name' input =>
    id = id' ∧ name = name' ∧
      (Json.loads (String.join partials).toList = some (.dict input) ∨
        String.join partials = "" ∧ input = [])
  | _, _ => False

end ChunkedBlock

/-- A well-formed stream: the message opens, its blocks follow one another, its
stop reason and its output are told, the last time for good, and it stops. -/
structure Delivery where
  id : String
  model : String
  inputTokens : Int
  blocks : List ChunkedBlock
  updates : List (Option String × Int)
  stopReason : Option String
  outputTokens : Int

def Delivery.events (d : Delivery) : List RawEvent :=
  .messageStart d.id d.model d.inputTokens :: d.blocks.flatMap ChunkedBlock.events ++
    d.updates.map (fun u => .messageDelta u.1 u.2) ++
      [.messageDelta d.stopReason d.outputTokens, .messageStop]

/-- The delivery of this message. -/
structure Delivery.Of [Runtime] (d : Delivery) (m : RawMessage) : Prop where
  id : d.id = m.id
  model : d.model = m.model
  inputTokens : d.inputTokens = m.usage.inputTokens
  outputTokens : d.outputTokens = m.usage.outputTokens
  stopReason : d.stopReason = m.stopReason
  content : List.Forall₂ ChunkedBlock.Carries d.blocks m.content

/-- `ping` and the like, which may stand anywhere. -/
def RawEvent.isOther : RawEvent → Bool
  | .other _ => true
  | _ => false

/-- The events are those of the delivery, and others among them. -/
def Delivery.Within (d : Delivery) (events : List RawEvent) : Prop :=
  events.filter (fun e => !e.isOther) = d.events

/-! ## What the adapter makes of a stream -/

section Run

variable [Runtime]

/-- The events of a block, whatever came before it. -/
def ChunkedBlock.sent : ChunkedBlock → List StreamEvent
  | text deltas => .ofType .textStart :: deltas.map .textDeltaOf ++ [.ofType .textEnd]
  | thinking deltas _ =>
    .ofType .reasoningStart :: deltas.map .reasoningDeltaOf ++ [.ofType .reasoningEnd]
  | redactedThinking _ => []
  | toolUse id name partials =>
    .toolCallStartOf ⟨id, name, .dict [], none⟩ :: partials.map .toolCallDeltaOf ++
      [.toolCallEndOf (toolUseCall id name (String.join partials))]

/-- Between two blocks: none is open, and the message is the one that was opened. -/
structure Resting (id model : String) (inputTokens : Int) (s : StreamState) : Prop where
  messageId : s.messageId = id
  model : s.model = model
  inputTokens : s.inputTokens = inputTokens
  closed : s.currentBlockType = none

/-- The pieces of an input are passed on and kept. -/
theorem run_partials (s : StreamState) (partials : List String) :
    Transducer.Runs step s (partials.map (RawEvent.contentBlockDelta ∘ .inputJson))
      { s with toolArgsParts := s.toolArgsParts ++ partials } (partials.map .toolCallDeltaOf) := by
  induction partials generalizing s with
  | nil =>
    rw [List.append_nil]
    exact .nil s
  | cons p partials ih =>
    have hrest := ih { s with toolArgsParts := s.toolArgsParts ++ [p] }
    rw [List.append_assoc] at hrest
    exact (Transducer.Runs.single s (RawEvent.contentBlockDelta (.inputJson p))).append hrest

theorem run_text (s : StreamState) (deltas : List String) :
    Transducer.Runs step s (ChunkedBlock.text deltas).events { s with currentBlockType := none }
      (ChunkedBlock.text deltas).sent := by
  let opened := { s with currentBlockType := some .text }
  have hopen : Transducer.Runs step s [.contentBlockStart .text] opened [.ofType .textStart] :=
    .single s (RawEvent.contentBlockStart .text)
  have hfill : Transducer.Runs step opened (deltas.map (RawEvent.contentBlockDelta ∘ .text)) opened
      (deltas.map .textDeltaOf) := by
    refine .map (fun delta => ?_) deltas
    rfl
  exact (hopen.append hfill).append (.single opened RawEvent.contentBlockStop)

theorem run_thinking (s : StreamState) (deltas : List String) (signature : Option String) :
    Transducer.Runs step s (ChunkedBlock.thinking deltas signature).events
      { s with currentBlockType := none } (ChunkedBlock.thinking deltas signature).sent := by
  let opened := { s with currentBlockType := some .thinking }
  have hopen : Transducer.Runs step s [.contentBlockStart .thinking] opened
      [.ofType .reasoningStart] := .single s (RawEvent.contentBlockStart .thinking)
  have hfill : Transducer.Runs step opened (deltas.map (RawEvent.contentBlockDelta ∘ .thinking))
      opened (deltas.map .reasoningDeltaOf) := by
    refine .map (fun delta => ?_) deltas
    rfl
  have hsign : Transducer.Runs step opened
      (signature.toList.map (RawEvent.contentBlockDelta ∘ .signature)) opened [] := by
    cases signature with
    | none => exact .nil opened
    | some signature => exact .single opened (RawEvent.contentBlockDelta (.signature signature))
  have hrun := ((hopen.append hfill).append hsign).append
    (.single opened RawEvent.contentBlockStop)
  rw [List.append_nil] at hrun
  exact hrun

theorem run_toolUse (s : StreamState) (id name : String) (partials : List String) :
    Transducer.Runs step s (ChunkedBlock.toolUse id name partials).events
      { s with
        currentBlockType := none
        currentToolId := id
        currentToolName := name
        toolArgsParts := partials } (ChunkedBlock.toolUse id name partials).sent := by
  let opened := { s with
    currentBlockType := some .toolUse
    currentToolId := id
    currentToolName := name
    toolArgsParts := [] }
  have hopen : Transducer.Runs step s [.contentBlockStart (.toolUse id name)] opened
      [.toolCallStartOf ⟨id, name, .dict [], none⟩] :=
    .single s (RawEvent.contentBlockStart (.toolUse id name))
  exact (hopen.append (run_partials opened partials)).append
    (.single { opened with toolArgsParts := partials } RawEvent.contentBlockStop)

/-- The adapter does not open what it does not know, so the stop closes nothing. -/
theorem run_redactedThinking {s : StreamState} (h : s.currentBlockType = none) (data : String) :
    Transducer.Runs step s (ChunkedBlock.redactedThinking data).events s [] := by
  have hstop : step s .contentBlockStop = (s, []) := by
    show blockStop s = _
    cases s
    subst h
    rfl
  refine ⟨?_, ?_⟩
  · show (step s .contentBlockStop).1 = s
    rw [hstop]
  · show (step s .contentBlockStop).2 ++ [] = []
    rw [hstop]
    rfl

theorem run_block {id model : String} {inputTokens : Int} (s : StreamState) (b : ChunkedBlock)
    (h : Resting id model inputTokens s) :
    ∃ s', Transducer.Runs step s b.events s' b.sent ∧ Resting id model inputTokens s' := by
  cases b with
  | text deltas => exact ⟨_, run_text s deltas, h.messageId, h.model, h.inputTokens, rfl⟩
  | thinking deltas signature =>
    exact ⟨_, run_thinking s deltas signature, h.messageId, h.model, h.inputTokens, rfl⟩
  | redactedThinking data => exact ⟨s, run_redactedThinking h.closed data, h⟩
  | toolUse toolId name partials =>
    exact ⟨_, run_toolUse s toolId name partials, h.messageId, h.model, h.inputTokens, rfl⟩

/-- The counters of a stream, as its FINISH has them. -/
def Delivery.usage (d : Delivery) : Usage where
  inputTokens := d.inputTokens
  outputTokens := d.outputTokens
  totalTokens := d.inputTokens + d.outputTokens

/-- What the adapter sends for a well-formed stream. -/
def Delivery.sent (d : Delivery) : List StreamEvent :=
  .ofType .streamStart :: d.blocks.flatMap ChunkedBlock.sent ++
    [.finishOf d.id d.model "anthropic" (mapFinishReason d.stopReason) d.usage]

theorem run_updates (s : StreamState) (updates : List (Option String × Int)) :
    ∃ s', Transducer.Runs step s (updates.map fun u => .messageDelta u.1 u.2) s' [] ∧
      s'.messageId = s.messageId ∧ s'.model = s.model ∧ s'.inputTokens = s.inputTokens := by
  induction updates generalizing s with
  | nil => exact ⟨s, .nil s, rfl, rfl, rfl⟩
  | cons u updates ih =>
    obtain ⟨s', hrun, hid, hmodel, htokens⟩ := ih (step s (.messageDelta u.1 u.2)).1
    exact ⟨s', (Transducer.Runs.single s (RawEvent.messageDelta u.1 u.2)).append hrun, hid, hmodel,
      htokens⟩

theorem stream_eq_sent {d : Delivery} {events : List RawEvent} (h : d.Within events)
    (model : String) : stream model events = d.sent := by
  have hstart : Transducer.Runs step { model := model } [.messageStart d.id d.model d.inputTokens]
      { messageId := d.id, model := d.model, inputTokens := d.inputTokens }
      [.ofType .streamStart] :=
    .single _ (RawEvent.messageStart d.id d.model d.inputTokens)
  obtain ⟨s₁, hblocks, hrest⟩ := Transducer.Runs.flatMap run_block
    (⟨rfl, rfl, rfl, rfl⟩ : Resting d.id d.model d.inputTokens
      { messageId := d.id, model := d.model, inputTokens := d.inputTokens }) d.blocks
  obtain ⟨s₂, hupdates, hid, hmodel, htokens⟩ := run_updates s₁ d.updates
  let told := { s₂ with
    outputTokens := d.outputTokens, finishReason := mapFinishReason d.stopReason }
  have hdelta : Transducer.Runs step s₂ [.messageDelta d.stopReason d.outputTokens] told [] :=
    .single s₂ (RawEvent.messageDelta d.stopReason d.outputTokens)
  have hstop : Transducer.Runs step told [.messageStop] told
      [.finishOf d.id d.model "anthropic" (mapFinishReason d.stopReason) d.usage] := by
    have htold : told.messageId = d.id ∧ told.model = d.model ∧ told.inputTokens = d.inputTokens :=
      ⟨hid.trans hrest.messageId, hmodel.trans hrest.model, htokens.trans hrest.inputTokens⟩
    have husage : streamUsage told = d.usage := by
      rw [streamUsage, Delivery.usage, htold.2.2]
    rw [← husage, ← htold.1, ← htold.2.1]
    exact .single told RawEvent.messageStop
  have hall := ((hstart.append hblocks).append hupdates).append (hdelta.append hstop)
  rw [List.append_nil, List.nil_append] at hall
  have hother : ∀ (s : StreamState) (e : RawEvent), (!e.isOther) = false → step s e = (s, []) := by
    intro s e he
    cases e with
    | other type => rfl
    | _ => cases he
  refine (Transducer.Runs.of_filter hother (?_ : Transducer.Runs step { model := model }
    (events.filter fun e => !e.isOther) told d.sent)).emitted_eq
  rw [h]
  exact hall

end Run

/-! ## The protocol -/

section Protocol

variable [Runtime]

/-- The pieces of the input of a call. -/
def ChunkedBlock.partials : ChunkedBlock → List String
  | .toolUse _ _ partials => partials
  | _ => []

theorem sent_accepted (b : ChunkedBlock) (h : b.partials = []) :
    Transducer.check Validator.next .start b.sent = .ok .start := by
  cases b with
  | text deltas =>
    show Transducer.check Validator.next .start
      (.ofType .textStart :: (deltas.map .textDeltaOf ++ [.ofType .textEnd])) = _
    rw [Transducer.check, Validator.next_textStart rfl]
    show Transducer.check Validator.next { openText := true } _ = _
    rw [Transducer.check_append_ok (Validator.check_textDeltas rfl deltas), Transducer.check,
      Validator.next_textEnd rfl]
    rfl
  | thinking deltas signature =>
    refine Validator.check_of_passes fun e he => ?_
    rcases List.mem_append.mp he with he | he
    · rcases List.mem_cons.mp he with rfl | he
      · rfl
      · obtain ⟨delta, -, rfl⟩ := List.mem_map.mp he
        rfl
    · rw [List.mem_singleton.mp he]
      rfl
  | redactedThinking data => rfl
  | toolUse id name partials =>
    have hnone : partials = [] := h
    subst hnone
    show Transducer.check Validator.next .start [.toolCallStartOf _, .toolCallEndOf _] = _
    rw [Transducer.check, Validator.next_toolCallStart rfl]
    show Transducer.check Validator.next { openTool := true, openToolId := some id }
      [.toolCallEndOf _] = _
    rw [Transducer.check, Validator.next_toolCallEnd rfl rfl]
    rfl

theorem sent_refused (b : ChunkedBlock) (h : b.partials ≠ []) :
    Transducer.Refuses Validator.next .start b.sent := by
  cases b with
  | toolUse id name partials =>
    cases partials with
    | nil => exact absurd rfl h
    | cons p partials =>
      obtain ⟨message, hmessage⟩ := Validator.refuses_toolCallDelta
        { openTool := true, openToolId := some id } p
        (partials.map .toolCallDeltaOf ++
          [.toolCallEndOf (toolUseCall id name (String.join (p :: partials)))])
      refine ⟨message, ?_⟩
      show Transducer.check Validator.next .start (.toolCallStartOf ⟨id, name, .dict [], none⟩ ::
        (.toolCallDeltaOf p :: _)) = _
      rw [Transducer.check, Validator.next_toolCallStart rfl]
      exact hmessage
  | _ => exact absurd rfl h

/-- A stream is rejected as soon as the input of a call comes in pieces: a delta
names no call. -/
theorem stream_accepted_iff {d : Delivery} {events : List RawEvent} (h : d.Within events)
    (model : String) :
    Validator.Accepts (stream model events) ↔ ∀ b ∈ d.blocks, b.partials = [] := by
  obtain ⟨hgood, hbad⟩ := Transducer.check_flatMap sent_accepted sent_refused d.blocks
  have hstart : Transducer.check Validator.next .start [.ofType .streamStart] = .ok .start := rfl
  rw [Validator.Accepts, stream_eq_sent h]
  show (Validator.validateStream "strict" .start ([.ofType .streamStart] ++
    d.blocks.flatMap ChunkedBlock.sent ++ [.finishOf _ _ _ _ _])).2 = none ↔ _
  refine ⟨fun haccept => ?_, fun hall => ?_⟩
  · by_contra hsome
    have hrefused := (hbad hsome).append [.finishOf d.id d.model "anthropic"
      (mapFinishReason d.stopReason) d.usage]
    refine Validator.not_accepted_of_refuses ?_ haccept
    rw [List.append_assoc, Transducer.Refuses, Transducer.check_append_ok hstart]
    exact hrefused
  · rw [Validator.accepted_iff, List.append_assoc, Transducer.check_append_ok hstart,
      Transducer.check_append_ok (hgood hall)]
    refine ⟨{ sawFinish := true }, ?_, rfl⟩
    rw [Transducer.check, Validator.next_finish rfl rfl]
    rfl

end Protocol

end Anthropic
end Llm
end DotRunner
