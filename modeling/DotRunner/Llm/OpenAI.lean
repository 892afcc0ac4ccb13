import DotRunner.Llm.Accumulator
import DotRunner.Llm.Validation
import DotRunner.Py.Ascii

/-!
# Streaming from OpenAI

The output of a response is a list of messages and function calls.  A call is
announced by its arguments, piece by piece and then whole, and by the item they
belong to, or by the item alone.
-/

namespace DotRunner
namespace Llm
namespace OpenAI

open Py

/-! ## What the provider sends -/

/-- A field that is not there reads as the empty text. -/
structure FunctionCall where
  callId : String := ""
  id : String := ""
  name : String := ""
  arguments : String := ""

inductive OutputItem where
  /-- the texts of a message; what else it contains is not looked at -/
  | message (texts : List String)
  | functionCall (call : FunctionCall)
  | other (type : String)

structure RawUsage where
  inputTokens : Option Int := none
  outputTokens : Option Int := none
  totalTokens : Option Int := none
  /-- of the output details -/
  reasoningTokens : Option Int := none
  /-- of the input details -/
  cachedTokens : Option Int := none

structure RawResponse where
  id : String := ""
  model : String := ""
  status : Option String := some ""
  output : List OutputItem := []
  usage : Option RawUsage := none

/-- A piece of the arguments: the item is always named, the call need not be. -/
structure ArgumentsDelta where
  callId : String := ""
  itemId : String := ""
  name : String := ""
  delta : String := ""

inductive RawEvent where
  | created (response : Option String)
  | outputTextDelta (delta : String)
  | outputTextDone
  | argumentsDelta (delta : ArgumentsDelta)
  | argumentsDone (arguments : String)
  | outputItemDone (item : Option OutputItem)
  | completed (response : Option RawResponse)
  | incomplete (response : RawResponse)
  | failed (response : RawResponse)
  | other (type : String)

/-! ## The maps -/

def statuses : List (String × String) :=
  [("completed", "stop"), ("incomplete", "length"), ("failed", "error")]

def mapFinishReason (status : Option String) : FinishReason :=
  ⟨(statuses.lookup (status.getD "")).getD "other", status⟩

def OutputItem.functionCall? : OutputItem → Option FunctionCall
  | functionCall call => some call
  | _ => none

def extractFinishReason (raw : Option RawResponse) : FinishReason :=
  match raw with
  | none => ⟨"other", none⟩
  | some raw =>
    if raw.output.any fun item => item.functionCall?.isSome then ⟨"tool_calls", raw.status⟩
    else mapFinishReason raw.status

def extractUsage (raw : Option RawResponse) : Usage :=
  match raw.bind RawResponse.usage with
  | none => .zero
  | some u =>
    let inputTokens := u.inputTokens.getD 0
    let outputTokens := u.outputTokens.getD 0
    { inputTokens := inputTokens
      outputTokens := outputTokens
      totalTokens := u.totalTokens.getD (inputTokens + outputTokens)
      reasoningTokens := u.reasoningTokens
      cacheReadTokens := u.cachedTokens }

/-- `first or second` -/
def firstOf (first second : String) : String := if first = "" then second else first

section Calls

variable [Runtime]

/-- The call of an item, as both ways read it. -/
def FunctionCall.toolCall (call : FunctionCall) : ToolCall where
  id := firstOf call.callId call.id
  name := call.name
  arguments := parseArguments call.arguments
  rawArguments := orNone call.arguments

def OutputItem.parts : OutputItem → List ContentPart
  | message texts => texts.map .ofText
  | functionCall call => [.ofToolCall call.toolCall.data]
  | other _ => []

/-- The blocking call. -/
def translateResponse (raw : RawResponse) : Response where
  id := raw.id
  model := raw.model
  provider := "openai"
  message := ⟨.assistant, raw.output.flatMap OutputItem.parts, none, none⟩
  finishReason := extractFinishReason (some raw)
  usage := extractUsage (some raw)

end Calls

/-! ## The stream -/

structure StreamState where
  responseId : String := ""
  textStarted : Bool := false
  currentToolId : String := ""
  currentToolName : String := ""
  toolArgsParts : List String := []
  toolCallStarted : Bool := false

section Stream

variable [Runtime] (s : StreamState)

def outputTextDelta (delta : String) : StreamState × List StreamEvent :=
  ({ s with textStarted := true },
    (if s.textStarted then [] else [.ofType .textStart]) ++ [.textDeltaOf delta])

def outputTextDone : StreamState × List StreamEvent :=
  ({ s with textStarted := false }, if s.textStarted then [.ofType .textEnd] else [])

def argumentsDelta (d : ArgumentsDelta) : StreamState × List StreamEvent :=
  if s.toolCallStarted then
    ({ s with toolArgsParts := s.toolArgsParts ++ [d.delta] }, [.toolCallDeltaOf d.delta])
  else
    ({ s with
        currentToolId := firstOf d.callId d.itemId
        currentToolName := d.name
        toolArgsParts := [d.delta]
        toolCallStarted := true },
      [.toolCallStartOf ⟨firstOf d.callId d.itemId, d.name, .dict [], none⟩,
        .toolCallDeltaOf d.delta])

/-- Ends a call, also where none has been started. -/
def argumentsDone (arguments : String) : StreamState × List StreamEvent :=
  let argsStr := firstOf arguments (String.join s.toolArgsParts)
  ({ s with toolCallStarted := false },
    [.toolCallEndOf
      ⟨s.currentToolId, s.currentToolName, parseArguments argsStr, orNone argsStr⟩])

/-- The item of a call that has been ended is taken for a call of its own. -/
def outputItemDone (item : Option OutputItem) : StreamState × List StreamEvent :=
  match item with
  | some (.functionCall call) =>
    if s.toolCallStarted then (s, [])
    else (s, [.toolCallStartOf ⟨call.toolCall.id, call.name, .dict [], none⟩,
      .toolCallEndOf call.toolCall])
  | _ => (s, [])

def step (model : String) (s : StreamState) : RawEvent → StreamState × List StreamEvent
  | .created response =>
    ({ s with responseId := response.getD s.responseId }, [.ofType .streamStart])
  | .outputTextDelta delta => outputTextDelta s delta
  | .outputTextDone => outputTextDone s
  | .argumentsDelta delta => argumentsDelta s delta
  | .argumentsDone arguments => argumentsDone s arguments
  | .outputItemDone item => outputItemDone s item
  | .completed response =>
    (s, [.finishOf s.responseId model "openai" (extractFinishReason response)
      (extractUsage response)])
  -- the loop has no branch for the other two ways a response may end
  | .incomplete _ | .failed _ | .other _ => (s, [])

/-- `OpenAIAdapter.stream` -/
def stream (model : String) (events : List RawEvent) : List StreamEvent :=
  Transducer.emitted (step model) {} events

end Stream

/-! ## Streams of a response -/

/-- An item of the output, as it is announced. -/
inductive Announced where
  /-- each text in deltas, and then done -/
  | message (texts : List (List String))
  /-- the arguments in deltas and then whole, and the item after them -/
  | streamed (call : FunctionCall) (deltas : List ArgumentsDelta)
  /-- the item alone -/
  | alone (call : FunctionCall)

namespace Announced

def item : Announced → OutputItem
  | message texts => .message (texts.map String.join)
  | streamed call _ => .functionCall call
  | alone call => .functionCall call

def events : Announced → List RawEvent
  | message texts =>
    texts.flatMap (fun deltas => deltas.map .outputTextDelta ++ [.outputTextDone]) ++
      [.outputItemDone (some (.message (texts.map String.join)))]
  | streamed call deltas =>
    deltas.map .argumentsDelta ++
      [.argumentsDone call.arguments, .outputItemDone (some (.functionCall call))]
  | alone call => [.outputItemDone (some (.functionCall call))]

/-- Are there events of the arguments? -/
def isStreamed : Announced → Bool
  | streamed _ _ => true
  | _ => false

end Announced

inductive Ending where
  | completed
  | incomplete
  | failed
deriving DecidableEq

def Ending.event (response : RawResponse) : Ending → RawEvent
  | completed => .completed (some response)
  | incomplete => .incomplete response
  | failed => .failed response

/-- A well-formed stream: the response is created, its items follow one another,
and it ends in one of three ways. -/
structure Delivery where
  items : List Announced
  response : RawResponse
  output : response.output = items.map Announced.item
  ending : Ending

def Delivery.events (d : Delivery) : List RawEvent :=
  [.created (some d.response.id)] ++ d.items.flatMap Announced.events ++
    [d.ending.event d.response]

/-- Events the adapter has no use for, which may stand anywhere. -/
def RawEvent.isOther : RawEvent → Bool
  | .other _ => true
  | _ => false

/-- The events are those of the delivery, and others among them. -/
def Delivery.Within (d : Delivery) (events : List RawEvent) : Prop :=
  events.filter (fun e => !e.isOther) = d.events

/-! ## What the adapter makes of a stream -/

section Run

variable [Runtime] (model : String)

/-- Between two items no text and no call is open. -/
structure Resting (id : String) (s : StreamState) : Prop where
  responseId : s.responseId = id
  noText : s.textStarted = false
  noCall : s.toolCallStarted = false

/-- What is sent for a text; nothing for one that has no deltas. -/
def textSent : List String → List StreamEvent
  | [] => []
  | deltas => .ofType .textStart :: deltas.map .textDeltaOf ++ [.ofType .textEnd]

theorem run_text {s : StreamState} (h : s.textStarted = false) (deltas : List String) :
    Transducer.Runs (step model) s (deltas.map RawEvent.outputTextDelta ++ [.outputTextDone]) s
      (textSent deltas) := by
  have hclosed : s = { s with textStarted := false } := by
    cases s
    cases h
    rfl
  rw [hclosed]
  cases deltas with
  | nil => exact .single _ RawEvent.outputTextDone
  | cons delta deltas =>
    let started := { s with textStarted := true }
    have hfirst : Transducer.Runs (step model) { s with textStarted := false }
        [.outputTextDelta delta] started [.ofType .textStart, .textDeltaOf delta] :=
      .single _ (RawEvent.outputTextDelta delta)
    have hrest : Transducer.Runs (step model) started (deltas.map RawEvent.outputTextDelta) started
        (deltas.map .textDeltaOf) := by
      refine .map (fun delta => ?_) deltas
      rfl
    exact (hfirst.append hrest).append (.single started RawEvent.outputTextDone)

theorem run_texts {s : StreamState} (h : s.textStarted = false) (texts : List (List String)) :
    Transducer.Runs (step model) s
      (texts.flatMap fun deltas => deltas.map RawEvent.outputTextDelta ++ [.outputTextDone]) s
      (texts.flatMap textSent) := by
  obtain ⟨s', hrun, rfl⟩ := Transducer.Runs.flatMap (P := fun s' => s' = s)
    (fun s' deltas hs' => ⟨s', run_text model (hs' ▸ h) deltas, hs'⟩) rfl texts
  exact hrun

/-- The pieces of the arguments, where a call has been started. -/
theorem run_arguments {s : StreamState} (h : s.toolCallStarted = true)
    (deltas : List ArgumentsDelta) :
    ∃ parts, Transducer.Runs (step model) s (deltas.map RawEvent.argumentsDelta)
      { s with toolArgsParts := parts } (deltas.map fun d => .toolCallDeltaOf d.delta) := by
  induction deltas generalizing s with
  | nil => exact ⟨s.toolArgsParts, .nil s⟩
  | cons d deltas ih =>
    obtain ⟨parts, hrest⟩ := ih (s := { s with toolArgsParts := s.toolArgsParts ++ [d.delta] }) h
    have hfirst : step model s (.argumentsDelta d) =
        ({ s with toolArgsParts := s.toolArgsParts ++ [d.delta] }, [.toolCallDeltaOf d.delta]) :=
      if_pos h
    have hsingle : Transducer.Runs (step model) s [.argumentsDelta d] _ _ :=
      .single s (RawEvent.argumentsDelta d)
    rw [hfirst] at hsingle
    exact ⟨parts, hsingle.append hrest⟩

/-- The item of a call, where none is open. -/
theorem run_item {s : StreamState} (h : s.toolCallStarted = false) (call : FunctionCall) :
    Transducer.Runs (step model) s [.outputItemDone (some (.functionCall call))] s
      [.toolCallStartOf ⟨call.toolCall.id, call.name, .dict [], none⟩,
        .toolCallEndOf call.toolCall] := by
  have hstep : step model s (.outputItemDone (some (.functionCall call))) =
      (s, [.toolCallStartOf ⟨call.toolCall.id, call.name, .dict [], none⟩,
        .toolCallEndOf call.toolCall]) := if_neg (by rw [h]; exact nofun)
  have hsingle : Transducer.Runs (step model) s [.outputItemDone (some (.functionCall call))] _ _ :=
    .single s (RawEvent.outputItemDone (some (.functionCall call)))
  rwa [hstep] at hsingle

/-- What is sent for a call whose arguments come in events: it ends twice. -/
structure SentTwice (out : List StreamEvent) : Prop where
  calls : (callsOf out).length = 2
  refused : Transducer.Refuses Validator.next .start out

theorem run_streamed {id : String} {s : StreamState} (h : Resting id s) (call : FunctionCall)
    (deltas : List ArgumentsDelta) :
    ∃ s' out, Transducer.Runs (step model) s (Announced.streamed call deltas).events s' out ∧
      Resting id s' ∧ SentTwice out := by
  cases deltas with
  | nil =>
    have hdone : Transducer.Runs (step model) s [.argumentsDone call.arguments]
        { s with toolCallStarted := false } _ := .single s (RawEvent.argumentsDone call.arguments)
    have hrun := hdone.append (run_item model rfl call)
    refine ⟨_, _, hrun, ⟨h.responseId, h.noText, rfl⟩, rfl, ?_⟩
    exact Validator.refuses_toolCallEnd rfl _ _
  | cons d deltas =>
    let started := { s with
      currentToolId := firstOf d.callId d.itemId
      currentToolName := d.name
      toolArgsParts := [d.delta]
      toolCallStarted := true }
    have hfirst : step model s (.argumentsDelta d) = (started,
        [.toolCallStartOf ⟨firstOf d.callId d.itemId, d.name, .dict [], none⟩,
          .toolCallDeltaOf d.delta]) := if_neg (by rw [h.noCall]; exact nofun)
    have hstart : Transducer.Runs (step model) s [.argumentsDelta d] _ _ :=
      .single s (RawEvent.argumentsDelta d)
    rw [hfirst] at hstart
    obtain ⟨parts, hrest⟩ := run_arguments model (rfl : started.toolCallStarted = true) deltas
    have hdone : Transducer.Runs (step model) { started with toolArgsParts := parts }
        [.argumentsDone call.arguments]
        { started with toolArgsParts := parts, toolCallStarted := false } _ :=
      .single { started with toolArgsParts := parts } (RawEvent.argumentsDone call.arguments)
    have hrun := (hstart.append hrest).append (hdone.append (run_item model rfl call))
    refine ⟨_, _, hrun, ⟨h.responseId, h.noText, rfl⟩, ?_, ?_⟩
    · rw [callsOf_append, callsOf_append, callsOf_map_silent deltas fun _ => rfl]
      rfl
    · obtain ⟨message, hmessage⟩ := Validator.refuses_toolCallDelta
        { openTool := true, openToolId := some (firstOf d.callId d.itemId) } d.delta []
      refine Transducer.Refuses.append (Transducer.Refuses.append ⟨message, ?_⟩ _) _
      rw [Transducer.check, Validator.next_toolCallStart rfl]
      exact hmessage

/-- What is sent for any other item. -/
structure SentOnce (b : Announced) (out : List StreamEvent) : Prop where
  calls : callsOf out = (b.item.functionCall?.map FunctionCall.toolCall).toList
  accepted : Transducer.check Validator.next .start out = .ok .start

omit [Runtime] in
theorem textSent_accepted (deltas : List String) :
    Transducer.check Validator.next .start (textSent deltas) = .ok .start := by
  cases deltas with
  | nil => rfl
  | cons delta deltas =>
    show Transducer.check Validator.next .start
      (.ofType .textStart :: ((delta :: deltas).map .textDeltaOf ++ [.ofType .textEnd])) = _
    rw [Transducer.check, Validator.next_textStart rfl]
    show Transducer.check Validator.next { openText := true } _ = _
    rw [Transducer.check_append_ok (Validator.check_textDeltas rfl _), Transducer.check,
      Validator.next_textEnd rfl]
    rfl

omit [Runtime] in
theorem textSent_calls (deltas : List String) : callsOf (textSent deltas) = [] := by
  cases deltas with
  | nil => rfl
  | cons delta deltas =>
    show callsOf (.ofType .textStart :: (delta :: deltas).map .textDeltaOf ++
      [.ofType .textEnd]) = []
    rw [callsOf_append, callsOf_cons, callsOf_map_silent (delta :: deltas) fun _ => rfl]
    rfl

theorem run_unstreamed {id : String} {s : StreamState} (h : Resting id s) {b : Announced}
    (hb : b.isStreamed = false) :
    ∃ s' out, Transducer.Runs (step model) s b.events s' out ∧ Resting id s' ∧ SentOnce b out := by
  cases b with
  | message texts =>
    have hitem : Transducer.Runs (step model) s
        [.outputItemDone (some (.message (texts.map String.join)))] s [] :=
      .single s (RawEvent.outputItemDone (some (.message (texts.map String.join))))
    have hrun := (run_texts model h.noText texts).append hitem
    rw [List.append_nil] at hrun
    refine ⟨s, _, hrun, h, ?_, ?_⟩
    · rw [callsOf_flatMap]
      exact List.flatMap_eq_nil_iff.mpr fun deltas _ => textSent_calls deltas
    · exact (Transducer.check_flatMap (fun deltas _ =>
        textSent_accepted deltas) (fun _ hbad => absurd trivial hbad) texts).1 fun _ _ => trivial
  | streamed call deltas => cases hb
  | alone call =>
    refine ⟨s, _, run_item model h.noCall call, h, rfl, ?_⟩
    rw [Transducer.check, Validator.next_toolCallStart rfl]
    show Transducer.check Validator.next { openTool := true, openToolId := some call.toolCall.id }
      [.toolCallEndOf call.toolCall] = _
    rw [Transducer.check, Validator.next_toolCallEnd rfl rfl]
    rfl

/-- What is sent for an item: a call is given once, or twice if it is streamed. -/
def Sent (b : Announced) (out : List StreamEvent) : Prop :=
  if b.isStreamed then SentTwice out else SentOnce b out

theorem run_announced (id : String) (s : StreamState) (b : Announced) (h : Resting id s) :
    ∃ s' out, Transducer.Runs (step model) s b.events s' out ∧ Resting id s' ∧ Sent b out := by
  cases hb : b.isStreamed with
  | false =>
    obtain ⟨s', out, hrun, hs', hsent⟩ := run_unstreamed model h hb
    exact ⟨s', out, hrun, hs', by rwa [Sent, hb, if_neg nofun]⟩
  | true =>
    cases b with
    | streamed call deltas =>
      obtain ⟨s', out, hrun, hs', hsent⟩ := run_streamed model h call deltas
      exact ⟨s', out, hrun, hs', hsent⟩
    | _ => cases hb

/-- The FINISH, which only a completed response has. -/
def Delivery.finish (d : Delivery) : List StreamEvent :=
  match d.ending with
  | .completed => [.finishOf d.response.id model "openai" (extractFinishReason (some d.response))
      (extractUsage (some d.response))]
  | _ => []

variable {d : Delivery} {events : List RawEvent}

theorem stream_eq_sent (h : d.Within events) : ∃ outs, List.Forall₂ Sent d.items outs ∧
    stream model events = .ofType .streamStart :: outs.flatten ++ d.finish model := by
  have hstart : Transducer.Runs (step model) {} [.created (some d.response.id)]
      { responseId := d.response.id } [.ofType .streamStart] := ⟨rfl, rfl⟩
  obtain ⟨s, outs, hitems, hs, houts⟩ := Transducer.Runs.blocks (run_announced model d.response.id)
    (⟨rfl, rfl, rfl⟩ : Resting d.response.id { responseId := d.response.id }) d.items
  have hend : Transducer.Runs (step model) s [d.ending.event d.response] s (d.finish model) := by
    rw [Delivery.finish, ← hs.responseId]
    cases d.ending with
    | completed => exact .single s (RawEvent.completed (some d.response))
    | incomplete => exact .single s (RawEvent.incomplete d.response)
    | failed => exact .single s (RawEvent.failed d.response)
  have hother : ∀ (s : StreamState) (e : RawEvent), (!e.isOther) = false →
      step model s e = (s, []) := by
    intro s e he
    cases e with
    | other type => rfl
    | _ => cases he
  have hall : Transducer.Runs (step model) {} (events.filter fun e => !e.isOther) s
      ([.ofType .streamStart] ++ outs.flatten ++ d.finish model) := by
    rw [h]
    exact (hstart.append hitems).append hend
  exact ⟨outs, houts, (Transducer.Runs.of_filter hother hall).emitted_eq⟩

/-! ## The protocol -/

/-- A stream is rejected as soon as the arguments of a call come in events, and
where the response is not completed. -/
theorem stream_accepted_iff (h : d.Within events) :
    Validator.Accepts (stream model events) ↔
      (∀ b ∈ d.items, b.isStreamed = false) ∧ d.ending = .completed := by
  obtain ⟨outs, houts, hstream⟩ := stream_eq_sent model h
  have hsent : List.Forall₂ (fun b out => (b.isStreamed = false →
      Transducer.check Validator.next .start out = .ok .start) ∧
        (¬b.isStreamed = false → Transducer.Refuses Validator.next .start out)) d.items outs := by
    refine houts.imp fun b out hb => ⟨fun hfalse => ?_, fun htrue => ?_⟩
    · rw [Sent, hfalse, if_neg Bool.false_ne_true] at hb
      exact hb.accepted
    · rw [Sent, eq_true_of_ne_false htrue, if_pos rfl] at hb
      exact hb.refused
  obtain ⟨hgood, hbad⟩ := Transducer.check_flatten hsent
  have hstart : Transducer.check Validator.next .start [.ofType .streamStart] = .ok .start := rfl
  rw [Validator.Accepts, hstream]
  show (Validator.validateStream "strict" .start ([.ofType .streamStart] ++ outs.flatten ++
    d.finish model)).2 = none ↔ _
  by_cases hall : ∀ b ∈ d.items, b.isStreamed = false
  · rw [Validator.accepted_iff, List.append_assoc, Transducer.check_append_ok hstart,
      Transducer.check_append_ok (hgood hall), Delivery.finish]
    cases hending : d.ending with
    | completed =>
      refine iff_of_true ⟨{ sawFinish := true }, ?_, rfl⟩ ⟨hall, rfl⟩
      rw [Transducer.check, Validator.next_finish rfl rfl]
      rfl
    | incomplete | failed =>
      refine iff_of_false ?_ fun h => by cases h.2
      rintro ⟨v, hv, hsaw⟩
      rw [← Except.ok.inj hv] at hsaw
      cases hsaw
  · refine iff_of_false (Validator.not_accepted_of_refuses ?_) fun h => hall h.1
    rw [List.append_assoc, Transducer.Refuses, Transducer.check_append_ok hstart]
    exact (hbad hall).append _

/-! ## Each call once -/

/-- The call of an item. -/
def Announced.call? (b : Announced) : Option ToolCall :=
  b.item.functionCall?.map FunctionCall.toolCall

theorem calls_of_unstreamed {items : List Announced} {outs : List (List StreamEvent)}
    (h : List.Forall₂ Sent items outs) (hall : ∀ b ∈ items, b.isStreamed = false) :
    callsOf outs.flatten = items.filterMap Announced.call? := by
  induction h with
  | nil => rfl
  | @cons b out items outs hb _ ih =>
    rw [Sent, hall b List.mem_cons_self, if_neg nofun] at hb
    rw [List.flatten_cons, callsOf_append, hb.calls,
      ih fun c hc => hall c (List.mem_cons_of_mem _ hc), List.filterMap_cons, Announced.call?]
    cases b.item.functionCall?.map FunctionCall.toolCall <;> rfl

/-- Every streamed call is collected once too often. -/
theorem length_calls {items : List Announced} {outs : List (List StreamEvent)}
    (h : List.Forall₂ Sent items outs) : (callsOf outs.flatten).length =
      (items.filterMap Announced.call?).length + (items.filter Announced.isStreamed).length := by
  induction h with
  | nil => rfl
  | @cons b out items outs hb _ ih =>
    rw [List.flatten_cons, callsOf_append, List.length_append, ih, List.filterMap_cons,
      List.filter_cons]
    cases hstreamed : b.isStreamed with
    | false =>
      rw [Sent, hstreamed, if_neg nofun] at hb
      rw [hb.calls, if_neg nofun, Announced.call?]
      cases b.item.functionCall?.map FunctionCall.toolCall with
      | none => simp
      | some call =>
        simp only [Option.toList_some, List.length_cons, List.length_nil]
        omega
    | true =>
      rw [Sent, hstreamed, if_pos rfl] at hb
      cases b with
      | streamed call deltas =>
        rw [hb.calls, if_pos rfl]
        show 2 + _ = (_ :: List.filterMap Announced.call? items).length + _
        rw [List.length_cons, List.length_cons]
        omega
      | _ => cases hstreamed

/-- The calls of the blocking response. -/
theorem translateResponse_toolCalls (h : d.response.output = d.items.map Announced.item) :
    (translateResponse d.response).toolCalls =
      (d.items.filterMap Announced.call?).map ToolCall.data := by
  have htexts : ∀ texts : List String, (texts.map ContentPart.ofText).filterMap (fun part =>
      if part.kind = .toolCall then part.toolCall else none) = [] := by
    intro texts
    induction texts with
    | nil => rfl
    | cons text texts ih => exact ih
  rw [Response.toolCalls, translateResponse, h]
  show ((d.items.map Announced.item).flatMap OutputItem.parts).filterMap _ = _
  generalize d.items = items
  induction items with
  | nil => rfl
  | cons b items ih =>
    rw [List.map_cons, List.flatMap_cons, List.filterMap_append, ih, List.filterMap_cons]
    cases b with
    | message texts =>
      show (List.map ContentPart.ofText _).filterMap _ ++ _ = _
      rw [htexts]
      rfl
    | streamed call deltas => rfl
    | alone call => rfl

theorem stream_calls (h : d.Within events) : ∃ outs, List.Forall₂ Sent d.items outs ∧
    callsOf (stream model events) = callsOf outs.flatten := by
  obtain ⟨outs, houts, hstream⟩ := stream_eq_sent model h
  refine ⟨outs, houts, ?_⟩
  have hfinish : callsOf (d.finish model) = [] := by
    rw [Delivery.finish]
    cases d.ending <;> rfl
  rw [hstream, callsOf_append, callsOf_cons, hfinish]
  exact List.append_nil _

/-- The calls collected from a stream are those of the response, once each, exactly
if every call is announced by its item alone. -/
theorem collected_calls_iff [CostTable] (h : d.Within events) :
    (StreamAccumulator.processAll {} (stream model events)).response.toolCalls =
        (translateResponse d.response).toolCalls ↔
      ∀ b ∈ d.items, b.isStreamed = false := by
  obtain ⟨outs, houts, hcalls⟩ := stream_calls model h
  rw [StreamAccumulator.response_toolCalls, hcalls, translateResponse_toolCalls d.output]
  refine ⟨fun heq b hmem => ?_, fun hall => by rw [calls_of_unstreamed houts hall]⟩
  have hlength := congrArg List.length heq
  rw [List.length_map, List.length_map, length_calls houts] at hlength
  have hnone : (d.items.filter Announced.isStreamed).length = 0 := by omega
  have hb := List.filter_eq_nil_iff.mp (List.eq_nil_of_length_eq_zero hnone) b hmem
  exact eq_false_of_ne_true hb

end Run

section Demo

open Py.Ascii Unpriced

def weather : FunctionCall where
  callId := "call"
  id := "item"
  name := "weather"
  arguments := "\x7b\x7d"

/-- A response with one call, as it is announced. -/
def asking (item : Announced) (h : item.item = .functionCall weather) : Delivery where
  items := [item]
  response := { id := "resp", status := some "completed", output := [.functionCall weather] }
  output := congrArg (fun i => [i]) h.symm
  ending := .completed

theorem collected_calls_alone :
    (StreamAccumulator.processAll {}
        (stream "gpt" (asking (.alone weather) rfl).events)).response.toolCalls =
      (translateResponse (asking (.alone weather) rfl).response).toolCalls := by
  have hwithin : (asking (.alone weather) rfl).Within (asking (.alone weather) rfl).events := rfl
  exact (collected_calls_iff "gpt" hwithin).mpr fun b hb => by
    rw [List.mem_singleton.mp hb]
    rfl

/-- The arguments in one piece, which names the item only. -/
def inOnePiece : Announced := .streamed weather [{ itemId := "item", delta := "\x7b\x7d" }]

/-- The call is collected under the id of its item and once more under its own. -/
theorem streamed_call_twice :
    (asking inOnePiece rfl).Within (asking inOnePiece rfl).events ∧
      (StreamAccumulator.processAll {}
          (stream "gpt" (asking inOnePiece rfl).events)).response.toolCalls ≠
        (translateResponse (asking inOnePiece rfl).response).toolCalls := by
  refine ⟨rfl, fun h => ?_⟩
  have hids := congrArg (List.map ToolCallData.id) h
  exact absurd hids (by decide)

end Demo

end OpenAI
end Llm
end DotRunner
