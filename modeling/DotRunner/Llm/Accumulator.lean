import DotRunner.Py.Dict
import DotRunner.Llm.Types

/-!
# Collecting a stream

`StreamAccumulator` keeps texts by their id, reasoning and calls in the order
they come, and the last FINISH.  The response it builds has the text first,
then the reasoning, then the calls, wherever in the stream each of them was.
-/

namespace DotRunner
namespace Llm

open Py

structure StreamAccumulator where
  textParts : Dict (Option String) (List String) := .empty
  reasoningParts : List String := []
  toolCalls : List ToolCall := []
  finishReason : Option FinishReason := none
  usage : Option Usage := none
  responseId : String := ""
  model : String := ""
  provider : String := ""

def ToolCall.data (call : ToolCall) : ToolCallData where
  id := call.id
  name := call.name
  arguments := call.arguments

namespace StreamAccumulator

/-- A delta that is there and not empty. -/
def heard (delta : Option String) : Option String := delta.filter (· ≠ "")

def finish (a : StreamAccumulator) (event : StreamEvent) : StreamAccumulator :=
  match event.response with
  | none => { a with finishReason := event.finishReason, usage := event.usage }
  | some response => { a with
    finishReason := event.finishReason
    usage := event.usage
    responseId := response.id
    model := response.model
    provider := response.provider }

/-- `setdefault(key, []).append(delta)` -/
def addText (a : StreamAccumulator) (id : Option String) (delta : String) : StreamAccumulator :=
  { a with textParts := a.textParts.set id ((a.textParts.get? id).getD [] ++ [delta]) }

def process (a : StreamAccumulator) (event : StreamEvent) : StreamAccumulator :=
  match event.type with
  | .textDelta => match heard event.delta with
    | some delta => a.addText event.textId delta
    | none => a
  | .reasoningDelta => match heard event.reasoningDelta with
    | some delta => { a with reasoningParts := a.reasoningParts ++ [delta] }
    | none => a
  | .toolCallEnd => match event.toolCall with
    | some call => { a with toolCalls := a.toolCalls ++ [call] }
    | none => a
  | .finish => a.finish event
  | _ => a

def processAll (a : StreamAccumulator) (events : List StreamEvent) : StreamAccumulator :=
  events.foldl process a

def fullText (a : StreamAccumulator) : String :=
  String.join (a.textParts.values.map String.join)

/-- Text, then reasoning, then calls. -/
def assembled (text reasoning : String) (calls : List ToolCall) : List ContentPart :=
  (if text = "" then [] else [.ofText text]) ++
    (if reasoning = "" then [] else [.ofThinking { text := reasoning }]) ++
      calls.map fun call => .ofToolCall call.data

def content (a : StreamAccumulator) : List ContentPart :=
  (if a.fullText = "" then [] else [.ofText a.fullText]) ++
    (if a.reasoningParts = [] then []
      else [.ofThinking { text := String.join a.reasoningParts }]) ++
      a.toolCalls.map fun call => .ofToolCall call.data

/-- The usage so far, with its cost where the model is known. -/
def pricedUsage [CostTable] (a : StreamAccumulator) : Usage :=
  let base := a.usage.getD .zero
  if a.model = "" then base else base.withCost a.model

def response [CostTable] (a : StreamAccumulator) : Response where
  id := a.responseId
  model := a.model
  provider := a.provider
  message := ⟨.assistant, a.content, none, none⟩
  finishReason := a.finishReason.getD { reason := "other" }
  usage := a.pricedUsage

end StreamAccumulator

/-! ## What a stream says -/

namespace StreamEvent

def text (event : StreamEvent) : String :=
  if event.type = .textDelta then event.delta.getD "" else ""

def reasoning (event : StreamEvent) : String :=
  if event.type = .reasoningDelta then event.reasoningDelta.getD "" else ""

/-- The call that ends here. -/
def ended (event : StreamEvent) : Option ToolCall :=
  if event.type = .toolCallEnd then event.toolCall else none

end StreamEvent

def textOf (events : List StreamEvent) : String := String.join (events.map StreamEvent.text)

def reasoningOf (events : List StreamEvent) : String :=
  String.join (events.map StreamEvent.reasoning)

def callsOf (events : List StreamEvent) : List ToolCall := events.filterMap StreamEvent.ended

/-- The FINISH events. -/
def finishesOf (events : List StreamEvent) : List StreamEvent :=
  events.filter fun event => event.type = .finish

/-- Texts have no id, as in every adapter's stream. -/
def Unnamed (events : List StreamEvent) : Prop := ∀ event ∈ events, event.textId = none

theorem Unnamed.nil : Unnamed [] := fun _ he => nomatch he

theorem Unnamed.single {event : StreamEvent} (h : event.textId = none) : Unnamed [event] := by
  intro e he
  rw [List.mem_singleton.mp he]
  exact h

theorem Unnamed.append {l l' : List StreamEvent} (h : Unnamed l) (h' : Unnamed l') :
    Unnamed (l ++ l') :=
  fun e he => (List.mem_append.mp he).elim (h e) (h' e)

section Append

variable (l l' : List StreamEvent)

@[simp] theorem textOf_append : textOf (l ++ l') = textOf l ++ textOf l' := by
  rw [textOf, List.map_append, String.join_append]
  rfl

@[simp] theorem reasoningOf_append : reasoningOf (l ++ l') = reasoningOf l ++ reasoningOf l' := by
  rw [reasoningOf, List.map_append, String.join_append]
  rfl

@[simp] theorem callsOf_append : callsOf (l ++ l') = callsOf l ++ callsOf l' :=
  List.filterMap_append

@[simp] theorem finishesOf_append : finishesOf (l ++ l') = finishesOf l ++ finishesOf l' :=
  List.filter_append ..

end Append

section Cons

variable (event : StreamEvent) (events : List StreamEvent)

@[simp] theorem textOf_nil : textOf [] = "" := rfl

@[simp] theorem reasoningOf_nil : reasoningOf [] = "" := rfl

@[simp] theorem callsOf_nil : callsOf [] = [] := rfl

@[simp] theorem finishesOf_nil : finishesOf [] = [] := rfl

theorem textOf_cons : textOf (event :: events) = event.text ++ textOf events := by
  rw [textOf, List.map_cons, String.join_cons]
  rfl

theorem reasoningOf_cons :
    reasoningOf (event :: events) = event.reasoning ++ reasoningOf events := by
  rw [reasoningOf, List.map_cons, String.join_cons]
  rfl

theorem callsOf_cons : callsOf (event :: events) = event.ended.toList ++ callsOf events := by
  rw [callsOf, List.filterMap_cons]
  cases event.ended <;> rfl

end Cons

section FlatMap

variable {α : Type} (f : α → List StreamEvent) (l : List α)

theorem callsOf_flatMap : callsOf (l.flatMap f) = l.flatMap fun a => callsOf (f a) := by
  induction l with
  | nil => rfl
  | cons a l ih => rw [List.flatMap_cons, callsOf_append, ih, List.flatMap_cons]

end FlatMap

section Deltas

theorem textOf_deltas (deltas : List String) :
    textOf (deltas.map .textDeltaOf) = String.join deltas := by
  rw [textOf, List.map_map]
  exact congrArg String.join (List.map_id deltas)

theorem reasoningOf_deltas (deltas : List String) :
    reasoningOf (deltas.map .reasoningDeltaOf) = String.join deltas := by
  rw [reasoningOf, List.map_map]
  exact congrArg String.join (List.map_id deltas)

/-- An event with nothing but its type. -/
theorem textOf_ofType (type : StreamEventType) : textOf [.ofType type] = "" := by
  have htext : (StreamEvent.ofType type).text = "" := by
    rw [StreamEvent.text]
    split <;> rfl
  rw [textOf_cons, htext]
  rfl

section Silent

variable {α : Type} {f : α → StreamEvent} (l : List α)

theorem textOf_map_silent (h : ∀ a, (f a).text = "") : textOf (l.map f) = "" := by
  induction l with
  | nil => rfl
  | cons a l ih => rw [List.map_cons, textOf_cons, h, ih, String.append_empty]

theorem reasoningOf_map_silent (h : ∀ a, (f a).reasoning = "") : reasoningOf (l.map f) = "" := by
  induction l with
  | nil => rfl
  | cons a l ih => rw [List.map_cons, reasoningOf_cons, h, ih, String.append_empty]

theorem callsOf_map_silent (h : ∀ a, (f a).ended = none) : callsOf (l.map f) = [] := by
  induction l with
  | nil => rfl
  | cons a l ih =>
    rw [List.map_cons, callsOf_cons, h, ih]
    rfl

theorem finishesOf_map_silent (h : ∀ a, (f a).type ≠ .finish) : finishesOf (l.map f) = [] := by
  refine List.filter_eq_nil_iff.mpr fun e he => ?_
  obtain ⟨a, -, rfl⟩ := List.mem_map.mp he
  simpa using h a

theorem Unnamed.map (h : ∀ a, (f a).textId = none) : Unnamed (l.map f) := by
  intro e he
  obtain ⟨a, -, rfl⟩ := List.mem_map.mp he
  exact h a

end Silent

theorem callsOf_ends (calls : List ToolCall) : callsOf (calls.map .toolCallEndOf) = calls := by
  induction calls with
  | nil => rfl
  | cons call calls ih =>
    rw [List.map_cons, callsOf_cons, ih]
    rfl

end Deltas

/-! ## Adjacent texts

A message is the same with its adjacent texts put together. -/

/-- Put a part in front, into the text that follows if it is a text itself. -/
def consPart (part : ContentPart) : List ContentPart → List ContentPart
  | next :: rest =>
    if part.kind = .text ∧ next.kind = .text then
      .ofText (part.text.getD "" ++ next.text.getD "") :: rest
    else part :: next :: rest
  | [] => [part]

def mergeTexts (parts : List ContentPart) : List ContentPart := parts.foldr consPart []

theorem mergeTexts_cons (part : ContentPart) (parts : List ContentPart) :
    mergeTexts (part :: parts) = consPart part (mergeTexts parts) := rfl

/-- Does the list begin with a text? -/
def startsWithText : List ContentPart → Prop
  | part :: _ => part.kind = .text
  | [] => False

theorem consPart_eq_cons {part : ContentPart} {parts : List ContentPart}
    (h : part.kind ≠ .text ∨ ¬startsWithText parts) : consPart part parts = part :: parts := by
  cases parts with
  | nil => rfl
  | cons next rest =>
    refine if_neg fun ⟨hpart, hnext⟩ => ?_
    rcases h with h | h
    · exact h hpart
    · exact h hnext

/-- Parts that are no texts stay as they are. -/
theorem mergeTexts_eq_self {parts : List ContentPart} (h : ∀ part ∈ parts, part.kind ≠ .text) :
    mergeTexts parts = parts := by
  induction parts with
  | nil => rfl
  | cons part parts ih =>
    rw [mergeTexts_cons, ih fun p hp => h p (List.mem_cons_of_mem _ hp),
      consPart_eq_cons (.inl (h part List.mem_cons_self))]

/-- A text stays a text when others go into it. -/
theorem startsWithText_mergeTexts (parts : List ContentPart) :
    startsWithText (mergeTexts parts) ↔ startsWithText parts := by
  cases parts with
  | nil => exact Iff.rfl
  | cons part parts =>
    rw [mergeTexts_cons]
    cases mergeTexts parts with
    | nil => exact Iff.rfl
    | cons next rest =>
      rw [consPart]
      by_cases h : part.kind = .text ∧ next.kind = .text
      · rw [if_pos h]
        exact iff_of_true rfl h.1
      · rw [if_neg h]
        exact Iff.rfl

/-- No text is lost where texts are put together. -/
theorem exists_text_mergeTexts {parts : List ContentPart} (h : ∃ part ∈ parts, part.kind = .text) :
    ∃ part ∈ mergeTexts parts, part.kind = .text := by
  induction parts with
  | nil => exact h
  | cons part parts ih =>
    rw [mergeTexts_cons]
    by_cases hpart : part.kind = .text
    · cases mergeTexts parts with
      | nil => exact ⟨part, List.mem_cons_self, hpart⟩
      | cons next rest =>
        rw [consPart]
        split
        · exact ⟨_, List.mem_cons_self, rfl⟩
        · exact ⟨part, List.mem_cons_self, hpart⟩
    · obtain ⟨p, hmem, hp⟩ := h
      have htail : p ∈ parts := by
        rcases List.mem_cons.mp hmem with rfl | hmem
        · exact absurd hp hpart
        · exact hmem
      obtain ⟨q, hq, hkind⟩ := ih ⟨p, htail, hp⟩
      rw [consPart_eq_cons (.inl hpart)]
      exact ⟨q, List.mem_cons_of_mem _ hq, hkind⟩

/-- Texts in a row become one. -/
theorem mergeTexts_texts {parts : List ContentPart} (h : ¬startsWithText parts) (text : String)
    (texts : List String) : mergeTexts ((text :: texts).map .ofText ++ parts) =
      .ofText (String.join (text :: texts)) :: mergeTexts parts := by
  have hparts : ¬startsWithText (mergeTexts parts) := by rwa [startsWithText_mergeTexts]
  induction texts generalizing text with
  | nil =>
    show consPart (.ofText text) (mergeTexts parts) = _
    rw [consPart_eq_cons (.inr hparts), String.join_cons, String.join_nil, String.append_empty]
  | cons next texts ih =>
    show consPart (.ofText text) (mergeTexts ((next :: texts).map .ofText ++ parts)) = _
    have hjoin : String.join (text :: next :: texts) = text ++ String.join (next :: texts) :=
      String.join_cons
    rw [ih next, consPart, if_pos ⟨rfl, rfl⟩, hjoin]
    rfl

def Message.merged (m : Message) : Message := { m with content := mergeTexts m.content }

/-! ## The accumulated response -/

namespace StreamAccumulator

theorem getD_heard (delta : Option String) : (heard delta).getD "" = delta.getD "" := by
  cases delta with
  | none => rfl
  | some delta =>
    by_cases h : delta = ""
    · rw [h]
      rfl
    · rw [heard, Option.filter_some_pos (by simp [h])]

/-- At most the one entry for texts without an id. -/
def OneText (a : StreamAccumulator) : Prop := ∀ id ∈ a.textParts.keys, id = none

theorem OneText.entries {a : StreamAccumulator} (h : a.OneText) :
    a.textParts.entries = [] ∨ ∃ parts, a.textParts.entries = [(none, parts)] := by
  have hnodup := a.textParts.nodup
  unfold OneText Dict.keys at h
  generalize a.textParts.entries = l at h hnodup
  rcases l with _ | ⟨⟨id, parts⟩, _ | ⟨⟨id', parts'⟩, l⟩⟩
  · exact .inl rfl
  · refine .inr ⟨parts, ?_⟩
    rw [show id = none from h id List.mem_cons_self]
  · have hid : id = none := h id List.mem_cons_self
    have hid' : id' = none := h id' (List.mem_cons_of_mem _ List.mem_cons_self)
    rw [List.map_cons, List.map_cons, List.nodup_cons] at hnodup
    exact absurd (hid.trans hid'.symm ▸ List.mem_cons_self) hnodup.1

/-- Another delta without an id goes to the end of the text. -/
theorem fullText_addText {a : StreamAccumulator} (h : a.OneText) (delta : String) :
    (a.addText none delta).fullText = a.fullText ++ delta := by
  show String.join (((Dict.insertEntry none ((a.textParts.get? none).getD [] ++ [delta])
    a.textParts.entries).map Prod.snd).map String.join) =
      String.join ((a.textParts.entries.map Prod.snd).map String.join) ++ delta
  rcases h.entries with hnil | ⟨parts, hone⟩
  · have hget : a.textParts.get? none = none := by rw [Dict.get?, hnil, Dict.lookup]
    rw [hget, hnil]
    simp [Dict.insertEntry]
  · have hget : a.textParts.get? none = some parts := by
      rw [Dict.get?, hone, Dict.lookup, if_pos rfl]
    rw [hget, hone]
    simp [Dict.insertEntry]

/-- What has been collected is what the events say. -/
structure Collected (a : StreamAccumulator) (events : List StreamEvent) : Prop where
  oneText : a.OneText
  text : a.fullText = textOf events
  spoken : ∀ part ∈ a.reasoningParts, part ≠ ""
  reasoning : String.join a.reasoningParts = reasoningOf events
  calls : a.toolCalls = callsOf events

theorem collected_start : Collected {} [] where
  oneText := nofun
  text := rfl
  spoken := nofun
  reasoning := rfl
  calls := rfl

/-- An event that says nothing. -/
theorem Collected.silent {a : StreamAccumulator} {events : List StreamEvent}
    (h : Collected a events) {event : StreamEvent} (htext : event.text = "")
    (hreasoning : event.reasoning = "") (hended : event.ended = none) :
    Collected a (events ++ [event]) where
  oneText := h.oneText
  text := by rw [textOf_append, textOf_cons, htext, h.text]; simp
  spoken := h.spoken
  reasoning := by rw [reasoningOf_append, reasoningOf_cons, hreasoning, h.reasoning]; simp
  calls := by rw [callsOf_append, callsOf_cons, hended, h.calls]; simp

theorem Collected.textDelta {a : StreamAccumulator} {events : List StreamEvent}
    (h : Collected a events) {event : StreamEvent} (htype : event.type = .textDelta) {delta : String}
    (hdelta : heard event.delta = some delta) :
    Collected (a.addText none delta) (events ++ [event]) := by
  have htext : event.text = delta := by
    rw [StreamEvent.text, if_pos htype, ← getD_heard, hdelta]
    rfl
  have hreasoning : event.reasoning = "" := by rw [StreamEvent.reasoning, htype]; rfl
  have hended : event.ended = none := by rw [StreamEvent.ended, htype]; rfl
  refine ⟨fun id hmem => ?_, ?_, h.spoken, ?_, ?_⟩
  · rcases (Dict.mem_keys_set ..).mp hmem with hid | hid
    · exact hid
    · exact h.oneText id hid
  · rw [fullText_addText h.oneText, textOf_append, textOf_cons, h.text, htext]
    simp
  · show String.join a.reasoningParts = _
    rw [reasoningOf_append, reasoningOf_cons, hreasoning, h.reasoning]
    simp
  · show a.toolCalls = _
    rw [callsOf_append, callsOf_cons, hended, h.calls]
    simp

theorem Collected.reasoningDelta {a : StreamAccumulator} {events : List StreamEvent}
    (h : Collected a events) {event : StreamEvent} (htype : event.type = .reasoningDelta)
    {delta : String} (hdelta : heard event.reasoningDelta = some delta) :
    Collected { a with reasoningParts := a.reasoningParts ++ [delta] } (events ++ [event]) := by
  have htext : event.text = "" := by rw [StreamEvent.text, htype]; rfl
  have hreasoning : event.reasoning = delta := by
    rw [StreamEvent.reasoning, if_pos htype, ← getD_heard, hdelta]
    rfl
  have hended : event.ended = none := by rw [StreamEvent.ended, htype]; rfl
  have hne : delta ≠ "" := by simpa using (Option.filter_eq_some_iff.mp hdelta).2
  refine ⟨h.oneText, ?_, fun part hmem => ?_, ?_, ?_⟩
  · show a.fullText = _
    rw [textOf_append, textOf_cons, htext, h.text]
    simp
  · rcases List.mem_append.mp hmem with hmem | hmem
    · exact h.spoken part hmem
    · rw [List.mem_singleton.mp hmem]
      exact hne
  · show String.join (a.reasoningParts ++ [delta]) = _
    rw [String.join_append, reasoningOf_append, reasoningOf_cons, h.reasoning, hreasoning]
    simp
  · show a.toolCalls = _
    rw [callsOf_append, callsOf_cons, hended, h.calls]
    simp

theorem Collected.toolCallEnd {a : StreamAccumulator} {events : List StreamEvent}
    (h : Collected a events) {event : StreamEvent} (htype : event.type = .toolCallEnd)
    {call : ToolCall} (hcall : event.toolCall = some call) :
    Collected { a with toolCalls := a.toolCalls ++ [call] } (events ++ [event]) := by
  have htext : event.text = "" := by rw [StreamEvent.text, htype]; rfl
  have hreasoning : event.reasoning = "" := by rw [StreamEvent.reasoning, htype]; rfl
  have hended : event.ended = some call := by rw [StreamEvent.ended, if_pos htype, hcall]
  refine ⟨h.oneText, ?_, h.spoken, ?_, ?_⟩
  · show a.fullText = _
    rw [textOf_append, textOf_cons, htext, h.text]
    simp
  · rw [reasoningOf_append, reasoningOf_cons, hreasoning, h.reasoning]
    simp
  · rw [callsOf_append, callsOf_cons, hended, h.calls]
    rfl

theorem Collected.finish {a : StreamAccumulator} {events : List StreamEvent}
    (h : Collected a events) {event : StreamEvent} (htype : event.type = .finish) :
    Collected (a.finish event) (events ++ [event]) := by
  have hsame : Collected a (events ++ [event]) := h.silent
    (by rw [StreamEvent.text, htype]; rfl) (by rw [StreamEvent.reasoning, htype]; rfl)
    (by rw [StreamEvent.ended, htype]; rfl)
  unfold StreamAccumulator.finish
  cases event.response with
  | none => exact ⟨hsame.oneText, hsame.text, hsame.spoken, hsame.reasoning, hsame.calls⟩
  | some response => exact ⟨hsame.oneText, hsame.text, hsame.spoken, hsame.reasoning, hsame.calls⟩

theorem Collected.process {a : StreamAccumulator} {events : List StreamEvent}
    (h : Collected a events) {event : StreamEvent} (hid : event.textId = none) :
    Collected (a.process event) (events ++ [event]) := by
  rw [StreamAccumulator.process]
  cases htype : event.type with
  | textDelta =>
    cases hdelta : heard event.delta with
    | none =>
      refine h.silent ?_ (by rw [StreamEvent.reasoning, htype]; rfl)
        (by rw [StreamEvent.ended, htype]; rfl)
      rw [StreamEvent.text, if_pos htype, ← getD_heard, hdelta]
      rfl
    | some delta =>
      show Collected (a.addText event.textId delta) _
      rw [hid]
      exact h.textDelta htype hdelta
  | reasoningDelta =>
    cases hdelta : heard event.reasoningDelta with
    | none =>
      refine h.silent (by rw [StreamEvent.text, htype]; rfl) ?_
        (by rw [StreamEvent.ended, htype]; rfl)
      rw [StreamEvent.reasoning, if_pos htype, ← getD_heard, hdelta]
      rfl
    | some delta => exact h.reasoningDelta htype hdelta
  | toolCallEnd =>
    cases hcall : event.toolCall with
    | none =>
      refine h.silent (by rw [StreamEvent.text, htype]; rfl)
        (by rw [StreamEvent.reasoning, htype]; rfl) ?_
      rw [StreamEvent.ended, if_pos htype, hcall]
    | some call => exact h.toolCallEnd htype hcall
  | finish => exact h.finish htype
  | _ =>
    exact h.silent (by rw [StreamEvent.text, htype]; rfl)
      (by rw [StreamEvent.reasoning, htype]; rfl) (by rw [StreamEvent.ended, htype]; rfl)

theorem Collected.processAll {a : StreamAccumulator} {events : List StreamEvent}
    (h : Collected a events) {l : List StreamEvent} (hl : Unnamed l) :
    Collected (a.processAll l) (events ++ l) := by
  induction l generalizing a events with
  | nil => rwa [List.append_nil]
  | cons event l ih =>
    have hrest := ih (h.process (hl event List.mem_cons_self))
      fun e he => hl e (List.mem_cons_of_mem _ he)
    rwa [List.append_assoc] at hrest

theorem Collected.content {a : StreamAccumulator} {events : List StreamEvent}
    (h : Collected a events) :
    a.content = assembled (textOf events) (reasoningOf events) (callsOf events) := by
  have hparts : (a.reasoningParts = []) = (reasoningOf events = "") := by
    rw [← h.reasoning]
    refine propext ⟨fun hnil => by rw [hnil]; rfl, fun hjoin => ?_⟩
    cases hl : a.reasoningParts with
    | nil => rfl
    | cons part parts =>
      rw [hl, String.join_cons, String.append_eq_empty_iff] at hjoin
      exact absurd hjoin.1 (h.spoken part (hl ▸ List.mem_cons_self))
  rw [StreamAccumulator.content, assembled, h.text, h.calls, ← h.reasoning]
  simp only [hparts, h.reasoning]

/-- The accumulated message, from what the whole stream says. -/
theorem response_content [CostTable] {events : List StreamEvent} (h : Unnamed events) :
    (processAll {} events).response.message.content =
      assembled (textOf events) (reasoningOf events) (callsOf events) :=
  (collected_start.processAll h).content

theorem process_toolCalls (a : StreamAccumulator) (event : StreamEvent) :
    (a.process event).toolCalls = a.toolCalls ++ event.ended.toList := by
  rw [process, StreamEvent.ended]
  cases event.type with
  | textDelta => cases heard event.delta <;> exact (List.append_nil _).symm
  | reasoningDelta => cases heard event.reasoningDelta <;> exact (List.append_nil _).symm
  | toolCallEnd =>
    cases event.toolCall with
    | none => exact (List.append_nil _).symm
    | some call => rfl
  | finish =>
    unfold finish
    cases event.response <;> exact (List.append_nil _).symm
  | _ => exact (List.append_nil _).symm

theorem processAll_toolCalls (a : StreamAccumulator) (events : List StreamEvent) :
    (a.processAll events).toolCalls = a.toolCalls ++ callsOf events := by
  induction events generalizing a with
  | nil => exact (List.append_nil _).symm
  | cons event events ih =>
    show ((a.process event).processAll events).toolCalls = _
    rw [ih, process_toolCalls, callsOf_cons, List.append_assoc]

/-- The calls of a response, from those of its stream. -/
theorem response_toolCalls [CostTable] (events : List StreamEvent) :
    (processAll {} events).response.toolCalls = (callsOf events).map ToolCall.data := by
  have hcalls : ∀ calls : List ToolCall,
      (calls.map fun call => ContentPart.ofToolCall call.data).filterMap (fun part =>
        if part.kind = .toolCall then part.toolCall else none) = calls.map ToolCall.data := by
    intro calls
    induction calls with
    | nil => rfl
    | cons call calls ih => exact congrArg (call.data :: ·) ih
  have hpart : ∀ (c : Prop) [Decidable c] (part : ContentPart), part.kind ≠ .toolCall →
      (if c then [] else [part]).filterMap (fun part =>
        if part.kind = .toolCall then part.toolCall else none) = [] := by
    intro c _ part hkind
    split
    · rfl
    · rw [List.filterMap_cons, if_neg hkind]
      rfl
  have htext : ∀ text, (ContentPart.ofText text).kind ≠ .toolCall := by
    intro text
    exact nofun
  have hthought : ∀ thinking, (ContentPart.ofThinking thinking).kind ≠ .toolCall := by
    intro thinking
    exact nofun
  rw [Response.toolCalls]
  show (content _).filterMap _ = _
  rw [content, List.filterMap_append, List.filterMap_append, hpart _ _ (htext _),
    hpart _ _ (hthought _), hcalls, processAll_toolCalls]
  rfl

/-- The text of a response, from its stream. -/
theorem response_text [CostTable] {events : List StreamEvent} (h : Unnamed events) :
    (processAll {} events).response.text = textOf events := by
  have hcalls : ∀ calls : List ToolCall,
      (calls.map fun call => ContentPart.ofToolCall call.data).filterMap (fun part =>
        if part.kind = .text then part.text else none) = [] := by
    intro calls
    induction calls with
    | nil => rfl
    | cons call calls ih => exact ih
  rw [Response.text, Message.text, response_content h, assembled, List.filterMap_append,
    List.filterMap_append, hcalls, List.append_nil]
  have hthought : ∀ (c : Prop) [Decidable c] (thinking : ThinkingData),
      (if c then [] else [ContentPart.ofThinking thinking]).filterMap (fun part =>
        if part.kind = .text then part.text else none) = [] := by
    intro c _ thinking
    split <;> rfl
  rw [hthought, List.append_nil]
  by_cases htext : textOf events = ""
  · rw [if_pos htext, htext]
    rfl
  · rw [if_neg htext]
    exact String.join_cons.trans String.append_empty

/-! The last FINISH is the one that counts. -/

theorem processAll_append (a : StreamAccumulator) (l l' : List StreamEvent) :
    a.processAll (l ++ l') = (a.processAll l).processAll l' :=
  List.foldl_append

theorem process_finishReason {a : StreamAccumulator} {event : StreamEvent}
    (h : event.type ≠ .finish) : (a.process event).finishReason = a.finishReason ∧
      (a.process event).usage = a.usage := by
  rw [process]
  split
  case h_4 htype => exact absurd htype h
  case h_5 => exact ⟨rfl, rfl⟩
  all_goals split <;> exact ⟨rfl, rfl⟩

theorem processAll_finishReason {a : StreamAccumulator} {l : List StreamEvent}
    (h : finishesOf l = []) : (a.processAll l).finishReason = a.finishReason ∧
      (a.processAll l).usage = a.usage := by
  induction l generalizing a with
  | nil => exact ⟨rfl, rfl⟩
  | cons event l ih =>
    rw [finishesOf, List.filter_eq_nil_iff] at h
    have hhead : event.type ≠ .finish := by simpa using h event List.mem_cons_self
    have hrest : finishesOf l = [] :=
      List.filter_eq_nil_iff.mpr fun e he => h e (List.mem_cons_of_mem _ he)
    have hstep := process_finishReason (a := a) hhead
    exact ⟨(ih hrest).1.trans hstep.1, (ih hrest).2.trans hstep.2⟩

theorem finish_finishReason (a : StreamAccumulator) (event : StreamEvent) :
    (a.finish event).finishReason = event.finishReason ∧ (a.finish event).usage = event.usage := by
  unfold finish
  split <;> exact ⟨rfl, rfl⟩

theorem processAll_finish (a : StreamAccumulator) (l : List StreamEvent) {event : StreamEvent}
    {l' : List StreamEvent} (htype : event.type = .finish) (h : finishesOf l' = []) :
    (a.processAll (l ++ event :: l')).finishReason = event.finishReason ∧
      (a.processAll (l ++ event :: l')).usage = event.usage := by
  rw [processAll_append]
  have hrest := processAll_finishReason (a := (a.processAll l).process event) h
  have hlast : (a.processAll l).process event = (a.processAll l).finish event := by
    rw [process, htype]
  rw [hlast] at hrest
  show ((((a.processAll l).process event).processAll l').finishReason = _) ∧
    (((a.processAll l).process event).processAll l').usage = _
  rw [hlast, hrest.1, hrest.2]
  exact finish_finishReason _ event

/-- Where a FINISH is the last event, its reason and its counters are the response's. -/
theorem response_finish [CostTable] (l : List StreamEvent) (id model provider : String)
    (reason : FinishReason) (usage : Usage) :
    (processAll {} (l ++ [.finishOf id model provider reason usage])).response.finishReason =
        reason ∧
      (processAll {} (l ++ [.finishOf id model provider reason usage])).response.usage.counts =
        usage.counts := by
  have htype : (StreamEvent.finishOf id model provider reason usage).type = .finish := rfl
  obtain ⟨hreason, husage⟩ := processAll_finish {} l htype finishesOf_nil
  generalize processAll {} (l ++ [.finishOf id model provider reason usage]) = acc
    at hreason husage
  refine ⟨?_, ?_⟩
  · show acc.finishReason.getD _ = _
    rw [hreason]
    rfl
  · show acc.pricedUsage.counts = _
    rw [pricedUsage, husage]
    by_cases hmodel : acc.model = ""
    · rw [if_pos hmodel]
      rfl
    · rw [if_neg hmodel]
      exact Usage.withCost_counts ..

end StreamAccumulator

end Llm
end DotRunner
