import DotRunner.Llm.Requests

/-!
# Requests to OpenAI-compatible servers

A message becomes one message, of one of four forms.
-/

namespace DotRunner
namespace Llm
namespace OpenAICompat

open Py Gathering

inductive ChatPart where
  | text (text : String)
  | imageUrl (url : String)
  /-- a `data:` url, with the bytes in base64 -/
  | imageData (mediaType : String) (data : List UInt8)

structure ChatCall where
  id : String
  name : String
  arguments : Value

inductive ChatMessage where
  | toolResult (toolCallId content : String)
  | toolCalls (content : Option String) (calls : List ChatCall)
  | parts (role : String) (content : List ChatPart)
  | text (role content : String)

def mapRole : Role → String
  | .system => "system"
  | .user => "user"
  | .assistant => "assistant"
  | .tool => "tool"
  | .developer => "system"

section Translate

variable [Runtime]

def unsupportedPart (kind : ContentKind) : RequestError :=
  .configurationError ("OpenAI-compat adapter: unsupported content kind " ++
    (kind.repr ++ " in message. Only TEXT and IMAGE parts are ") ++
    "supported. AUDIO and DOCUMENT parts are not yet implemented.")

omit [Runtime] in
def chatImage (image : ImageData) : ImageSource → ChatPart
  | .url url => .imageUrl url
  | .data data => .imageData image.mime data

omit [Runtime] in
def resultOf (part : ContentPart) : Option ToolResultData :=
  if part.kind = .toolResult then part.toolResult else none

omit [Runtime] in
def callOf (part : ContentPart) : Option ToolCallData :=
  if part.kind = .toolCall then part.toolCall else none

def chatCall (call : ToolCallData) : Except RequestError ChatCall :=
  (argumentsText call.arguments).map fun arguments => ⟨call.id, call.name, arguments⟩

/-- The calls among the parts. -/
def chatCalls (parts : List ContentPart) : Except RequestError (List ChatCall) :=
  gather (fun part => match callOf part with
    | some call => (chatCall call).map ([·])
    | none => .ok []) parts

def chatParts (parts : List ContentPart) : Except RequestError (List ChatPart) :=
  gather (userPart .text chatImage unsupportedPart) parts

/-- The first result, or the texts and the calls, or the parts, or the text. -/
def translateMessage (m : Message) : Except RequestError ChatMessage :=
  match m.content.filterMap resultOf with
  | result :: _ => (contentText result.content).map (.toolResult result.toolCallId)
  | [] =>
    if m.role = .assistant ∧ m.content.any (fun part => (callOf part).isSome) then
      (chatCalls m.content).map (.toolCalls (joined "\n" (m.content.filterMap systemText)))
    else if m.content.any fun part => part.kind ≠ .text then
      (chatParts m.content).map (.parts (mapRole m.role))
    else .ok (.text (mapRole m.role) m.text)

/-- `OpenAICompatAdapter._translate_request`, as far as the messages go. -/
def translateRequest (request : Request) : Except RequestError (List ChatMessage) :=
  gather (fun m => (translateMessage m).map ([·])) request.messages

end Translate

/-! ## What a message says -/

section Says

variable [Runtime]

def SaysCall (call : ChatCall) (part : ContentPart) : Prop :=
  part.kind = .toolCall ∧ ∃ data, part.toolCall = some data ∧ data.id = call.id ∧
    data.name = call.name ∧ argumentsText data.arguments = .ok call.arguments

omit [Runtime] in
def SaysPart : ChatPart → ContentPart → Prop
  | .text text, part => part.kind = .text ∧ part.text = some text
  | .imageUrl url, part => part.kind = .image ∧
    ∃ image, part.image = some image ∧ image.source = some (.url url)
  | .imageData mime data, part => part.kind = .image ∧
    ∃ image, part.image = some image ∧ image.source = some (.data data) ∧ image.mime = mime

/-- The message has every part of the original, once and in order; where texts and
calls have fields of their own, in order within each. -/
def Says : ChatMessage → Message → Prop
  | .toolResult toolCallId content, m => ∃ part result, m.content = [part] ∧
    part.kind = .toolResult ∧ part.toolResult = some result ∧ result.toolCallId = toolCallId ∧
      contentText result.content = .ok content
  | .toolCalls content calls, m => m.role = .assistant ∧
    (∀ part ∈ m.content, part.kind = .text ∨ part.kind = .toolCall) ∧
      (∃ texts, content = joined "\n" texts ∧
        List.Forall₂ SaysText texts (m.content.filter fun part => part.kind = .text)) ∧
      List.Forall₂ SaysCall calls (m.content.filter fun part => part.kind = .toolCall)
  | .parts role content, m => role = mapRole m.role ∧ List.Forall₂ SaysPart content m.content
  | .text role content, m => role = mapRole m.role ∧
    ∃ texts, content = String.join texts ∧ List.Forall₂ SaysText texts m.content

def callFate (part : ContentPart) : Fate :=
  match callOf part with
  | some call => match argumentsText call.arguments with
    | .ok _ => .sent
    | .error _ => .crashed
  | none => .lost

/-- A part beside calls is a text that is not empty, or a call. -/
def besideFate (part : ContentPart) : Fate :=
  if (systemText part).isSome then .sent else callFate part

/-- What becomes of a message. -/
def messageFate (m : Message) : Fate :=
  match m.content.filterMap resultOf with
  | result :: _ => match contentText result.content with
    | .error _ => .crashed
    | .ok _ => if m.content.length = 1 then .sent else .lost
  | [] =>
    if m.role = .assistant ∧ m.content.any (fun part => (callOf part).isSome) then
      wholeFate (m.content.map besideFate)
    else if m.content.any fun part => part.kind ≠ .text then
      wholeFate (m.content.map userFate)
    else if m.content.all fun part => part.text.isSome then .sent else .lost

/-- The request is refused, or every message says all its parts. -/
def NothingDropped (request : Request) : Prop :=
  Faithful RequestError.IsConfiguration (fun messages : List ChatMessage =>
    List.Forall₂ Says messages request.messages) (translateRequest request)

/-! ## What is dropped -/

section Drops

omit [Runtime] in
theorem all_text {m : Message} (h : ¬(m.content.any fun part => part.kind ≠ .text) = true) :
    ∀ part ∈ m.content, part.kind = .text := by
  simpa using h

theorem says_text_iff {m : Message} (hkinds : ∀ part ∈ m.content, part.kind = .text) :
    Says (.text (mapRole m.role) m.text) m ↔ ∀ part ∈ m.content, part.text.isSome = true := by
  refine ⟨fun h part hpart => ?_, fun hall => ⟨rfl, ?_⟩⟩
  · obtain ⟨-, texts, -, htold⟩ := h
    generalize m.content = parts at hpart htold
    obtain ⟨text, -, htext⟩ : ∃ text ∈ texts, SaysText text part := by
      induction htold with
      | nil => cases hpart
      | @cons text part' texts parts htold _ ih =>
        rcases List.mem_cons.mp hpart with rfl | hpart
        · exact ⟨text, List.mem_cons_self, htold⟩
        · obtain ⟨text', hmem, htold'⟩ := ih hpart
          exact ⟨text', List.mem_cons_of_mem _ hmem, htold'⟩
    rw [htext.2]
    rfl
  · rw [Message.text]
    refine ⟨_, rfl, ?_⟩
    generalize m.content = parts at hkinds hall
    induction parts with
    | nil => exact .nil
    | cons part parts ih =>
      obtain ⟨text, htext⟩ := Option.isSome_iff_exists.mp (hall part List.mem_cons_self)
      have hkind := hkinds part List.mem_cons_self
      rw [List.filterMap_cons, if_pos hkind, htext]
      exact .cons ⟨hkind, htext⟩ (ih (fun p hp => hkinds p (List.mem_cons_of_mem _ hp))
        fun p hp => hall p (List.mem_cons_of_mem _ hp))

theorem chatPart_meets (part : ContentPart) : Meets RequestError.IsConfiguration (SaysPart · part)
    (userPart .text chatImage unsupportedPart part) (userFate part) := by
  refine userPart_meets (fun _ => trivial) (fun t hkind htext => ⟨hkind, htext⟩)
    fun i source hkind himage hsource => ?_
  cases source with
  | url url => exact ⟨hkind, i, himage, hsource⟩
  | data data => exact ⟨hkind, i, himage, hsource, rfl⟩

/-- One call among the parts. -/
def callUnits (part : ContentPart) : Except RequestError (List ChatCall) :=
  match callOf part with
  | some call => (chatCall call).map ([·])
  | none => .ok []

theorem callUnits_meets (part : ContentPart) :
    Meets RequestError.IsConfiguration (SaysCall · part) (callUnits part) (callFate part) := by
  rw [callUnits, callFate]
  cases hcall : callOf part with
  | none => exact .dropped
  | some call =>
    have hpart : part.kind = .toolCall ∧ part.toolCall = some call := by
      rw [callOf] at hcall
      by_cases hkind : part.kind = .toolCall
      · rw [if_pos hkind] at hcall
        exact ⟨hkind, hcall⟩
      · rw [if_neg hkind] at hcall
        cases hcall
    show Meets RequestError.IsConfiguration (SaysCall · part)
      (((argumentsText call.arguments).map fun arguments =>
        (⟨call.id, call.name, arguments⟩ : ChatCall)).map ([·]))
      (match argumentsText call.arguments with
        | .ok _ => Fate.sent
        | .error _ => Fate.crashed)
    cases harguments : argumentsText call.arguments with
    | ok arguments => exact .sent ⟨hpart.1, call, hpart.2, rfl, rfl, harguments⟩
    | error e => exact .crashed (argumentsText_error harguments)

omit [Runtime] in
theorem callOf_none {part : ContentPart} (h : decide (part.kind = .toolCall) = false) :
    callOf part = none := if_neg (of_decide_eq_false h)

theorem chatCalls_eq (parts : List ContentPart) :
    chatCalls parts = gather callUnits (parts.filter fun part => part.kind = .toolCall) := by
  show gather callUnits parts = _
  refine gather_filter fun part _ hkind => ?_
  rw [callUnits, callOf_none hkind]

omit [Runtime] in
theorem systemText_call {part : ContentPart} (h : decide (part.kind = .toolCall) = true) :
    systemText part = none := by
  rw [systemText, of_decide_eq_true h]
  rfl

theorem find?_besideFate (parts : List ContentPart) :
    (parts.map besideFate).find? Fate.stops =
      ((parts.filter fun part => part.kind = .toolCall).map callFate).find? Fate.stops := by
  refine find?_stops_filter (fun part _ hkind => ?_) fun part _ hkind => ?_
  · rw [besideFate, systemText_call hkind]
    rfl
  · rw [besideFate, callFate, callOf_none hkind]
    split <;> rfl

theorem says_toolCalls_iff {m : Message} {calls : List ChatCall} (hrole : m.role = .assistant)
    (hcalls : chatCalls m.content = .ok calls) :
    Says (.toolCalls (joined "\n" (m.content.filterMap systemText)) calls) m ↔
      ∀ fate ∈ m.content.map besideFate, fate = .sent := by
  rw [chatCalls_eq] at hcalls
  obtain ⟨-, -, hall⟩ := gather_ok (fun part _ => callUnits_meets part) hcalls
  have htexts : m.content.filterMap systemText =
      (m.content.filter fun part => part.kind = .text).filterMap systemText := by
    rw [List.filterMap_filter]
    refine List.filterMap_congr fun part _ => ?_
    by_cases hkind : part.kind = .text
    · rw [if_pos (decide_eq_true hkind)]
    · rw [systemText, if_neg hkind, if_neg fun h => hkind (of_decide_eq_true h)]
  have hjoined := joined_says_iff (show "\n" ≠ "" by decide)
    (m.content.filter fun part => part.kind = .text)
  rw [List.forall_mem_map, Says, htexts, hjoined, system_says_iff, hall]
  simp only [List.mem_filter, decide_eq_true_eq, and_imp]
  refine ⟨?_, fun hsent => ⟨hrole, fun part hpart => ?_, fun part hpart hkind => ?_,
    fun part hpart hkind => ?_⟩⟩
  · rintro ⟨-, hkinds, htext, hcall⟩ part hpart
    rw [besideFate]
    rcases hkinds part hpart with hkind | hkind
    · have hsome := htext part hpart hkind
      rw [systemFate] at hsome
      by_cases hs : (systemText part).isSome = true
      · exact if_pos hs
      · rw [if_neg hs] at hsome
        cases hsome
    · rw [systemText_call (decide_eq_true hkind)]
      exact hcall part hpart hkind
  · have hpartSent := hsent part hpart
    by_cases hkind : part.kind = .toolCall
    · exact .inr hkind
    · left
      by_contra htext
      rw [besideFate, systemText, if_neg htext, callFate,
        callOf_none (decide_eq_false hkind)] at hpartSent
      cases hpartSent
  · have hpartSent := hsent part hpart
    rw [systemFate]
    rw [besideFate, callFate, callOf_none (decide_eq_false (by rw [hkind]; decide))] at hpartSent
    exact hpartSent
  · have hpartSent := hsent part hpart
    rw [besideFate, systemText_call (decide_eq_true hkind)] at hpartSent
    exact hpartSent

theorem translateMessage_meets (m : Message) :
    Meets RequestError.IsConfiguration (Says · m) ((translateMessage m).map ([·]))
      (messageFate m) := by
  unfold translateMessage messageFate
  cases hresults : m.content.filterMap resultOf with
  | cons result rest =>
    show Meets _ _
      (((contentText result.content).map (ChatMessage.toolResult result.toolCallId)).map ([·]))
      (match contentText result.content with
        | .error _ => Fate.crashed
        | .ok _ => if m.content.length = 1 then Fate.sent else Fate.lost)
    cases htext : contentText result.content with
    | error e => exact .crashed (contentText_error htext)
    | ok text =>
      show Meets _ _ (.ok [_]) (if m.content.length = 1 then Fate.sent else Fate.lost)
      by_cases hlength : m.content.length = 1
      · rw [if_pos hlength]
        obtain ⟨part, hpart⟩ := List.length_eq_one_iff.mp hlength
        have hresult : resultOf part = some result := by
          rw [hpart, List.filterMap_cons] at hresults
          cases hr : resultOf part with
          | none =>
            rw [hr] at hresults
            cases hresults
          | some r =>
            rw [hr] at hresults
            exact congrArg some (List.cons.inj hresults).1
        rw [resultOf] at hresult
        by_cases hkind : part.kind = .toolResult
        · rw [if_pos hkind] at hresult
          exact .sent ⟨part, result, hpart, hkind, hresult, rfl, htext⟩
        · rw [if_neg hkind] at hresult
          cases hresult
      · rw [if_neg hlength]
        refine .garbled fun ⟨part, _, hpart, _⟩ => hlength ?_
        rw [hpart]
        rfl
  | nil =>
    show Meets _ _ ((if m.role = .assistant ∧ m.content.any (fun part => (callOf part).isSome) then _
      else _ : Except RequestError ChatMessage).map ([·])) (if m.role = .assistant ∧
        m.content.any (fun part => (callOf part).isSome) then _ else _)
    by_cases hcalls : m.role = .assistant ∧ m.content.any (fun part => (callOf part).isSome)
    · rw [if_pos hcalls, if_pos hcalls]
      refine meets_whole (fun e he => ?_) fun out hout => ?_
      · have herror : chatCalls m.content = .error e := by
          cases hchat : chatCalls m.content with
          | error e' =>
            rw [hchat] at he
            exact congrArg Except.error (Except.error.inj he)
          | ok calls =>
            rw [hchat] at he
            cases he
        rw [chatCalls_eq] at herror
        have hends := gather_error (fun part _ => callUnits_meets part) herror
        rwa [← find?_besideFate] at hends
      · cases hchat : chatCalls m.content with
        | error e' =>
          rw [hchat] at hout
          cases hout
        | ok calls =>
          rw [hchat] at hout
          rw [← Except.ok.inj hout]
          have hgather := hchat
          rw [chatCalls_eq] at hgather
          refine ⟨?_, says_toolCalls_iff hcalls.1 hchat⟩
          exact (find?_besideFate m.content).trans
            (gather_ok (fun part _ => callUnits_meets part) hgather).1
    · rw [if_neg hcalls, if_neg hcalls]
      by_cases hkinds : (m.content.any fun part => part.kind ≠ .text) = true
      · rw [if_pos hkinds, if_pos hkinds]
        refine meets_whole (fun e he => ?_) fun out hout => ?_
        · cases hparts : chatParts m.content with
          | error e' =>
            rw [hparts] at he
            rw [← Except.error.inj he]
            exact gather_error (fun part _ => chatPart_meets part) hparts
          | ok parts =>
            rw [hparts] at he
            cases he
        · cases hparts : chatParts m.content with
          | error e' =>
            rw [hparts] at hout
            cases hout
          | ok parts =>
            rw [hparts] at hout
            obtain ⟨hnone, -, hall⟩ := gather_ok (fun part _ => chatPart_meets part) hparts
            rw [← Except.ok.inj hout, List.forall_mem_map, ← hall]
            exact ⟨hnone, fun h => h.2, fun h => ⟨rfl, h⟩⟩
      · rw [if_neg hkinds, if_neg hkinds]
        have htold := says_text_iff (all_text hkinds)
        by_cases hall : (m.content.all fun part => part.text.isSome) = true
        · rw [if_pos hall]
          exact .sent (htold.mpr (by simpa using hall))
        · rw [if_neg hall]
          exact .garbled fun h => hall (by simpa using htold.mp h)

/-- Every message gets through, or the request is refused before anything else
happens. -/
theorem nothingDropped_iff (request : Request) :
    NothingDropped request ↔ Settled (request.messages.map messageFate) :=
  faithful_gather_iff fun m _ => translateMessage_meets m

end Drops

end Says

end OpenAICompat
end Llm
end DotRunner
