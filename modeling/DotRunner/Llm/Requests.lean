import DotRunner.Gathering
import DotRunner.Llm.Accumulator
import DotRunner.Py.JsonLine

/-!
# Requests

What an adapter is asked to send, and how a translation may end.  Three of the
adapters take system and developer messages out of the conversation; the rest goes
out in the order it has.
-/

namespace DotRunner
namespace Llm

open Py Gathering
open StreamAccumulator (heard)

structure ResponseFormat where
  type : String

structure Request where
  messages : List Message
  responseFormat : Option ResponseFormat := none

/-- What a translator raises. -/
inductive RequestError where
  | configurationError (message : String)
  /-- `json.loads` on a text that is not JSON -/
  | jsonDecodeError
  /-- `json.loads` on what is no text, `json.dumps` on what has no JSON form -/
  | typeError
deriving DecidableEq

/-- `repr(part.kind)` -/
def ContentKind.repr [Runtime] : ContentKind → String
  | .text => "<ContentKind.TEXT: 'text'>"
  | .image => "<ContentKind.IMAGE: 'image'>"
  | .audio => "<ContentKind.AUDIO: 'audio'>"
  | .document => "<ContentKind.DOCUMENT: 'document'>"
  | .toolCall => "<ContentKind.TOOL_CALL: 'tool_call'>"
  | .toolResult => "<ContentKind.TOOL_RESULT: 'tool_result'>"
  | .thinking => "<ContentKind.THINKING: 'thinking'>"
  | .redactedThinking => "<ContentKind.REDACTED_THINKING: 'redacted_thinking'>"
  | .other name => Value.reprStr name

/-- `arguments if isinstance(arguments, dict) else json.loads(arguments)` -/
def argumentsObject [Runtime] : Value → Except RequestError Value
  | .dict kvs => .ok (.dict kvs)
  | .keyed kinds kvs => .ok (.keyed kinds kvs)
  | .str text => match Json.loads text.toList with
    | some v => .ok v
    | none => .error .jsonDecodeError
  | _ => .error .typeError

/-- The only exception a translation is meant to raise. -/
def RequestError.IsConfiguration : RequestError → Prop
  | .configurationError _ => True
  | _ => False

/-! ## Parts -/

section Parts

variable [Runtime]

/-- `json.dumps(v)` -/
def dumped (v : Value) : Except RequestError String :=
  match Json.dumpsLine v with
  | .ok text => .ok text
  | .error _ => .error .typeError

/-- `content if isinstance(content, str) else json.dumps(content)` -/
def contentText : Value → Except RequestError String
  | .str text => .ok text
  | v => dumped v

/-- `json.dumps(arguments) if isinstance(arguments, dict) else arguments` -/
def argumentsText : Value → Except RequestError Value
  | .dict kvs => (dumped (.dict kvs)).map .str
  | .keyed kinds kvs => (dumped (.keyed kinds kvs)).map .str
  | v => .ok v

end Parts

/-- An image comes from its url, or else from its bytes. -/
inductive ImageSource where
  | url (url : String)
  | data (data : List UInt8)

def ImageData.source (image : ImageData) : Option ImageSource :=
  match heard image.url, image.data.filter (· ≠ []) with
  | some url, _ => some (.url url)
  | none, some data => some (.data data)
  | none, none => none

/-- `media_type or "image/png"` -/
def ImageData.mime (image : ImageData) : String := (heard image.mediaType).getD "image/png"

/-! ## Conversations -/

def Role.isSystem : Role → Bool
  | .system | .developer => true
  | _ => false

/-- The calls an assistant message makes. -/
def Message.callsMade (m : Message) : List ToolCallData :=
  if m.role = .assistant then
    m.content.filterMap fun part => if part.kind = .toolCall then part.toolCall else none
  else []

/-- A part where it stands: in a message of this role, after these calls. -/
structure Placed where
  role : Role
  part : ContentPart
  made : List ToolCallData

def placedFrom (made : List ToolCallData) : List Message → List Placed
  | [] => []
  | m :: ms => m.content.map (⟨m.role, ·, made⟩) ++ placedFrom (made ++ m.callsMade) ms

/-- The messages that are no system messages. -/
def conversation (messages : List Message) : List Message :=
  messages.filter fun m => !m.role.isSystem

theorem role_of_placedFrom {made : List ToolCallData} {messages : List Message} {p : Placed}
    (h : p ∈ placedFrom made messages) : ∃ m ∈ messages, p.role = m.role := by
  induction messages generalizing made with
  | nil => cases h
  | cons m messages ih =>
    rcases List.mem_append.mp h with h | h
    · obtain ⟨part, -, rfl⟩ := List.mem_map.mp h
      exact ⟨m, List.mem_cons_self, rfl⟩
    · obtain ⟨m', hm', hrole⟩ := ih h
      exact ⟨m', List.mem_cons_of_mem _ hm', hrole⟩

/-- The parts of the conversation, in order. -/
def placed (messages : List Message) : List Placed := placedFrom [] (conversation messages)

theorem placed_role {messages : List Message} {p : Placed} (h : p ∈ placed messages) :
    p.role.isSystem = false := by
  obtain ⟨m, hm, hrole⟩ := role_of_placedFrom h
  rw [hrole]
  simpa using (List.mem_filter.mp hm).2

/-- The parts of the system and developer messages, in order. -/
def systemParts (messages : List Message) : List ContentPart :=
  (messages.filter fun m => m.role.isSystem).flatMap Message.content

/-- What a text part says, a text says. -/
def SaysText (text : String) (part : ContentPart) : Prop :=
  part.kind = .text ∧ part.text = some text

/-- The system's texts and the units of a payload say every part of a request,
once and in order. -/
structure Represents {β : Type} (Says : β → Placed → Prop) (system : List String) (units : List β)
    (messages : List Message) : Prop where
  system : List.Forall₂ SaysText system (systemParts messages)
  conversation : List.Forall₂ Says units (placed messages)

/-! ## Parts that are translated alike -/

section Families

variable {β : Type}

/-- A part of a user message: texts and images, the latter if they have a source. -/
def userPart (text : String → β) (image : ImageData → ImageSource → β)
    (unsupported : ContentKind → RequestError) (part : ContentPart) :
    Except RequestError (List β) :=
  match part.kind, part.text, part.image with
  | .text, some t, _ => .ok [text t]
  | .image, _, some i => .ok ((i.source.map (image i)).toList)
  | kind, _, _ => .error (unsupported kind)

def userFate (part : ContentPart) : Fate :=
  match part.kind, part.text, part.image with
  | .text, some _, _ => .sent
  | .image, _, some i => if i.source.isSome then .sent else .lost
  | _, _, _ => .refused

theorem userPart_meets {R : β → Prop} {text : String → β} {image : ImageData → ImageSource → β}
    {unsupported : ContentKind → RequestError} {part : ContentPart}
    (hunsupported : ∀ kind, (unsupported kind).IsConfiguration)
    (htext : ∀ t, part.kind = .text → part.text = some t → R (text t))
    (himage : ∀ i source, part.kind = .image → part.image = some i → i.source = some source →
      R (image i source)) :
    Meets RequestError.IsConfiguration R (userPart text image unsupported part)
      (userFate part) := by
  unfold userPart userFate
  split
  case h_1 t hkind ht => exact .sent (htext t hkind ht)
  case h_2 i hkind hi =>
    cases hsource : i.source with
    | none => exact .dropped
    | some source => exact .sent (himage i source hkind hi hsource)
  case h_3 => exact .refused (hunsupported _)

/-- The content of a result is a text, or becomes one. -/
def resultFate [Runtime] (part : ContentPart) : Fate :=
  match part.kind, part.toolResult with
  | .toolResult, some result =>
    match contentText result.content with
    | .ok _ => .sent
    | .error _ => .crashed
  | _, _ => .lost

/-- A part of a tool message: what is no result is passed over. -/
def resultPart (unit : ToolResultData → Except RequestError β) (part : ContentPart) :
    Except RequestError (List β) :=
  match part.kind, part.toolResult with
  | .toolResult, some result => (unit result).map ([·])
  | _, _ => .ok []

theorem dumped_error [Runtime] {v : Value} {e : RequestError} (h : dumped v = .error e) :
    ¬e.IsConfiguration := by
  unfold dumped at h
  split at h
  · cases h
  · rw [← Except.error.inj h]
    exact id

theorem contentText_error [Runtime] {v : Value} {e : RequestError} (h : contentText v = .error e) :
    ¬e.IsConfiguration := by
  unfold contentText at h
  split at h
  · cases h
  · exact dumped_error h

theorem resultPart_meets [Runtime] {R : β → Prop} {unit : ToolResultData → String → β}
    {part : ContentPart}
    (hunit : ∀ result text, part.kind = .toolResult → part.toolResult = some result →
      contentText result.content = .ok text → R (unit result text)) :
    Meets RequestError.IsConfiguration R
      (resultPart (fun result => (contentText result.content).map (unit result)) part)
      (resultFate part) := by
  unfold resultPart resultFate
  split
  case h_1 result hkind hresult =>
    show Meets _ _ (((contentText result.content).map (unit result)).map ([·])) _
    cases htext : contentText result.content with
    | ok text => exact .sent (hunit result text hkind hresult htext)
    | error e => exact .crashed (contentText_error htext)
  case h_2 => exact .dropped

end Families

/-! ## System messages apart -/

/-- What is no text, or an empty one, is passed over. -/
def systemText (part : ContentPart) : Option String :=
  if part.kind = .text then heard part.text else none

def systemFate (part : ContentPart) : Fate :=
  if (systemText part).isSome then .sent else .lost

structure Hoisted (ι : Type) where
  system : List String := []
  items : List ι := []

section Hoist

variable {ι β : Type} (translate : Message → Except RequestError (List ι))

/-- A message: its texts to the system's, or what it translates to. -/
def addMessage (p : Hoisted ι) (m : Message) : Except RequestError (Hoisted ι) :=
  if m.role.isSystem then
    .ok { p with system := p.system ++ m.content.filterMap systemText }
  else (translate m).map fun items => { p with items := p.items ++ items }

def hoist (messages : List Message) : Except RequestError (Hoisted ι) :=
  messages.foldlM (addMessage translate) {}

theorem foldlM_addMessage (p : Hoisted ι) (messages : List Message) :
    messages.foldlM (addMessage translate) p =
      (gather translate (conversation messages)).map fun items =>
        { system := p.system ++ (systemParts messages).filterMap systemText
          items := p.items ++ items } := by
  induction messages generalizing p with
  | nil =>
    show Except.ok p = .ok { system := p.system ++ [], items := p.items ++ [] }
    rw [List.append_nil, List.append_nil]
  | cons m messages ih =>
    rw [List.foldlM_cons, addMessage, conversation, systemParts, List.filter_cons, List.filter_cons]
    cases m.role.isSystem with
    | true =>
      show messages.foldlM (addMessage translate) _ = _
      rw [ih, if_pos rfl, List.flatMap_cons, List.filterMap_append]
      simp only [List.append_assoc]
      rfl
    | false =>
      show ((translate m).map _ >>= _) = (gather translate (m :: conversation messages)).map _
      rw [gather_cons]
      cases translate m with
      | error e => rfl
      | ok items =>
        show messages.foldlM (addMessage translate) _ = _
        rw [ih]
        cases gather translate (conversation messages) with
        | error e => rfl
        | ok rest =>
          refine congrArg Except.ok ?_
          show (⟨_, p.items ++ items ++ rest⟩ : Hoisted ι) = ⟨_, p.items ++ (items ++ rest)⟩
          rw [List.append_assoc]
          rfl

theorem hoist_eq (messages : List Message) : hoist translate messages =
    (gather translate (conversation messages)).map fun items =>
      { system := (systemParts messages).filterMap systemText, items := items } :=
  foldlM_addMessage translate {} messages

section Faithful

variable {translate} {units : ι → List β} {Says : β → Placed → Prop} {fate : Placed → Fate}
variable {part : Role → ContentPart → Except RequestError (List β)}

/-- Part by part, as far as a message is its parts. -/
theorem gather_placedFrom (made : List ToolCallData) (messages : List Message) :
    gather (fun m : Message => gather (part m.role) m.content) messages =
      gather (fun p => part p.role p.part) (placedFrom made messages) := by
  induction messages generalizing made with
  | nil => rfl
  | cons m messages ih => rw [gather_cons, placedFrom, gather_append, gather_map, ih]

theorem gather_conversation
    (hunits : ∀ m : Message, m.role.isSystem = false →
      (translate m).map (List.flatMap units) = gather (part m.role) m.content)
    (messages : List Message) :
    (gather translate (conversation messages)).map (List.flatMap units) =
      gather (fun p => part p.role p.part) (placed messages) := by
  rw [placed, ← gather_placedFrom, map_gather]
  refine gather_congr fun m hm => hunits m ?_
  have hsystem := (List.mem_filter.mp hm).2
  simpa using hsystem

/-- The system's texts say its parts if these are texts, and none is empty. -/
theorem system_says_iff (parts : List ContentPart) :
    List.Forall₂ SaysText (parts.filterMap systemText) parts ↔
      ∀ p ∈ parts, systemFate p = .sent := by
  have hgather : gather (fun p => (.ok (systemText p).toList : Except Empty (List String))) parts =
      .ok (parts.filterMap systemText) := by
    induction parts with
    | nil => rfl
    | cons p parts ih =>
      rw [gather_cons, ih, List.filterMap_cons]
      cases systemText p <;> rfl
  suffices hmeets : ∀ p ∈ parts, Meets (fun _ : Empty => True) (SaysText · p)
      (.ok (systemText p).toList) (systemFate p) from (gather_ok hmeets hgather).2.2
  intro p _
  rw [systemFate]
  cases htext : systemText p with
  | none => exact .dropped
  | some text =>
    refine .sent ?_
    rw [systemText] at htext
    by_cases hkind : p.kind = .text
    · rw [if_pos hkind] at htext
      exact ⟨hkind, (Option.filter_eq_some_iff.mp htext).1⟩
    · rw [if_neg hkind] at htext
      cases htext

theorem systemFate_stops (parts : List ContentPart) :
    (parts.map systemFate).find? Fate.stops = none := by
  refine List.find?_eq_none.mpr fun ending hmem => ?_
  obtain ⟨p, -, rfl⟩ := List.mem_map.mp hmem
  rw [systemFate]
  split <;> exact nofun

/-- What goes out with the system's texts apart is refused, or says everything,
exactly if the fates of all parts are settled. -/
theorem faithful_hoist_iff {P : Hoisted ι → Prop} {messages : List Message}
    (hunits : ∀ m : Message, m.role.isSystem = false →
      (translate m).map (List.flatMap units) = gather (part m.role) m.content)
    (hmeets : ∀ p ∈ placed messages,
      Meets RequestError.IsConfiguration (Says · p) (part p.role p.part) (fate p))
    (hP : ∀ items, P { system := (systemParts messages).filterMap systemText, items := items } ↔
      Represents Says ((systemParts messages).filterMap systemText) (items.flatMap units)
        messages) :
    Faithful RequestError.IsConfiguration P (hoist translate messages) ↔
      Settled ((systemParts messages).map systemFate ++ (placed messages).map fate) := by
  have hparts := gather_conversation hunits messages
  have hsettled := faithful_gather_iff hmeets
  rw [hoist_eq, faithful_map, Settled, List.find?_append, systemFate_stops, Option.none_or,
    List.forall_mem_append, List.forall_mem_map]
  rw [← hparts, faithful_map, Settled] at hsettled
  cases hgather : gather translate (conversation messages) with
  | error e =>
    rw [hgather] at hsettled hparts
    refine ⟨fun hmay => ?_, fun h => ?_⟩
    · rcases gather_error hmeets hparts.symm with ⟨-, hfirst⟩ | ⟨hnot, -⟩
      · exact .inl hfirst
      · exact absurd hmay hnot
    · exact hsettled.mpr (h.imp id And.right)
  | ok items =>
    rw [hgather] at hparts
    obtain ⟨hnone, -, hall⟩ := gather_ok hmeets hparts.symm
    rw [hnone]
    refine (hP items).trans ⟨fun h => ?_, fun h => ?_⟩
    · exact .inr ⟨(system_says_iff _).mp h.system, List.forall_mem_map.mpr (hall.mp h.conversation)⟩
    · obtain ⟨hsystem, hsent⟩ := h.resolve_left fun hfirst => by cases hfirst
      exact ⟨(system_says_iff _).mpr hsystem, hall.mpr (List.forall_mem_map.mp hsent)⟩

/-- It raises nothing it may not, exactly if the first part that stops it does not
crash. -/
theorem hoist_mayRaise_iff {messages : List Message}
    (hunits : ∀ m : Message, m.role.isSystem = false →
      (translate m).map (List.flatMap units) = gather (part m.role) m.content)
    (hmeets : ∀ p ∈ placed messages,
      Meets RequestError.IsConfiguration (Says · p) (part p.role p.part) (fate p)) :
    Faithful RequestError.IsConfiguration (fun _ => True) (hoist translate messages) ↔
      ((systemParts messages).map systemFate ++ (placed messages).map fate).find? Fate.stops ≠
        some .crashed := by
  have hparts := gather_conversation hunits messages
  rw [hoist_eq, faithful_map, List.find?_append, systemFate_stops, Option.none_or]
  cases hgather : gather translate (conversation messages) with
  | error e =>
    rw [hgather] at hparts
    rcases gather_error hmeets hparts.symm with ⟨hmay, hfirst⟩ | ⟨hnot, hfirst⟩
    · exact iff_of_true hmay (by rw [hfirst]; exact nofun)
    · exact iff_of_false hnot fun hne => hne hfirst
  | ok items =>
    rw [hgather] at hparts
    exact iff_of_true trivial (by rw [(gather_ok hmeets hparts.symm).1]; exact nofun)

end Faithful

end Hoist

/-! ## Texts put together -/

/-- `sep.join(texts) if texts else None` -/
def joined (sep : String) (texts : List String) : Option String :=
  if texts = [] then none else some (Text.join sep texts)

section Joined

variable {sep : String}

/-- The length of the texts, each with its separator. -/
def spread (sep : String) (texts : List String) : Nat :=
  (texts.map fun text => text.length + sep.length).sum

theorem join_length (text : String) (texts : List String) :
    (Text.join sep (text :: texts)).length + sep.length = spread sep (text :: texts) := by
  induction texts generalizing text with
  | nil => rfl
  | cons text' texts ih =>
    have hrest := ih text'
    rw [spread, List.map_cons, List.sum_cons]
    rw [spread] at hrest
    rw [Text.join, String.length_append, String.length_append]
    · omega
    · exact nofun

/-- Without its empty texts a list is shorter, unless it has none. -/
theorem spread_filter (hsep : sep ≠ "") (texts : List String) :
    texts.filter (· ≠ "") = texts ∨
      spread sep (texts.filter (· ≠ "")) < spread sep texts := by
  have hpos : 0 < sep.length := by
    rw [Nat.pos_iff_ne_zero]
    exact fun hzero => hsep (String.length_eq_zero_iff.mp hzero)
  induction texts with
  | nil => exact .inl rfl
  | cons text texts ih =>
    by_cases htext : text = ""
    · right
      rw [List.filter_cons_of_neg (by simpa using htext)]
      have hle : spread sep (texts.filter (· ≠ "")) ≤ spread sep texts := by
        rcases ih with hsame | hlt
        · rw [hsame]
        · exact hlt.le
      show _ < (text.length + sep.length) + spread sep texts
      omega
    · rw [List.filter_cons_of_pos (by simpa using htext)]
      refine ih.imp (congrArg (text :: ·)) fun hlt => ?_
      show (text.length + sep.length) + spread sep _ < (text.length + sep.length) + spread sep texts
      omega

/-- A text that is put together from the non-empty texts is that of all texts only if
none is empty. -/
theorem joined_filter (hsep : sep ≠ "") {texts : List String}
    (h : joined sep (texts.filter (· ≠ "")) = joined sep texts) :
    texts.filter (· ≠ "") = texts := by
  refine (spread_filter hsep texts).resolve_right fun hlt => ?_
  cases hkept : texts.filter (· ≠ "") with
  | nil =>
    cases texts with
    | nil => exact absurd hlt (Nat.lt_irrefl _)
    | cons text texts =>
      rw [hkept] at h
      cases h
  | cons kept rest =>
    cases texts with
    | nil => cases hkept
    | cons text texts =>
      rw [hkept] at h hlt
      have hjoin : Text.join sep (kept :: rest) = Text.join sep (text :: texts) := Option.some.inj h
      rw [← join_length, ← join_length, hjoin] at hlt
      exact absurd hlt (Nat.lt_irrefl _)

theorem filterMap_systemText {texts : List String} {parts : List ContentPart}
    (h : List.Forall₂ SaysText texts parts) :
    parts.filterMap systemText = texts.filter (· ≠ "") := by
  induction h with
  | nil => rfl
  | @cons text part texts parts htold _ ih =>
    have htext : systemText part = heard (some text) := by
      rw [systemText, if_pos htold.1, htold.2]
    rw [List.filterMap_cons, List.filter_cons, htext, ih, heard, Option.filter_some]
    by_cases hempty : text = "" <;> simp [hempty]

/-- Put together, the texts still tell whether they say all parts. -/
theorem joined_says_iff (hsep : sep ≠ "") (parts : List ContentPart) :
    (∃ texts, joined sep (parts.filterMap systemText) = joined sep texts ∧
        List.Forall₂ SaysText texts parts) ↔
      List.Forall₂ SaysText (parts.filterMap systemText) parts := by
  refine ⟨fun ⟨texts, hjoined, htold⟩ => ?_, fun htold => ⟨_, rfl, htold⟩⟩
  rw [filterMap_systemText htold] at hjoined ⊢
  rw [joined_filter hsep hjoined]
  exact htold

theorem joined_represents_iff {β : Type} (Says : β → Placed → Prop) (units : List β)
    (messages : List Message) :
    (∃ texts, joined "\n\n" ((systemParts messages).filterMap systemText) = joined "\n\n" texts ∧
        Represents Says texts units messages) ↔
      Represents Says ((systemParts messages).filterMap systemText) units messages := by
  have hjoined : (∃ texts, joined "\n\n" ((systemParts messages).filterMap systemText) =
      joined "\n\n" texts ∧ List.Forall₂ SaysText texts (systemParts messages)) ↔ _ :=
    joined_says_iff (by decide) (systemParts messages)
  refine ⟨fun ⟨texts, hsame, hrep⟩ => ⟨hjoined.mp ⟨texts, hsame, hrep.system⟩, hrep.conversation⟩,
    fun hrep => ⟨_, rfl, hrep⟩⟩

end Joined

theorem argumentsText_error [Runtime] {v : Value} {e : RequestError}
    (h : argumentsText v = .error e) : ¬e.IsConfiguration := by
  have hdumped : ∀ w : Value, (dumped w).map Value.str = .error e → ¬e.IsConfiguration := by
    intro w hw
    cases hd : dumped w with
    | ok text =>
      rw [hd] at hw
      cases hw
    | error e' =>
      rw [hd] at hw
      rw [← Except.error.inj hw]
      exact dumped_error hd
  unfold argumentsText at h
  split at h
  · exact hdumped _ h
  · exact hdumped _ h
  · cases h

theorem argumentsObject_error [Runtime] {v : Value} {e : RequestError}
    (h : argumentsObject v = .error e) : ¬e.IsConfiguration := by
  unfold argumentsObject at h
  split at h
  · cases h
  · cases h
  · split at h
    · cases h
    · rw [← Except.error.inj h]
      exact id
  · rw [← Except.error.inj h]
    exact id

end Llm
end DotRunner
