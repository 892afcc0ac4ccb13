import DotRunner.Llm.Accumulator
import DotRunner.Py.Ascii
import DotRunner.Py.Strip

/-!
# Streamed objects

`stream_object` keeps the object it parses at the end of a stream, and `.object()`
hands it out.
-/

namespace DotRunner
namespace Llm

open Py

/-- `NoObjectGeneratedError` -/
structure NoObjectGenerated where
  message : String

/-- A schema, of which the validation reads the type and the required names. -/
structure JsonSchema where
  fields : Record
  requiredNames : List String
  required_eq : fields.getD "required" (.list []) = .list (requiredNames.map .str)

namespace JsonSchema

/-- `schema.get("type") == type` -/
def hasType (schema : JsonSchema) (type : String) : Bool :=
  match schema.fields.getD "type" .none with
  | .str s => s == type
  | _ => false

end JsonSchema

/-! ## Fences -/

/-- The texts behind the line breaks among the blanks a text begins with, the last
one first. -/
def afterBreaks : List Char → List (List Char)
  | [] => []
  | c :: l => if Text.isSpace c then afterBreaks l ++ (if c = '\n' then [l] else []) else []

/-- What stands in front of a closing fence. -/
def beforeFence (l : List Char) : Option (List Char) :=
  (Text.dropPrefix? ['`', '`', '`', '\n'] l.reverse).map List.reverse

/-- ``^```(?:json)?\s*\n(.*?)\n```$``, on a stripped text -/
def fenceBody (l : List Char) : Option (List Char) := do
  let rest ← Text.dropPrefix? ['`', '`', '`'] l
  let rest := (Text.dropPrefix? ['j', 's', 'o', 'n'] rest).getD rest
  (afterBreaks rest).findSome? beforeFence

section Objects

-- What the JSON decoder says of a text it cannot read.
variable [Runtime] (decodeMessage : List Char → String)

/-- `_parse_json_response` -/
def parseJsonResponse (text : List Char) : Except NoObjectGenerated Value :=
  let stripped := Text.strip text
  let stripped := match fenceBody stripped with
    | some body => Text.strip body
    | none => stripped
  match Json.loads stripped with
  | some v => .ok v
  | none => .error ⟨"Failed to parse JSON from response: " ++ decodeMessage stripped⟩

/-- `_validate_against_schema` -/
def validateAgainstSchema (obj : Value) (schema : JsonSchema) : Except NoObjectGenerated Unit :=
  if schema.hasType "object" then
    match obj with
    | .dict kvs =>
      let missing := schema.requiredNames.filter fun r => (Dict.lookup r kvs).isNone
      if missing = [] then .ok ()
      else .error ⟨"Response missing required fields: " ++ Value.reprStrs missing⟩
    | obj => .error ⟨"Expected object, got " ++ obj.typeName⟩
  else if schema.hasType "array" then
    match obj with
    | .list _ => .ok ()
    | obj => .error ⟨"Expected array, got " ++ obj.typeName⟩
  else .ok ()

/-- What `generate_object` makes of a response without an extraction call. -/
def generateObject (text : List Char) (schema : JsonSchema) : Except NoObjectGenerated Value :=
  let rawText := Text.strip text
  if rawText = [] then
    .error ⟨"Provider returned empty text and no structured-output tool call. " ++
      "Structured output is unavailable for this request."⟩
  else do
    let parsed ← parseJsonResponse decodeMessage rawText
    validateAgainstSchema parsed schema
    return parsed

/-! ## The stream -/

structure StreamObjectResult where
  schema : JsonSchema
  accumulatedText : List Char := []
  lastPartial : Value := .none
  finalObject : Value := .none
  consumed : Bool := false

namespace StreamObjectResult

/-- The end of the stream: what is parsed is kept before it is validated, and a
failure is passed over. -/
def stop (s : StreamObjectResult) : StreamObjectResult :=
  let s := { s with consumed := true }
  if Text.strip s.accumulatedText = [] then s
  else match parseJsonResponse decodeMessage s.accumulatedText with
    | .error _ => s
    | .ok v => { s with finalObject := v }

/-- What one `__anext__` gives: a partial object and the events left, or the end. -/
inductive Next where
  | partialObject (v : Value) (left : List StreamEvent) (s : StreamObjectResult)
  | stopped (s : StreamObjectResult)

/-- `__anext__` -/
def anext (s : StreamObjectResult) : List StreamEvent → Next
  | [] => .stopped (s.stop decodeMessage)
  | event :: events =>
    if event.type = .textDelta ∧ event.delta.getD "" ≠ "" then
      let s := { s with accumulatedText := s.accumulatedText ++ (event.delta.getD "").toList }
      match Json.loads s.accumulatedText with
      | some v => .partialObject v events { s with lastPartial := v }
      | none => anext s events
    else anext s events

/-- The partial objects of a stream read to its end; every round takes an event. -/
def consume : Nat → StreamObjectResult → List StreamEvent → List Value × StreamObjectResult
  | 0, s, _ => ([], s)
  | f + 1, s, events => match s.anext decodeMessage events with
    | .stopped s => ([], s)
    | .partialObject v left s =>
      let rest := consume f s left
      (v :: rest.1, rest.2)

/-- `object()`, which keeps what it parses as well. -/
def object (s : StreamObjectResult) : Except NoObjectGenerated Value × StreamObjectResult :=
  match s.finalObject with
  | .none =>
    if Text.strip s.accumulatedText = [] then
      (.error ⟨"No JSON content received in stream"⟩, s)
    else match parseJsonResponse decodeMessage s.accumulatedText with
      | .error e => (.error e, s)
      | .ok v => match validateAgainstSchema v s.schema with
        | .error e => (.error e, { s with finalObject := v })
        | .ok () => (.ok v, { s with finalObject := v })
  | v => (.ok v, s)

/-- The state after some calls of `object()`. -/
def afterCalls : Nat → StreamObjectResult → StreamObjectResult
  | 0, s => s
  | n + 1, s => afterCalls n (s.object decodeMessage).2

/-- The result of a stream that has been read to its end. -/
def read (schema : JsonSchema) (events : List StreamEvent) : StreamObjectResult :=
  (consume decodeMessage (events.length + 1) { schema := schema } events).2

/-! ## Reading to the end -/

/-- `s'` has read `text` more than `s`. -/
structure Reads (s s' : StreamObjectResult) (text : List Char) : Prop where
  schema : s'.schema = s.schema
  finalObject : s'.finalObject = s.finalObject
  accumulatedText : s'.accumulatedText = s.accumulatedText ++ text

omit [Runtime] in
theorem Reads.refl (s : StreamObjectResult) : Reads s s [] := ⟨rfl, rfl, (List.append_nil _).symm⟩

omit [Runtime] in
theorem Reads.trans {s s' s'' : StreamObjectResult} {text text' : List Char}
    (h : Reads s s' text) (h' : Reads s' s'' text') : Reads s s'' (text ++ text') where
  schema := h'.schema.trans h.schema
  finalObject := h'.finalObject.trans h.finalObject
  accumulatedText := by rw [h'.accumulatedText, h.accumulatedText, List.append_assoc]

omit [Runtime] in
theorem textOf_cons_toList (event : StreamEvent) (events : List StreamEvent) :
    (textOf (event :: events)).toList = event.text.toList ++ (textOf events).toList := by
  rw [textOf_cons, String.toList_append]

omit [Runtime] in
theorem text_of_heard {event : StreamEvent}
    (h : event.type = .textDelta ∧ event.delta.getD "" ≠ "") :
    event.text = event.delta.getD "" := by
  rw [StreamEvent.text, if_pos h.1]

omit [Runtime] in
theorem text_of_unheard {event : StreamEvent}
    (h : ¬ (event.type = .textDelta ∧ event.delta.getD "" ≠ "")) : event.text = "" := by
  rw [StreamEvent.text]
  split
  · rename_i htype
    by_contra hdelta
    exact h ⟨htype, hdelta⟩
  · rfl

/-- A round either ends the stream with all of its text read, or stops behind some
event. -/
theorem anext_reads (s : StreamObjectResult) (events : List StreamEvent) :
    (∀ s', s.anext decodeMessage events = .stopped s' →
      ∃ s₁, Reads s s₁ (textOf events).toList ∧ s' = s₁.stop decodeMessage) ∧
    (∀ v left s', s.anext decodeMessage events = .partialObject v left s' →
      left.length < events.length ∧
        ∃ text, Reads s s' text ∧ (textOf events).toList = text ++ (textOf left).toList) := by
  induction events generalizing s with
  | nil =>
    constructor
    · intro s' h
      cases h
      exact ⟨s, Reads.refl s, rfl⟩
    · intro v left s' h
      cases h
  | cons event events ih =>
    rw [anext]
    by_cases hheard : event.type = .textDelta ∧ event.delta.getD "" ≠ ""
    · rw [if_pos hheard]
      have hstep : Reads s
          { s with accumulatedText := s.accumulatedText ++ (event.delta.getD "").toList }
          event.text.toList := by
        rw [text_of_heard hheard]
        exact ⟨rfl, rfl, rfl⟩
      cases hloads : Json.loads (s.accumulatedText ++ (event.delta.getD "").toList) with
      | some partialObject =>
        dsimp only
        rw [hloads]
        constructor
        · intro s' h
          cases h
        · intro v left s' h
          cases h
          exact ⟨Nat.lt_succ_self _, event.text.toList, ⟨rfl, rfl, hstep.accumulatedText⟩,
            textOf_cons_toList event events⟩
      | none =>
        dsimp only
        rw [hloads, textOf_cons_toList]
        obtain ⟨hstopped, hpartial⟩ := ih
          { s with accumulatedText := s.accumulatedText ++ (event.delta.getD "").toList }
        constructor
        · intro s' h
          obtain ⟨s₁, hreads, hs'⟩ := hstopped s' h
          exact ⟨s₁, hstep.trans hreads, hs'⟩
        · intro v left s' h
          obtain ⟨hlength, text, hreads, htext⟩ := hpartial v left s' h
          refine ⟨Nat.lt_succ_of_lt hlength, event.text.toList ++ text, hstep.trans hreads, ?_⟩
          rw [htext, List.append_assoc]
    · rw [if_neg hheard, textOf_cons_toList, text_of_unheard hheard]
      obtain ⟨hstopped, hpartial⟩ := ih s
      constructor
      · intro s' h
        exact hstopped s' h
      · intro v left s' h
        obtain ⟨hlength, hrest⟩ := hpartial v left s' h
        exact ⟨Nat.lt_succ_of_lt hlength, hrest⟩

/-- However the stream is cut into events, reading it to the end is reading its
text. -/
theorem consume_reads (f : Nat) (s : StreamObjectResult) (events : List StreamEvent)
    (hf : events.length < f) :
    ∃ s₁, Reads s s₁ (textOf events).toList ∧
      (consume decodeMessage f s events).2 = s₁.stop decodeMessage := by
  induction f generalizing s events with
  | zero => exact absurd hf (Nat.not_lt_zero _)
  | succ f ih =>
    obtain ⟨hstopped, hpartial⟩ := anext_reads decodeMessage s events
    rw [consume]
    cases hnext : s.anext decodeMessage events with
    | stopped s' => exact hstopped s' hnext
    | partialObject v left s' =>
      obtain ⟨hlength, text, hreads, htext⟩ := hpartial v left s' hnext
      obtain ⟨s₁, hrest, hconsume⟩ := ih s' left (by omega)
      refine ⟨s₁, ?_, hconsume⟩
      rw [htext]
      exact hreads.trans hrest

end StreamObjectResult

/-! ## The object -/

theorem parse_blank {text : List Char} (h : Text.strip text = []) :
    ∃ e, parseJsonResponse decodeMessage text = .error e := by
  have hfence : fenceBody [] = none := by simp [fenceBody, Text.dropPrefix?]
  have hloads : Json.loads [] = none := by simp [Json.loads, Json.skipBlank, Json.scanOnce]
  rw [parseJsonResponse, h, hfence]
  dsimp only
  rw [hloads]
  exact ⟨_, rfl⟩

theorem parse_strip (text : List Char) :
    parseJsonResponse decodeMessage (Text.strip text) = parseJsonResponse decodeMessage text := by
  rw [parseJsonResponse, parseJsonResponse, Text.strip_strip]

/-- `generate_object` gives the objects that are parsed and pass the validation. -/
theorem generateObject_ok_iff (text : List Char) (schema : JsonSchema) (v : Value) :
    generateObject decodeMessage text schema = .ok v ↔
      parseJsonResponse decodeMessage text = .ok v ∧ validateAgainstSchema v schema = .ok () := by
  rw [generateObject]
  split
  · rename_i hblank
    obtain ⟨e, he⟩ := parse_blank decodeMessage hblank
    rw [he]
    exact ⟨nofun, nofun⟩
  · rw [bind_ok_iff, parse_strip]
    constructor
    · rintro ⟨parsed, hparsed, h⟩
      obtain ⟨_, hvalid, h⟩ := bind_ok_iff.mp h
      cases h
      exact ⟨hparsed, hvalid⟩
    · rintro ⟨hparsed, hvalid⟩
      refine ⟨v, hparsed, ?_⟩
      rw [hvalid]
      rfl

namespace StreamObjectResult

/-- The state `__anext__` leaves at the end: the text, and the object parsed from
it. -/
structure AtEnd (s : StreamObjectResult) (schema : JsonSchema) (text : List Char) : Prop where
  schema : s.schema = schema
  accumulated : s.accumulatedText = text
  kept : ∀ v, parseJsonResponse decodeMessage text = .ok v → s.finalObject = v
  lost : ∀ e, parseJsonResponse decodeMessage text = .error e → s.finalObject = .none

theorem atEnd_stop {s : StreamObjectResult} (h : s.finalObject = .none) :
    AtEnd decodeMessage (s.stop decodeMessage) s.schema s.accumulatedText := by
  rw [stop]
  dsimp only
  split
  · rename_i hblank
    obtain ⟨e, he⟩ := parse_blank decodeMessage hblank
    refine ⟨rfl, rfl, fun v hv => ?_, fun _ _ => h⟩
    rw [he] at hv
    cases hv
  · cases hparse : parseJsonResponse decodeMessage s.accumulatedText with
    | error e => exact ⟨rfl, rfl, fun v hv => (by rw [hparse] at hv; cases hv), fun _ _ => h⟩
    | ok v =>
      refine ⟨rfl, rfl, fun w hw => ?_, fun e he => ?_⟩
      · rw [hparse] at hw
        exact Except.ok.inj hw
      · rw [hparse] at he
        cases he

theorem atEnd_read (schema : JsonSchema) (events : List StreamEvent) :
    AtEnd decodeMessage (read decodeMessage schema events) schema (textOf events).toList := by
  obtain ⟨s₁, hreads, hend⟩ := consume_reads decodeMessage (events.length + 1)
    { schema := schema } events (Nat.lt_succ_self _)
  have h := atEnd_stop decodeMessage (s := s₁) hreads.finalObject
  rw [hreads.schema, hreads.accumulatedText] at h
  rw [read, hend]
  exact h

section AtEnd

variable {decodeMessage} {s : StreamObjectResult} {schema : JsonSchema} {text : List Char}

/-- Asking for the object changes nothing any more. -/
theorem AtEnd.object_state (h : AtEnd decodeMessage s schema text) :
    (s.object decodeMessage).2 = s := by
  rw [object.eq_def]
  split
  · rename_i hnone
    split
    · rfl
    · split
      · rfl
      · rename_i v hparse
        have hv : s.finalObject = v := h.kept v (by rw [← h.accumulated]; exact hparse)
        rw [← hv]
        split <;> rfl
  · rfl

theorem AtEnd.afterCalls (h : AtEnd decodeMessage s schema text) (n : Nat) :
    s.afterCalls decodeMessage n = s := by
  induction n with
  | zero => rfl
  | succ n ih => rw [StreamObjectResult.afterCalls, h.object_state, ih]

/-- An object other than `null` is handed out as it was parsed. -/
theorem AtEnd.object_kept (h : AtEnd decodeMessage s schema text) {v : Value}
    (hparse : parseJsonResponse decodeMessage text = .ok v) (hv : v ≠ .none) :
    (s.object decodeMessage).1 = .ok v := by
  rw [object.eq_def, h.kept v hparse]
  cases v with
  | none => exact absurd rfl hv
  | _ => rfl

/-- Without a kept object the text is parsed and validated. -/
theorem AtEnd.object_parsed (h : AtEnd decodeMessage s schema text) (hnone : s.finalObject = .none)
    (v : Value) :
    (s.object decodeMessage).1 = .ok v ↔
      parseJsonResponse decodeMessage text = .ok v ∧ validateAgainstSchema v schema = .ok () := by
  rw [object.eq_def, hnone, h.accumulated, h.schema]
  dsimp only
  split
  · rename_i hblank
    obtain ⟨e, he⟩ := parse_blank decodeMessage hblank
    rw [he]
    exact ⟨nofun, nofun⟩
  · split
    · rename_i e hparse
      rw [hparse]
      exact ⟨nofun, nofun⟩
    · rename_i w hparse
      rw [hparse]
      split
      · rename_i e hvalid
        constructor
        · intro heq
          cases heq
        · rintro ⟨hw, hv⟩
          cases hw
          rw [hvalid] at hv
          cases hv
      · rename_i hvalid
        constructor
        · intro heq
          cases heq
          exact ⟨rfl, hvalid⟩
        · rintro ⟨hw, _⟩
          cases hw
          rfl

end AtEnd

/-- Every call of `object()` behind the stream gives what is parsed from the whole
text and passes the validation, and nothing `generate_object` would reject. -/
def AlwaysValidated (schema : JsonSchema) (events : List StreamEvent) : Prop :=
  ∀ n v, (((read decodeMessage schema events).afterCalls decodeMessage n).object
      decodeMessage).1 = .ok v ↔
    parseJsonResponse decodeMessage (textOf events).toList = .ok v ∧
      validateAgainstSchema v schema = .ok () ∧
      generateObject decodeMessage (textOf events).toList schema = .ok v

/-- The object of a stream is validated unless its text is JSON other than `null`
that the validation rejects. -/
theorem alwaysValidated_iff (schema : JsonSchema) (events : List StreamEvent) :
    AlwaysValidated decodeMessage schema events ↔
      ∀ v e, parseJsonResponse decodeMessage (textOf events).toList = .ok v →
        validateAgainstSchema v schema = .error e → v = .none := by
  have hend := atEnd_read decodeMessage schema events
  constructor
  · intro h v e hparse hinvalid
    by_contra hv
    have hobject := hend.object_kept hparse hv
    obtain ⟨_, hvalid, _⟩ := (h 0 v).mp hobject
    rw [hinvalid] at hvalid
    cases hvalid
  · intro h n v
    rw [hend.afterCalls, generateObject_ok_iff]
    cases hparse : parseJsonResponse decodeMessage (textOf events).toList with
    | error e =>
      rw [hend.object_parsed (hend.lost e hparse), hparse]
      exact ⟨nofun, nofun⟩
    | ok w =>
      by_cases hw : w = .none
      · have hkept := hend.kept w hparse
        rw [hw] at hkept
        rw [hend.object_parsed hkept, hparse]
        exact ⟨fun hv => ⟨hv.1, hv.2, hv⟩, fun hv => hv.2.2⟩
      · rw [hend.object_kept hparse hw]
        constructor
        · intro heq
          cases heq
          have hvalid : validateAgainstSchema v schema = .ok () := by
            cases hvalid : validateAgainstSchema v schema with
            | ok _ => rfl
            | error e => exact absurd (h v e hparse hvalid) hw
          exact ⟨rfl, hvalid, rfl, hvalid⟩
        · intro hv
          exact hv.1

end StreamObjectResult

end Objects

theorem eq_ok_of_toOption {ε α : Type} {x : Except ε α} {a : α} (h : x.toOption = some a) :
    x = .ok a := by
  cases x with
  | error e => cases h
  | ok b =>
    cases h
    rfl

section Demo

open Py.Ascii

/-- An object with a name. -/
def namedSchema : JsonSchema where
  fields := Dict.ofList [("type", .str "object"), ("required", .list [.str "name"])]
  requiredNames := ["name"]
  required_eq := by rfl

/-- One delta, with an empty object. -/
def emptyObjectStream : List StreamEvent := [.textDeltaOf "\x7b\x7d"]

/-- The empty object is handed out. -/
theorem object_without_required_name :
    ¬ StreamObjectResult.AlwaysValidated (fun _ => "") namedSchema emptyObjectStream := by
  intro h
  have hgiven : ((((StreamObjectResult.read (fun _ => "") namedSchema emptyObjectStream).afterCalls
      (fun _ => "") 0).object (fun _ => "")).1.toOption.map fun v =>
        (validateAgainstSchema v namedSchema).toOption.isNone) = some true := by
    decide +kernel
  obtain ⟨v, hv, hrejected⟩ := Option.map_eq_some_iff.mp hgiven
  obtain ⟨_, hvalid, _⟩ := (h 0 v).mp (eq_ok_of_toOption hv)
  rw [hvalid] at hrejected
  cases hrejected

end Demo

end Llm
end DotRunner
