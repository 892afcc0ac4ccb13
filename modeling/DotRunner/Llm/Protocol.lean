import DotRunner.Llm.AnthropicAgreement
import DotRunner.Llm.Gemini
import DotRunner.Llm.OpenAI
import DotRunner.Llm.OpenAICompat

/-!
# The adapters' streams against the protocol

`Client.stream` passes what the adapter yields through `validate_stream`.  Which
streams of the four providers come through?
-/

namespace DotRunner
namespace Llm

namespace OpenAICompat

open Py
open StreamAccumulator (heard)

/-! ## OpenAI-compatible streams -/

/-- There is a finish reason, and a call has its id in its first piece, if at all. -/
structure Delivery.WellFormed (d : Delivery) : Prop where
  finished : heard d.finishReason ≠ none
  opens : ∀ index first rest, piecesOf index d.calls = first :: rest →
    ∀ piece ∈ rest, heard piece.id = none ∨ piece.id = first.id

/-- One call at most, and no text for its arguments. -/
def Alone (ds : List ToolCallDelta) : Prop :=
  (∀ d ∈ ds, heard d.arguments = none) ∧ ∀ d ∈ ds, ∀ d' ∈ ds, d.index = d'.index

theorem Alone.nil : Alone [] := ⟨nofun, nofun⟩

theorem Alone.of_append {ds : List ToolCallDelta} {d : ToolCallDelta} (h : Alone (ds ++ [d])) :
    Alone ds :=
  ⟨fun e he => h.1 e (List.mem_append_left _ he), fun e he e' he' =>
    h.2 e (List.mem_append_left _ he) e' (List.mem_append_left _ he')⟩

theorem alone_append {ds : List ToolCallDelta} (h : Alone ds) (d : ToolCallDelta) :
    Alone (ds ++ [d]) ↔ heard d.arguments = none ∧ ∀ e ∈ ds, e.index = d.index := by
  have hmem : d ∈ ds ++ [d] := List.mem_append_right _ List.mem_cons_self
  refine ⟨fun ⟨hnone, hsame⟩ => ⟨hnone d hmem, fun e he =>
    hsame e (List.mem_append_left _ he) d hmem⟩, fun ⟨hnone, hsame⟩ => ⟨fun e he => ?_,
    fun e he e' he' => ?_⟩⟩
  · rcases List.mem_append.mp he with he | he
    · exact h.1 e he
    · rw [List.mem_singleton.mp he]
      exact hnone
  · rcases List.mem_append.mp he with he | he <;> rcases List.mem_append.mp he' with he' | he'
    · exact h.2 e he e' he'
    · rw [List.mem_singleton.mp he']
      exact hsame e he
    · rw [List.mem_singleton.mp he]
      exact (hsame e' he').symm
    · rw [List.mem_singleton.mp he, List.mem_singleton.mp he']

/-- The only call there is has all the pieces. -/
theorem Alone.piecesOf {d : ToolCallDelta} {ds : List ToolCallDelta} (h : Alone (d :: ds)) :
    piecesOf d.index (d :: ds) = d :: ds :=
  List.filter_eq_self.mpr fun e he => decide_eq_true (h.2 e he d List.mem_cons_self)

theorem Alone.startedOf {d : ToolCallDelta} {ds : List ToolCallDelta} (h : Alone (d :: ds)) :
    startedOf (d :: ds) = [d.index] := by
  induction ds using List.reverseRecOn with
  | nil => rfl
  | append_singleton ds e ih =>
    have hbefore : Alone (d :: ds) := h.of_append
    have he : e.index = d.index :=
      h.2 e (List.mem_cons_of_mem _ (List.mem_append_right _ List.mem_cons_self)) d List.mem_cons_self
    rw [← List.cons_append, startedOf_append, ih hbefore, he, if_pos List.mem_cons_self]

section Following

variable {s : StreamState} {pieces : List Piece} {events : List StreamEvent}

/-- What the validator remembers while the chunks come. -/
def watching (s : StreamState) (ds : List ToolCallDelta) : Validator where
  openText := s.textStarted
  openTool := !ds.isEmpty
  openToolId := ds.head?.map fun d => pick d.id ""

/-- The validator has come along, or it has stopped. -/
structure Followed (s : StreamState) (pieces : List Piece) (events : List StreamEvent) : Prop where
  kept : Kept s (callsIn pieces)
  passes : Alone (callsIn pieces) →
    Transducer.check Validator.next .start events = .ok (watching s (callsIn pieces))
  refused : ¬Alone (callsIn pieces) → Transducer.Refuses Validator.next .start events

theorem followed_start : Followed {} [] [] :=
  ⟨delivered_start.kept, fun _ => rfl, fun h => absurd .nil h⟩

theorem Followed.opened (h : Followed s pieces events) (chunk : Chunk) :
    Followed (opened s chunk) pieces (events ++ startEvents s) := by
  refine ⟨⟨h.kept.state, h.kept.started⟩, fun hwell => ?_, fun hwell => (h.refused hwell).append _⟩
  rw [Transducer.check_append_ok (h.passes hwell), startEvents]
  cases s.firstChunk <;> rfl

theorem check_contentPiece (s : StreamState) (text : String) (ds : List ToolCallDelta) :
    Transducer.check Validator.next (watching s ds) (contentPiece s text).2 =
      .ok (watching (contentPiece s text).1 ds) := by
  rw [contentPiece]
  cases hstarted : s.textStarted with
  | true =>
    show Transducer.check Validator.next (watching s ds) [.textDeltaOf text] = _
    rw [Transducer.check, Validator.next_textDelta hstarted, watching, hstarted]
    rfl
  | false =>
    show Transducer.check Validator.next (watching s ds) (.ofType .textStart :: [.textDeltaOf text]) = _
    rw [Transducer.check, Validator.next_textStart hstarted]
    rfl

theorem Followed.contentPiece (h : Followed s pieces events) (text : String) :
    Followed (contentPiece s text).1 (pieces ++ [.content text])
      (events ++ (contentPiece s text).2) := by
  have hcalls : callsIn (pieces ++ [.content text]) = callsIn pieces := by
    rw [callsIn_append]
    exact List.append_nil _
  refine ⟨?_, ?_, ?_⟩
  · rw [hcalls]
    exact ⟨h.kept.state, h.kept.started⟩
  · rw [hcalls]
    intro halone
    rw [Transducer.check_append_ok (h.passes halone)]
    exact check_contentPiece s text (callsIn pieces)
  · rw [hcalls]
    exact fun halone => (h.refused halone).append _

/-- The arguments of a piece pass if there are none. -/
theorem check_arguments (v : Validator) (arguments : Option String) :
    (heard arguments = none →
        Transducer.check Validator.next v ((heard arguments).toList.map .toolCallDeltaOf) = .ok v) ∧
      (heard arguments ≠ none →
        Transducer.Refuses Validator.next v ((heard arguments).toList.map .toolCallDeltaOf)) := by
  cases heard arguments with
  | none => exact ⟨fun _ => rfl, fun h => absurd rfl h⟩
  | some text => exact ⟨nofun, fun _ => Validator.refuses_toolCallDelta v text []⟩

/-- A piece of a call, when all before it is well: it passes if all is still well. -/
theorem check_callPiece {ds : List ToolCallDelta} (hkept : Kept s ds) (halone : Alone ds)
    (d : ToolCallDelta) :
    (Alone (ds ++ [d]) → Transducer.check Validator.next (watching s ds) (callPiece s d).2 =
        .ok (watching (callPiece s d).1 (ds ++ [d]))) ∧
      (¬Alone (ds ++ [d]) → Transducer.Refuses Validator.next (watching s ds) (callPiece s d).2) := by
  rw [alone_append halone]
  show (_ → Transducer.check Validator.next (watching s ds) (callEvents s d) = _) ∧
    (_ → Transducer.Refuses Validator.next (watching s ds) (callEvents s d))
  rw [callEvents, hkept.started]
  cases ds with
  | nil =>
    -- the first piece of all opens its call
    have hentry : entryFor s d = { id := pick d.id "", name := pick d.name "" } := by
      rw [entryFor, hkept.state]
      rfl
    have hstart : ∀ rest, Transducer.check Validator.next (watching s [])
        (.toolCallStartOf ⟨pick d.id (entryFor s d).id, pick d.name (entryFor s d).name,
          .dict [], none⟩ :: rest) =
        Transducer.check Validator.next (watching (callPiece s d).1 [d]) rest := by
      intro rest
      rw [Transducer.check, Validator.next_toolCallStart rfl, hentry, pick_pick]
      rfl
    obtain ⟨hpass, hrefuse⟩ := check_arguments (watching (callPiece s d).1 [d]) d.arguments
    rw [if_neg (show d.index ∉ startedOf [] from List.not_mem_nil)]
    refine ⟨fun h => ?_, fun hnot => ?_⟩
    · show Transducer.check Validator.next _ (.toolCallStartOf _ :: _) = _
      rw [hstart]
      exact hpass h.1
    · show Transducer.Refuses Validator.next _ (.toolCallStartOf _ :: _)
      rw [Transducer.Refuses, hstart]
      exact hrefuse fun hnone => hnot ⟨hnone, fun e he => absurd he List.not_mem_nil⟩
  | cons first ds =>
    rw [halone.startedOf]
    by_cases hindex : first.index = d.index
    · obtain ⟨hpass, hrefuse⟩ := check_arguments (watching s (first :: ds)) d.arguments
      have hsame : ∀ e ∈ first :: ds, e.index = d.index := fun e he =>
        (halone.2 e he first List.mem_cons_self).trans hindex
      rw [if_pos (by rw [hindex]; exact List.mem_cons_self), List.nil_append]
      exact ⟨fun h => hpass h.1, fun hnot => hrefuse fun hnone => hnot ⟨hnone, hsame⟩⟩
    · rw [if_neg fun hmem => hindex (List.mem_singleton.mp hmem).symm]
      refine ⟨fun h => absurd (h.2 first List.mem_cons_self) hindex, fun _ => ?_⟩
      exact Validator.refuses_toolCallStart rfl _ _

theorem Followed.callPiece (h : Followed s pieces events) (d : ToolCallDelta) :
    Followed (callPiece s d).1 (pieces ++ [.call d]) (events ++ (callPiece s d).2) := by
  have hds : callsIn (pieces ++ [.call d]) = callsIn pieces ++ [d] := callsIn_append _ _
  refine ⟨?_, ?_, ?_⟩
  · rw [hds]
    exact h.kept.callPiece d
  · rw [hds]
    intro halone
    rw [Transducer.check_append_ok (h.passes halone.of_append)]
    exact (check_callPiece h.kept halone.of_append d).1 halone
  · rw [hds]
    intro hnot
    by_cases halone : Alone (callsIn pieces)
    · rw [Transducer.Refuses, Transducer.check_append_ok (h.passes halone)]
      exact (check_callPiece h.kept halone d).2 hnot
    · exact (h.refused halone).append _

theorem followed_carried : Carried Followed where
  opened chunk h := h.opened chunk
  piece piece h := by
    cases piece with
    | content text => exact h.contentPiece text
    | call d => exact h.callPiece d

end Following

section Ending

variable [Runtime] (order : SetOrder) (model : String)
variable {s : StreamState} {pieces : List Piece} {events : List StreamEvent}

omit [Runtime] in
/-- The id of a call is the one it was opened with. -/
theorem entryOf_id {first : ToolCallDelta} {rest : List ToolCallDelta}
    (h : ∀ piece ∈ rest, heard piece.id = none ∨ piece.id = first.id) :
    (entryOf (first :: rest)).id = pick first.id "" := by
  have hid : ∀ piece ∈ rest, heard piece.id = none ∨ piece.id = some (pick first.id "") := by
    intro piece hmem
    refine (h piece hmem).elim .inl fun hsame => ?_
    cases hheard : heard piece.id with
    | none => exact .inl rfl
    | some id =>
      right
      rw [pick, ← hsame, hheard]
      exact (Option.filter_eq_some_iff.mp hheard).1
  have hfold := (entry_foldl rest (({} : Entry).add first)).1
  rcases foldl_pick hid (pick first.id "") with hpick | hpick <;> exact hfold.trans hpick

omit [Runtime] in
theorem check_closeText (s : StreamState) (ds : List ToolCallDelta) (rest : List StreamEvent) :
    Transducer.check Validator.next (watching s ds) (closeText s ++ rest) =
      Transducer.check Validator.next (watching { s with textStarted := false } ds) rest := by
  rw [closeText]
  cases hstarted : s.textStarted with
  | false =>
    rw [watching, watching, hstarted]
    rfl
  | true =>
    show Transducer.check Validator.next (watching s ds) (.ofType .textEnd :: rest) = _
    rw [Transducer.check, Validator.next_textEnd hstarted]
    rfl

/-- Everything that is open is closed. -/
theorem check_closing {d : Delivery} (hwell : d.WellFormed) (hkept : Kept s d.calls)
    (halone : Alone d.calls) :
    Transducer.check Validator.next (watching s d.calls) (closing order s).2 = .ok .start := by
  have hopens := hwell.opens
  rw [closing, check_closeText, hkept.started]
  generalize d.calls = ds at *
  cases ds with
  | nil =>
    rw [List.perm_nil.mp (order.perm (startedOf []))]
    rfl
  | cons first ds =>
    have hentry : s.toolCallsState.get? first.index = some (entryOf (first :: ds)) := by
      rw [hkept.state, halone.piecesOf, if_neg (List.cons_ne_nil _ _)]
    have hid := entryOf_id (hopens first.index first ds halone.piecesOf)
    rw [halone.startedOf, List.perm_singleton.mp (order.perm [first.index]), List.map_singleton,
      hentry, Transducer.check, Validator.next_toolCallEnd rfl (congrArg some hid.symm)]
    rfl

/-- The usage that trails comes with a second FINISH, which the validator lets pass. -/
theorem check_trailer (d : Delivery) (s : StreamState) :
    Transducer.check Validator.next { sawFinish := true }
      (Transducer.emitted (chunkStep order model) (closing order s).1 d.trailer) =
        .ok { sawFinish := true } := by
  rw [Delivery.trailer]
  cases d.place with
  | inLast usage | absent => rfl
  | trailing usage =>
    have hclosed : (closing order (opened (closing order s).1
        { id := some d.id, usage := some usage })).2 = [] := by
      rw [closing, closeText]
      show [] ++ (order.order []).map _ = []
      rw [List.perm_nil.mp (order.perm [])]
      rfl
    have hstart : Transducer.check Validator.next { sawFinish := true }
        (startEvents (closing order s).1) = .ok { sawFinish := true } := by
      rw [startEvents]
      cases (closing order s).1.firstChunk <;> rfl
    show Transducer.check Validator.next _ ((startEvents (closing order s).1 ++
      ((closing order (opened (closing order s).1 _)).2 ++ [_])) ++ []) = _
    rw [hclosed, List.append_nil, Transducer.check_append_ok hstart]
    show Transducer.check Validator.next _ [.finishOf _ _ _ _ _] = _
    rw [Transducer.check, Validator.next_finish rfl rfl]
    rfl

/-- A stream is rejected if there are two calls, or if a call has arguments. -/
theorem stream_accepted_iff {d : Delivery} (hwell : d.WellFormed) :
    Validator.Accepts (stream order model d.chunks) ↔ Alone d.calls := by
  obtain ⟨reason, hreason⟩ := Option.ne_none_iff_exists'.mp hwell.finished
  obtain ⟨s, events, id, hfollowed, hstream⟩ :=
    followed_carried.finished order model followed_start d hreason
  rw [hstream]
  refine ⟨fun haccept => ?_, fun halone => ?_⟩
  · by_contra hnot
    exact Validator.not_accepted_of_refuses ((hfollowed.refused hnot).append _) haccept
  · have hpasses : Transducer.check Validator.next .start events = .ok (watching s d.calls) :=
      hfollowed.passes halone
    have hclosing := check_closing order hwell hfollowed.kept halone
    rw [Validator.Accepts, Validator.accepted_iff, Transducer.check_append_ok hpasses,
      Transducer.check_append_ok hclosing]
    refine ⟨{ sawFinish := true }, ?_, rfl⟩
    rw [Transducer.check, Validator.next_finish rfl rfl]
    exact check_trailer order model d s

end Ending

end OpenAICompat

/-! ## Four providers -/

/-- What a provider sends: blocks that are opened, filled and closed, one after
another, or chunks. -/
inductive ProviderStream where
  | anthropic (d : Anthropic.Delivery) (events : List Anthropic.RawEvent) (within : d.Within events)
  | openai (d : OpenAI.Delivery) (events : List OpenAI.RawEvent) (within : d.Within events)
  | openaiCompat (d : OpenAICompat.Delivery) (wellFormed : d.WellFormed)
  | gemini (chunks : List Gemini.Chunk)

namespace ProviderStream

open Py

/-- No call comes in pieces: at Anthropic no input in deltas, at OpenAI no event for
the arguments and a completed response, at the compatible servers one call without
arguments.  Gemini sends calls whole. -/
def InOnePiece : ProviderStream → Prop
  | anthropic d _ _ => ∀ b ∈ d.blocks, b.partials = []
  | openai d _ _ => (∀ b ∈ d.items, b.isStreamed = false) ∧ d.ending = .completed
  | openaiCompat d _ => OpenAICompat.Alone d.calls
  | gemini _ => True

section Client

variable [Runtime] (order : OpenAICompat.SetOrder) (ids : Nat → String) (model : String)

/-- `adapter.stream` -/
def adapterStream : ProviderStream → List StreamEvent
  | anthropic _ events _ => Anthropic.stream model events
  | openai _ events _ => OpenAI.stream model events
  | openaiCompat d _ => OpenAICompat.stream order model d.chunks
  | gemini chunks => Gemini.stream ids model chunks

/-- `Client.stream` without middleware: the events the caller sees, and the
violation that ends them. -/
def clientStream (mode : Option String) (p : ProviderStream) : List StreamEvent × Option String :=
  Validator.validateStream (mode.getD "strict") .start (adapterStream order ids model p)

theorem accepts_iff (p : ProviderStream) :
    Validator.Accepts (adapterStream order ids model p) ↔ p.InOnePiece := by
  cases p with
  | anthropic d events within => exact Anthropic.stream_accepted_iff within model
  | openai d events within => exact OpenAI.stream_accepted_iff model within
  | openaiCompat d wellFormed => exact OpenAICompat.stream_accepted_iff order model wellFormed
  | gemini chunks => exact iff_of_true (Gemini.stream_accepted ids model chunks) trivial

/-- The client passes a stream on as it is exactly if no call comes in pieces. -/
theorem client_passes_iff (p : ProviderStream) :
    clientStream order ids model none p = (adapterStream order ids model p, none) ↔
      p.InOnePiece := by
  rw [← accepts_iff order ids model p]
  refine ⟨fun h => congrArg Prod.snd h, fun haccept => ?_⟩
  exact Prod.ext (Validator.validateStream_eq_of_accepted haccept) haccept

end Client

section Demo

open Py.Ascii

def weatherCall : Anthropic.Delivery where
  id := "msg"
  model := "claude"
  inputTokens := 3
  blocks := [.toolUse "toolu_1" "get_weather" ["\x7b\x7d"]]
  updates := []
  stopReason := some "tool_use"
  outputTokens := 1

/-- A call is refused at the first piece of its input. -/
theorem weather_call_rejected : ∃ events, ∃ h : weatherCall.Within events,
    (clientStream OpenAICompat.asAdded (fun _ => "") "claude" none
      (.anthropic weatherCall events h)).2 = some "TOOL_CALL_DELTA id mismatch" :=
  ⟨weatherCall.events, rfl, by decide⟩

end Demo

end ProviderStream
end Llm
end DotRunner
