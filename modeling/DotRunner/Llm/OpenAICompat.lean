import DotRunner.Llm.Accumulator
import DotRunner.Llm.Validation
import DotRunner.Py.Ascii

/-!
# Streaming from OpenAI-compatible servers

A completion comes in chunks.  Its first choice has a delta, with a piece of the
text and pieces of the calls, each under the index of its call; the last of these
chunks tells the finish reason, and the usage comes with it or after it.
-/

namespace DotRunner
namespace Llm
namespace OpenAICompat

open Py
open StreamAccumulator (heard)

/-! ## What the provider sends -/

structure FunctionDelta where
  name : Option String := none
  arguments : Option String := none

structure ToolCallDelta where
  index : Nat := 0
  id : Option String := none
  function : Option FunctionDelta := none

structure ChoiceDelta where
  content : Option String := none
  toolCalls : Option (List ToolCallDelta) := none

structure Choice where
  delta : Option ChoiceDelta := none
  finishReason : Option String := none

structure CompletionUsage where
  promptTokens : Option Int := none
  completionTokens : Option Int := none
  totalTokens : Option Int := none

structure Chunk where
  id : Option String := none
  choices : List Choice := []
  usage : Option CompletionUsage := none

/-- A call of a whole completion. -/
structure RawCall where
  id : String
  name : String
  arguments : String

/-- A whole completion, of which the first choice is looked at. -/
structure Completion where
  id : String
  model : String
  content : Option String
  toolCalls : List RawCall
  finishReason : Option String
  usage : Option CompletionUsage

def ToolCallDelta.name (d : ToolCallDelta) : Option String := d.function.bind FunctionDelta.name

def ToolCallDelta.arguments (d : ToolCallDelta) : Option String :=
  d.function.bind FunctionDelta.arguments

/-! ## The maps -/

def finishReasons : List (String × String) :=
  [("stop", "stop"), ("length", "length"), ("tool_calls", "tool_calls"),
    ("content_filter", "content_filter")]

def mapFinishReason (reason : Option String) : FinishReason :=
  ⟨(finishReasons.lookup (reason.getD "")).getD "other", reason⟩

def extractUsageFromObj (u : CompletionUsage) : Usage :=
  let inputTokens := u.promptTokens.getD 0
  let outputTokens := u.completionTokens.getD 0
  { inputTokens := inputTokens
    outputTokens := outputTokens
    totalTokens := u.totalTokens.getD (inputTokens + outputTokens) }

def extractUsage (usage : Option CompletionUsage) : Usage :=
  match usage with
  | none => .zero
  | some u => extractUsageFromObj u

section Blocking

variable [Runtime]

def RawCall.data (call : RawCall) : ToolCallData where
  id := call.id
  name := call.name
  arguments := parseArguments call.arguments

/-- The blocking call. -/
def translateResponse (raw : Completion) : Response where
  id := raw.id
  model := raw.model
  provider := "openai_compat"
  message := ⟨.assistant, (heard raw.content).toList.map .ofText ++
    raw.toolCalls.map fun call => .ofToolCall call.data, none, none⟩
  finishReason := mapFinishReason raw.finishReason
  usage := extractUsage raw.usage

end Blocking

/-! ## The stream -/

/-- What is kept of a call: its id, its name and the pieces of its arguments. -/
structure Entry where
  id : String := ""
  name : String := ""
  parts : List String := []

/-- The text if it is there and not empty, or else what is stored. -/
def pick (text : Option String) (stored : String) : String := (heard text).getD stored

def Entry.add (e : Entry) (d : ToolCallDelta) : Entry where
  id := pick d.id e.id
  name := pick d.name e.name
  parts := e.parts ++ (heard d.arguments).toList

/-- The order in which a set of indices is gone through, from the order in which
they were added.  Nothing more is promised of it. -/
structure SetOrder where
  order : List Nat → List Nat
  perm : ∀ l, (order l).Perm l

structure StreamState where
  responseId : String := ""
  textStarted : Bool := false
  toolCallsState : Dict Nat Entry := .empty
  toolCallsStarted : List Nat := []
  firstChunk : Bool := true

/-- A delta is a text and then pieces of calls. -/
inductive Piece where
  | content (text : String)
  | call (d : ToolCallDelta)

def ChoiceDelta.pieces (delta : ChoiceDelta) : List Piece :=
  (heard delta.content).toList.map .content ++ (delta.toolCalls.getD []).map .call

section Stream

variable [Runtime] (order : SetOrder) (s : StreamState)

def contentPiece (text : String) : StreamState × List StreamEvent :=
  ({ s with textStarted := true },
    (if s.textStarted then [] else [.ofType .textStart]) ++ [.textDeltaOf text])

/-- The entry of the call a piece belongs to. -/
def entryFor (d : ToolCallDelta) : Entry :=
  (s.toolCallsState.get? d.index).getD { id := pick d.id "", name := pick d.name "" }

def callEvents (d : ToolCallDelta) : List StreamEvent :=
  (if d.index ∈ s.toolCallsStarted then []
    else [.toolCallStartOf
      ⟨pick d.id (entryFor s d).id, pick d.name (entryFor s d).name, .dict [], none⟩]) ++
    (heard d.arguments).toList.map .toolCallDeltaOf

def callPiece (d : ToolCallDelta) : StreamState × List StreamEvent :=
  ({ s with
      toolCallsState := s.toolCallsState.set d.index ((entryFor s d).add d)
      toolCallsStarted := if d.index ∈ s.toolCallsStarted then s.toolCallsStarted
        else s.toolCallsStarted ++ [d.index] },
    callEvents s d)

def pieceStep (s : StreamState) : Piece → StreamState × List StreamEvent
  | .content text => contentPiece s text
  | .call d => callPiece s d

def Entry.toolCall (e : Entry) : ToolCall where
  id := e.id
  name := e.name
  arguments := parseArguments (String.join e.parts)
  rawArguments := orNone (String.join e.parts)

def closeText : List StreamEvent := if s.textStarted then [.ofType .textEnd] else []

/-- Text and calls are closed; every started call has an entry. -/
def closing : StreamState × List StreamEvent :=
  ({ s with textStarted := false, toolCallsStarted := [] },
    closeText s ++
      (order.order s.toolCallsStarted).map fun index =>
        .toolCallEndOf ((s.toolCallsState.get? index).getD {}).toolCall)

/-- A chunk without choices has the usage, and makes up a finish reason. -/
def usageStep (model : String) (usage : CompletionUsage) : StreamState × List StreamEvent :=
  let closed := closing order s
  let finishReason : FinishReason :=
    if s.toolCallsState.entries.isEmpty then ⟨"stop", none⟩ else ⟨"tool_calls", none⟩
  (closed.1, closed.2 ++
    [.finishOf s.responseId model "openai_compat" finishReason (extractUsageFromObj usage)])

def choiceStep (model : String) (usage : Option CompletionUsage) (choice : Choice) :
    StreamState × List StreamEvent :=
  let pieces := (choice.delta.map ChoiceDelta.pieces).getD []
  let s' := Transducer.final pieceStep s pieces
  match heard choice.finishReason with
  | none => (s', Transducer.emitted pieceStep s pieces)
  | some finishReason =>
    let closed := closing order s'
    (closed.1, Transducer.emitted pieceStep s pieces ++ (closed.2 ++
      [.finishOf s.responseId model "openai_compat" (mapFinishReason (some finishReason))
        (extractUsage usage)]))

/-- What every chunk does first. -/
def opened (chunk : Chunk) : StreamState :=
  { s with responseId := pick chunk.id s.responseId, firstChunk := false }

def chunkStep (model : String) (s : StreamState) (chunk : Chunk) :
    StreamState × List StreamEvent :=
  let started : List StreamEvent := if s.firstChunk then [.ofType .streamStart] else []
  let rest := match chunk.choices, chunk.usage with
    | choice :: _, usage => choiceStep order (opened s chunk) model usage choice
    | [], some usage => usageStep order (opened s chunk) model usage
    | [], none => (opened s chunk, [])
  (rest.1, started ++ rest.2)

/-- `OpenAICompatAdapter.stream` -/
def stream (model : String) (chunks : List Chunk) : List StreamEvent :=
  Transducer.emitted (chunkStep order model) {} chunks

end Stream

/-! ## What has been delivered -/

section Delivered

/-- The texts among the pieces. -/
def textIn (pieces : List Piece) : String :=
  String.join (pieces.map fun piece => match piece with
    | .content text => text
    | .call _ => "")

/-- The pieces of calls. -/
def callsIn (pieces : List Piece) : List ToolCallDelta :=
  pieces.filterMap fun piece => match piece with
    | .content _ => none
    | .call d => some d

/-- The pieces of one call. -/
def piecesOf (index : Nat) (ds : List ToolCallDelta) : List ToolCallDelta :=
  ds.filter fun d => d.index = index

/-- What the pieces of one call add up to. -/
def entryOf (ds : List ToolCallDelta) : Entry := ds.foldl Entry.add {}

/-- The indices in the order in which they first appear. -/
def startedOf (ds : List ToolCallDelta) : List Nat :=
  ds.foldl (fun l d => if d.index ∈ l then l else l ++ [d.index]) []

theorem textIn_append (ps ps' : List Piece) : textIn (ps ++ ps') = textIn ps ++ textIn ps' := by
  rw [textIn, List.map_append, String.join_append]
  rfl

theorem callsIn_append (ps ps' : List Piece) : callsIn (ps ++ ps') = callsIn ps ++ callsIn ps' :=
  List.filterMap_append

theorem piecesOf_append (index : Nat) (ds : List ToolCallDelta) (d : ToolCallDelta) :
    piecesOf index (ds ++ [d]) = piecesOf index ds ++ if d.index = index then [d] else [] := by
  rw [piecesOf, List.filter_append, piecesOf]
  by_cases h : d.index = index <;> simp [h]

theorem entryOf_append (ds : List ToolCallDelta) (d : ToolCallDelta) :
    entryOf (ds ++ [d]) = (entryOf ds).add d := by
  rw [entryOf, List.foldl_append]
  rfl

theorem startedOf_append (ds : List ToolCallDelta) (d : ToolCallDelta) :
    startedOf (ds ++ [d]) =
      if d.index ∈ startedOf ds then startedOf ds else startedOf ds ++ [d.index] := by
  rw [startedOf, List.foldl_append]
  rfl

theorem mem_startedOf (ds : List ToolCallDelta) (index : Nat) :
    index ∈ startedOf ds ↔ piecesOf index ds ≠ [] := by
  induction ds using List.reverseRecOn with
  | nil => exact iff_of_false nofun (fun h => h rfl)
  | append_singleton ds d ih =>
    rw [startedOf_append, piecesOf_append]
    by_cases hd : d.index = index
    · rw [if_pos hd, hd]
      refine iff_of_true ?_ (by simp)
      by_cases hmem : index ∈ startedOf ds
      · rwa [if_pos hmem]
      · rw [if_neg hmem]
        exact List.mem_append_right _ List.mem_cons_self
    · rw [if_neg hd, List.append_nil, ← ih]
      by_cases hmem : d.index ∈ startedOf ds
      · rw [if_pos hmem]
      · rw [if_neg hmem, List.mem_append, List.mem_singleton]
        exact ⟨fun h => h.elim id fun h => absurd h.symm hd, .inl⟩

theorem pick_pick (text : Option String) (stored : String) :
    pick text (pick text stored) = pick text stored := by
  rw [pick, pick]
  cases heard text <;> rfl

/-- The calls as the state has them after these pieces. -/
structure Kept (s : StreamState) (ds : List ToolCallDelta) : Prop where
  state : ∀ index, s.toolCallsState.get? index =
    if piecesOf index ds = [] then none else some (entryOf (piecesOf index ds))
  started : s.toolCallsStarted = startedOf ds

theorem Kept.entryFor_add {s : StreamState} {ds : List ToolCallDelta} (h : Kept s ds)
    (d : ToolCallDelta) : (entryFor s d).add d = entryOf (piecesOf d.index (ds ++ [d])) := by
  rw [piecesOf_append, if_pos rfl, entryOf_append, entryFor, h.state]
  by_cases hnone : piecesOf d.index ds = []
  · rw [if_pos hnone, hnone]
    show (⟨pick d.id (pick d.id ""), pick d.name (pick d.name ""), [] ++ _⟩ : Entry) = _
    rw [pick_pick, pick_pick]
    rfl
  · rw [if_neg hnone]
    rfl

theorem Kept.callPiece {s : StreamState} {ds : List ToolCallDelta} (h : Kept s ds)
    (d : ToolCallDelta) : Kept (callPiece s d).1 (ds ++ [d]) where
  state index := by
    show (s.toolCallsState.set d.index ((entryFor s d).add d)).get? index = _
    rw [Dict.get?_set, h.entryFor_add]
    by_cases hindex : d.index = index
    · have hne : piecesOf index (ds ++ [d]) ≠ [] := by
        rw [piecesOf_append, if_pos hindex]
        exact List.append_ne_nil_of_right_ne_nil _ (List.cons_ne_nil d [])
      rw [if_pos hindex, if_neg hne, hindex]
    · rw [if_neg hindex, piecesOf_append, if_neg hindex, List.append_nil]
      exact h.state index
  started := by
    show (if d.index ∈ s.toolCallsStarted then _ else _) = _
    rw [startedOf_append, h.started]

/-- The pieces gone through so far, and the events sent for them. -/
structure Delivered (s : StreamState) (pieces : List Piece) (events : List StreamEvent) : Prop where
  kept : Kept s (callsIn pieces)
  text : textOf events = textIn pieces
  calls : callsOf events = []
  unfinished : finishesOf events = []
  unnamed : Unnamed events

theorem delivered_start : Delivered {} [] [] where
  kept := by
    refine ⟨fun index => ?_, rfl⟩
    have hnone : piecesOf index (callsIn []) = [] := rfl
    rw [if_pos hnone]
    rfl
  text := rfl
  calls := rfl
  unfinished := rfl
  unnamed := .nil

variable {s : StreamState} {pieces : List Piece} {events : List StreamEvent}

theorem Delivered.contentPiece (h : Delivered s pieces events) (text : String) :
    Delivered (contentPiece s text).1 (pieces ++ [.content text])
      (events ++ (contentPiece s text).2) := by
  have hcalls : callsIn (pieces ++ [.content text]) = callsIn pieces := by
    rw [callsIn_append]
    exact List.append_nil _
  have htext : textIn (pieces ++ [.content text]) = textIn pieces ++ text := by
    rw [textIn_append]
    exact congrArg (_ ++ ·) (String.join_cons.trans String.append_empty)
  refine ⟨⟨?_, ?_⟩, ?_, ?_, ?_, ?_⟩
  · rw [hcalls]
    exact h.kept.state
  · rw [hcalls]
    exact h.kept.started
  · rw [textOf_append, h.text, htext, OpenAICompat.contentPiece, textOf_append]
    cases s.textStarted <;> simp [textOf_cons, StreamEvent.text, StreamEvent.ofType,
      StreamEvent.textDeltaOf]
  · rw [callsOf_append, h.calls, OpenAICompat.contentPiece]
    cases s.textStarted <;> rfl
  · rw [finishesOf_append, h.unfinished, OpenAICompat.contentPiece]
    cases s.textStarted <;> rfl
  · refine h.unnamed.append fun e he => ?_
    rw [OpenAICompat.contentPiece] at he
    rcases List.mem_append.mp he with he | he
    · cases hstarted : s.textStarted with
      | false =>
        rw [hstarted] at he
        rw [List.mem_singleton.mp he]
        rfl
      | true =>
        rw [hstarted] at he
        cases he
    · rw [List.mem_singleton.mp he]
      rfl

theorem callEvents_say (s : StreamState) (d : ToolCallDelta) :
    textOf (callEvents s d) = "" ∧ callsOf (callEvents s d) = [] ∧
      finishesOf (callEvents s d) = [] ∧ Unnamed (callEvents s d) := by
  have htext := textOf_map_silent (f := .toolCallDeltaOf) (heard d.arguments).toList fun _ => rfl
  have hcalls := callsOf_map_silent (f := .toolCallDeltaOf) (heard d.arguments).toList fun _ => rfl
  have hfinish : finishesOf ((heard d.arguments).toList.map .toolCallDeltaOf) = [] := by
    cases heard d.arguments <;> rfl
  have hunnamed : Unnamed ((heard d.arguments).toList.map .toolCallDeltaOf) := by
    intro e he
    obtain ⟨delta, -, rfl⟩ := List.mem_map.mp he
    rfl
  rw [callEvents]
  by_cases hmem : d.index ∈ s.toolCallsStarted
  · rw [if_pos hmem, List.nil_append]
    exact ⟨htext, hcalls, hfinish, hunnamed⟩
  · rw [if_neg hmem]
    refine ⟨?_, ?_, ?_, fun e he => ?_⟩
    · rw [textOf_append, htext, textOf_cons]
      rfl
    · rw [callsOf_append, hcalls, callsOf_cons]
      rfl
    · rw [finishesOf_append, hfinish]
      rfl
    · rcases List.mem_append.mp he with he | he
      · rw [List.mem_singleton.mp he]
        rfl
      · exact hunnamed e he

theorem Delivered.callPiece (h : Delivered s pieces events) (d : ToolCallDelta) :
    Delivered (callPiece s d).1 (pieces ++ [.call d]) (events ++ (callPiece s d).2) := by
  obtain ⟨htext, hcalls, hfinish, hunnamed⟩ := callEvents_say s d
  have hds : callsIn (pieces ++ [.call d]) = callsIn pieces ++ [d] := callsIn_append _ _
  refine ⟨?_, ?_, ?_, ?_, h.unnamed.append hunnamed⟩
  · rw [hds]
    exact h.kept.callPiece d
  · show textOf (events ++ callEvents s d) = _
    rw [textOf_append, h.text, htext, textIn_append]
    rfl
  · show callsOf (events ++ callEvents s d) = _
    rw [callsOf_append, h.calls, hcalls]
    rfl
  · show finishesOf (events ++ callEvents s d) = _
    rw [finishesOf_append, h.unfinished, hfinish]
    rfl

end Delivered

/-! ## Streams of a completion -/

inductive UsagePlace where
  | inLast (usage : CompletionUsage)
  | trailing (usage : CompletionUsage)
  | absent

def UsagePlace.usage : UsagePlace → Option CompletionUsage
  | inLast usage | trailing usage => some usage
  | absent => none

/-- A completion in chunks: deltas, the last of them with the finish reason. -/
structure Delivery where
  id : String
  deltas : List (Option ChoiceDelta)
  last : Option ChoiceDelta
  finishReason : Option String
  place : UsagePlace

namespace Delivery

def choiceChunk (id : String) (delta : Option ChoiceDelta) : Chunk where
  id := some id
  choices := [{ delta := delta }]

/-- The chunk with the finish reason, and with the usage if it is there. -/
def lastChunk (d : Delivery) : Chunk where
  id := some d.id
  choices := [{ delta := d.last, finishReason := d.finishReason }]
  usage := match d.place with
    | .inLast usage => some usage
    | _ => none

def trailer (d : Delivery) : List Chunk :=
  match d.place with
  | .trailing usage => [{ id := some d.id, usage := some usage }]
  | _ => []

def chunks (d : Delivery) : List Chunk :=
  d.deltas.map (choiceChunk d.id) ++ [d.lastChunk] ++ d.trailer

def piecesIn (delta : Option ChoiceDelta) : List Piece := (delta.map ChoiceDelta.pieces).getD []

def pieces (d : Delivery) : List Piece := d.deltas.flatMap piecesIn ++ piecesIn d.last

/-- The pieces of calls, in the order they come. -/
def calls (d : Delivery) : List ToolCallDelta := callsIn d.pieces

end Delivery

/-- The pieces make up this call: its id and its name come whole, with one piece
at least, and its arguments bit by bit. -/
structure Assembles (ds : List ToolCallDelta) (call : RawCall) : Prop where
  begun : ds ≠ []
  id : ∀ d ∈ ds, heard d.id = none ∨ d.id = some call.id
  idGiven : call.id ≠ "" → ∃ d ∈ ds, d.id = some call.id
  name : ∀ d ∈ ds, heard d.name = none ∨ d.name = some call.name
  nameGiven : call.name ≠ "" → ∃ d ∈ ds, d.name = some call.name
  arguments : String.join (ds.filterMap ToolCallDelta.arguments) = call.arguments

/-- The delivery of this completion. -/
structure Delivery.Of (d : Delivery) (c : Completion) : Prop where
  finishReason : d.finishReason = c.finishReason
  usage : d.place.usage = c.usage
  content : textIn d.pieces = c.content.getD ""
  indices : ∀ piece ∈ d.calls, piece.index < c.toolCalls.length
  toolCalls : ∀ (index : Nat) (call : RawCall), c.toolCalls[index]? = some call →
    Assembles (piecesOf index d.calls) call

section Assembled

/-- A text that comes whole is picked up whatever is stored. -/
theorem foldl_pick {α : Type} {f : α → Option String} {text : String} {l : List α}
    (h : ∀ a ∈ l, heard (f a) = none ∨ f a = some text) (stored : String) :
    l.foldl (fun t a => pick (f a) t) stored = stored ∨
      l.foldl (fun t a => pick (f a) t) stored = text := by
  induction l generalizing stored with
  | nil => exact .inl rfl
  | cons a l ih =>
    have hrest := ih (fun b hb => h b (List.mem_cons_of_mem _ hb)) (pick (f a) stored)
    have hhead : pick (f a) stored = stored ∨ pick (f a) stored = text := by
      rw [pick]
      rcases h a List.mem_cons_self with hnone | hsome
      · rw [hnone]
        exact .inl rfl
      · rw [hsome]
        by_cases htext : text = ""
        · left
          rw [htext]
          rfl
        · right
          rw [heard, Option.filter_some_pos (by simp [htext])]
          rfl
    rcases hrest with hrest | hrest
    · rcases hhead with hhead | hhead
      · exact .inl (hrest.trans hhead)
      · exact .inr (hrest.trans hhead)
    · exact .inr hrest

theorem foldl_pick_given {α : Type} {f : α → Option String} {text : String} {l : List α}
    (h : ∀ a ∈ l, heard (f a) = none ∨ f a = some text)
    (hgiven : text ≠ "" → ∃ a ∈ l, f a = some text) :
    l.foldl (fun t a => pick (f a) t) "" = text := by
  by_cases htext : text = ""
  · rcases foldl_pick h "" with hfold | hfold
    · rw [hfold, htext]
    · exact hfold
  · obtain ⟨a, hmem, ha⟩ := hgiven htext
    obtain ⟨l₁, l₂, rfl⟩ := List.append_of_mem hmem
    have hpick : ∀ stored, pick (f a) stored = text := by
      intro stored
      rw [pick, ha, heard, Option.filter_some_pos (by simp [htext])]
      rfl
    rw [List.foldl_append, List.foldl_cons, hpick]
    rcases foldl_pick (fun b hb => h b (List.mem_append_right _ (List.mem_cons_of_mem _ hb))) text
      with hfold | hfold <;> exact hfold

theorem entry_foldl (ds : List ToolCallDelta) (e : Entry) :
    (ds.foldl Entry.add e).id = ds.foldl (fun t d => pick d.id t) e.id ∧
      (ds.foldl Entry.add e).name = ds.foldl (fun t d => pick d.name t) e.name ∧
        String.join (ds.foldl Entry.add e).parts =
          String.join e.parts ++ String.join (ds.filterMap ToolCallDelta.arguments) := by
  induction ds generalizing e with
  | nil => exact ⟨rfl, rfl, String.append_empty.symm⟩
  | cons d ds ih =>
    obtain ⟨hid, hname, hparts⟩ := ih (e.add d)
    refine ⟨hid, hname, ?_⟩
    rw [List.foldl_cons, hparts, Entry.add, String.join_append, String.append_assoc,
      List.filterMap_cons]
    cases harguments : d.arguments with
    | none =>
      show _ ++ ("" ++ _) = _
      rw [String.empty_append]
    | some arguments =>
      have hheard : String.join (heard (some arguments)).toList = arguments := by
        rw [heard]
        by_cases hempty : arguments = ""
        · rw [hempty]
          rfl
        · rw [Option.filter_some_pos (by simp [hempty])]
          exact String.join_cons.trans String.append_empty
      show _ ++ (String.join (heard (some arguments)).toList ++ _) = _
      rw [hheard, String.join_cons]

/-- The entry of a call is the call. -/
theorem entryOf_assembled [Runtime] {ds : List ToolCallDelta} {call : RawCall}
    (h : Assembles ds call) : (entryOf ds).toolCall.data = call.data := by
  obtain ⟨hid, hname, hparts⟩ := entry_foldl ds {}
  have hid' : (entryOf ds).id = call.id := hid.trans (foldl_pick_given h.id h.idGiven)
  have hname' : (entryOf ds).name = call.name := hname.trans (foldl_pick_given h.name h.nameGiven)
  have hparts' : String.join (entryOf ds).parts = call.arguments :=
    hparts.trans (String.empty_append.trans h.arguments)
  rw [ToolCall.data, RawCall.data, Entry.toolCall, hid', hname', hparts']

end Assembled

/-! ## What the adapter makes of a stream -/

section Run

variable [Runtime] (order : SetOrder) (model : String)
variable {s : StreamState} {pieces : List Piece} {events : List StreamEvent}

/-- The first chunk is announced, whatever is in it. -/
def startEvents (s : StreamState) : List StreamEvent :=
  if s.firstChunk then [.ofType .streamStart] else []

omit [Runtime] in
theorem Delivered.opened (h : Delivered s pieces events) (chunk : Chunk) :
    Delivered (opened s chunk) pieces (events ++ startEvents s) := by
  have hstart : textOf (startEvents s) = "" ∧ callsOf (startEvents s) = [] ∧
      finishesOf (startEvents s) = [] ∧ Unnamed (startEvents s) := by
    rw [startEvents]
    cases s.firstChunk with
    | false => exact ⟨rfl, rfl, rfl, .nil⟩
    | true => exact ⟨textOf_ofType .streamStart, rfl, rfl, .single rfl⟩
  obtain ⟨htext, hcalls, hfinish, hunnamed⟩ := hstart
  refine ⟨⟨h.kept.state, h.kept.started⟩, ?_, ?_, ?_, h.unnamed.append hunnamed⟩
  · rw [textOf_append, h.text, htext, String.append_empty]
  · rw [callsOf_append, h.calls, hcalls]
    rfl
  · rw [finishesOf_append, h.unfinished, hfinish]
    rfl

/-- A chunk without a finish reason is its pieces. -/
theorem chunkStep_unfinished (chunk : Chunk) {choice : Choice} (hchoice : chunk.choices = [choice])
    (hfinish : heard choice.finishReason = none) :
    chunkStep order model s chunk =
      (Transducer.final pieceStep (opened s chunk) (Delivery.piecesIn choice.delta),
        startEvents s ++
          Transducer.emitted pieceStep (opened s chunk) (Delivery.piecesIn choice.delta)) := by
  rw [chunkStep, hchoice]
  show ((choiceStep order (OpenAICompat.opened s chunk) model chunk.usage choice).1, _ ++
    (choiceStep order (OpenAICompat.opened s chunk) model chunk.usage choice).2) = _
  rw [choiceStep, hfinish]
  rfl

/-- Kept by everything a chunk makes the adapter do before it closes: to announce
itself, and to go through its pieces. -/
structure Carried (P : StreamState → List Piece → List StreamEvent → Prop) : Prop where
  opened : ∀ {s pieces events} chunk, P s pieces events →
    P (opened s chunk) pieces (events ++ startEvents s)
  piece : ∀ {s pieces events} piece, P s pieces events →
    P (pieceStep s piece).1 (pieces ++ [piece]) (events ++ (pieceStep s piece).2)

section Carrying

variable {P : StreamState → List Piece → List StreamEvent → Prop}

omit [Runtime] in
theorem Carried.pieceSteps (hP : Carried P) (h : P s pieces events) (more : List Piece) :
    P (Transducer.final pieceStep s more) (pieces ++ more)
      (events ++ Transducer.emitted pieceStep s more) := by
  induction more generalizing s pieces events with
  | nil =>
    rw [Transducer.final, Transducer.emitted, List.append_nil, List.append_nil]
    exact h
  | cons piece more ih =>
    have hrest := ih (hP.piece piece h)
    rw [List.append_assoc, List.append_assoc] at hrest
    exact hrest

theorem Carried.unfinished_chunk (hP : Carried P) (h : P s pieces events) (chunk : Chunk)
    {choice : Choice} (hchoice : chunk.choices = [choice])
    (hfinish : heard choice.finishReason = none) :
    P (chunkStep order model s chunk).1 (pieces ++ Delivery.piecesIn choice.delta)
      (events ++ (chunkStep order model s chunk).2) := by
  rw [chunkStep_unfinished order model chunk hchoice hfinish, ← List.append_assoc]
  exact hP.pieceSteps (hP.opened chunk h) _

theorem Carried.deltas (hP : Carried P) (h : P s pieces events) (id : String)
    (deltas : List (Option ChoiceDelta)) :
    P (Transducer.final (chunkStep order model) s (deltas.map (Delivery.choiceChunk id)))
      (pieces ++ deltas.flatMap Delivery.piecesIn)
      (events ++ Transducer.emitted (chunkStep order model) s
        (deltas.map (Delivery.choiceChunk id))) := by
  induction deltas generalizing s pieces events with
  | nil =>
    show P s (pieces ++ []) (events ++ [])
    rw [List.append_nil, List.append_nil]
    exact h
  | cons delta deltas ih =>
    have hrest := ih (hP.unfinished_chunk order model h (Delivery.choiceChunk id delta) rfl rfl)
    rw [List.append_assoc, List.append_assoc] at hrest
    exact hrest

/-- A chunk with a finish reason closes what is open after its pieces, and then
finishes. -/
theorem Carried.finished_chunk (hP : Carried P) (h : P s pieces events) (chunk : Chunk)
    {choice : Choice} (hchoice : chunk.choices = [choice]) {reason : String}
    (hfinish : heard choice.finishReason = some reason) :
    ∃ s' events' id, P s' (pieces ++ Delivery.piecesIn choice.delta) events' ∧
      (chunkStep order model s chunk).1 = (closing order s').1 ∧
        events ++ (chunkStep order model s chunk).2 = events' ++ ((closing order s').2 ++
          [.finishOf id model "openai_compat" (mapFinishReason (some reason))
            (extractUsage chunk.usage)]) := by
  have hcarried := hP.pieceSteps (hP.opened chunk h) (Delivery.piecesIn choice.delta)
  have hstep : chunkStep order model s chunk =
      ((choiceStep order (OpenAICompat.opened s chunk) model chunk.usage choice).1,
        startEvents s ++
          (choiceStep order (OpenAICompat.opened s chunk) model chunk.usage choice).2) := by
    rw [chunkStep, hchoice]
    rfl
  refine ⟨_, _, (OpenAICompat.opened s chunk).responseId, hcarried, ?_, ?_⟩
  · rw [hstep, choiceStep, hfinish]
    rfl
  · rw [hstep, choiceStep, hfinish]
    simp only [List.append_assoc]
    rfl

/-- All deltas before the last chunk. -/
theorem Carried.before_last (hP : Carried P) (h : P {} [] []) (d : Delivery) :
    ∃ s events, P s (d.deltas.flatMap Delivery.piecesIn) events ∧
      stream order model d.chunks = events ++ ((chunkStep order model s d.lastChunk).2 ++
        Transducer.emitted (chunkStep order model) (chunkStep order model s d.lastChunk).1
          d.trailer) := by
  have hrun := hP.deltas order model h d.id d.deltas
  rw [List.nil_append, List.nil_append] at hrun
  refine ⟨_, _, hrun, ?_⟩
  rw [stream, Delivery.chunks, List.append_assoc, Transducer.emitted_append]
  rfl

/-- A finish reason: all pieces, what closes them, a FINISH, and the trailer. -/
theorem Carried.finished (hP : Carried P) (h : P {} [] []) (d : Delivery) {reason : String}
    (hreason : heard d.finishReason = some reason) :
    ∃ s events id, P s d.pieces events ∧
      stream order model d.chunks = events ++ ((closing order s).2 ++
        .finishOf id model "openai_compat" (mapFinishReason (some reason))
          (extractUsage d.lastChunk.usage) ::
            Transducer.emitted (chunkStep order model) (closing order s).1 d.trailer) := by
  obtain ⟨s, events, hbefore, hstream⟩ := hP.before_last order model h d
  obtain ⟨s', events', id, hcarried, hstate, hevents⟩ := hP.finished_chunk order model hbefore
    d.lastChunk (rfl : d.lastChunk.choices = [⟨d.last, d.finishReason⟩]) hreason
  refine ⟨s', events', id, hcarried, ?_⟩
  rw [hstream, ← List.append_assoc, hevents, hstate, List.append_assoc, List.append_assoc]
  rfl

end Carrying

omit [Runtime] in
theorem delivered_carried : Carried Delivered where
  opened chunk h := h.opened chunk
  piece piece h := by
    cases piece with
    | content text => exact h.contentPiece text
    | call d => exact h.callPiece d

/-- The calls that end when the calls of a state are closed. -/
def endedCalls (ds : List ToolCallDelta) : List ToolCall :=
  (order.order (startedOf ds)).map fun index => (entryOf (piecesOf index ds)).toolCall

theorem closing_says {ds : List ToolCallDelta} (h : Kept s ds) :
    textOf (closing order s).2 = "" ∧ callsOf (closing order s).2 = endedCalls order ds ∧
      finishesOf (closing order s).2 = [] ∧ Unnamed (closing order s).2 := by
  have hends : ((order.order s.toolCallsStarted).map fun index => StreamEvent.toolCallEndOf
      ((s.toolCallsState.get? index).getD {}).toolCall) =
        (endedCalls order ds).map .toolCallEndOf := by
    rw [endedCalls, List.map_map, h.started]
    refine List.map_congr_left fun index hmem => ?_
    have hstarted : piecesOf index ds ≠ [] :=
      (mem_startedOf ds index).mp ((order.perm _).mem_iff.mp hmem)
    rw [h.state, if_neg hstarted]
    rfl
  rw [closing, hends]
  generalize endedCalls order ds = calls
  have hclose : textOf (closeText s) = "" ∧ callsOf (closeText s) = [] ∧
      finishesOf (closeText s) = [] ∧ Unnamed (closeText s) := by
    rw [closeText]
    cases s.textStarted with
    | false => exact ⟨rfl, rfl, rfl, .nil⟩
    | true => exact ⟨textOf_ofType .textEnd, rfl, rfl, .single rfl⟩
  obtain ⟨htext, hcalls, hfinish, hunnamed⟩ := hclose
  refine ⟨?_, ?_, ?_, hunnamed.append (.map calls fun _ => rfl)⟩
  · rw [textOf_append, htext, textOf_map_silent calls fun _ => rfl]
    rfl
  · rw [callsOf_append, hcalls, callsOf_ends]
    rfl
  · have hends : finishesOf (calls.map .toolCallEndOf) = [] :=
      finishesOf_map_silent calls fun call h => by cases h
    rw [finishesOf_append, hfinish, hends]
    rfl

/-- The FINISH of a chunk that has the usage only. -/
def usageFinish (s : StreamState) (usage : CompletionUsage) : StreamEvent :=
  .finishOf s.responseId model "openai_compat"
    (if s.toolCallsState.entries.isEmpty then ⟨"stop", none⟩ else ⟨"tool_calls", none⟩)
    (extractUsageFromObj usage)

theorem closing_unfinished (s : StreamState) : finishesOf (closing order s).2 = [] := by
  have hends : ∀ calls : List Nat, finishesOf (calls.map fun index => .toolCallEndOf
      ((s.toolCallsState.get? index).getD {}).toolCall) = [] := fun calls =>
    finishesOf_map_silent calls fun index h => by cases h
  rw [closing, closeText, finishesOf_append, hends]
  cases s.textStarted <;> rfl

omit [Runtime] in
theorem startEvents_unfinished (s : StreamState) : finishesOf (startEvents s) = [] := by
  rw [startEvents]
  cases s.firstChunk <;> rfl

/-- A usage chunk adds a FINISH of its own. -/
theorem chunkStep_trailing (s : StreamState) (id : String) (usage : CompletionUsage) :
    ∃ l, (chunkStep order model s { id := some id, usage := some usage }).2 =
        l ++ [usageFinish model (opened s { id := some id, usage := some usage }) usage] ∧
      finishesOf l = [] := by
  refine ⟨startEvents s ++ (closing order (opened s { id := some id, usage := some usage })).2,
    ?_, ?_⟩
  · rw [List.append_assoc]
    rfl
  · rw [finishesOf_append, startEvents_unfinished, closing_unfinished]
    rfl

/-- The events before a FINISH, with everything that has been delivered. -/
structure Ended (pieces : List Piece) (events : List StreamEvent) : Prop where
  text : textOf events = textIn pieces
  calls : callsOf events = endedCalls order (callsIn pieces)
  unfinished : finishesOf events = []
  unnamed : Unnamed events

theorem Delivered.closing (h : Delivered s pieces events) :
    Ended order pieces (events ++ (closing order s).2) := by
  obtain ⟨htext, hcalls, hunfinished, hunnamed⟩ := closing_says order h.kept
  refine ⟨?_, ?_, ?_, h.unnamed.append hunnamed⟩
  · rw [textOf_append, h.text, htext, String.append_empty]
  · rw [callsOf_append, h.calls, hcalls]
    rfl
  · rw [finishesOf_append, h.unfinished, hunfinished]
    rfl

variable (d : Delivery)

/-- The trailing usage and its FINISH, if there are any. -/
theorem emitted_trailer (s : StreamState) :
    (∀ usage, d.place ≠ .trailing usage) ∧
        Transducer.emitted (chunkStep order model) s d.trailer = [] ∨
      ∃ usage l s', d.place = .trailing usage ∧
        Transducer.emitted (chunkStep order model) s d.trailer = l ++ [usageFinish model s' usage] ∧
        finishesOf l = [] := by
  rw [Delivery.trailer]
  cases hplace : d.place with
  | trailing usage =>
    obtain ⟨l, hl, hfinish⟩ := chunkStep_trailing order model s d.id usage
    refine .inr ⟨usage, l, opened s { id := some d.id, usage := some usage }, rfl, ?_, hfinish⟩
    exact (List.append_nil _).trans hl
  | inLast usage => exact .inl ⟨nofun, rfl⟩
  | absent => exact .inl ⟨nofun, rfl⟩

/-- A finish reason: everything delivered, a FINISH, and what comes with the
trailing usage. -/
theorem stream_finished {reason : String} (hreason : heard d.finishReason = some reason) :
    ∃ l id rest, stream order model d.chunks =
        l ++ .finishOf id model "openai_compat" (mapFinishReason (some reason))
          (extractUsage d.lastChunk.usage) :: rest ∧
      Ended order d.pieces l ∧
        ((∀ usage, d.place ≠ .trailing usage) ∧ rest = [] ∨
          ∃ usage, d.place = .trailing usage ∧ (finishesOf rest).length = 1) := by
  obtain ⟨s, events, id, hdel, hstream⟩ :=
    delivered_carried.finished order model delivered_start d hreason
  refine ⟨events ++ (closing order s).2, id, _, hstream.trans (List.append_assoc ..).symm,
    hdel.closing order, ?_⟩
  rcases emitted_trailer order model d (closing order s).1 with
    ⟨hplace, hrest⟩ | ⟨usage, l, s', hplace, hrest, hfinish⟩
  · exact .inl ⟨hplace, hrest⟩
  · refine .inr ⟨usage, hplace, ?_⟩
    rw [hrest, finishesOf_append, hfinish]
    rfl

/-- No finish reason: either nothing ends the stream, or the trailing usage does. -/
theorem stream_unfinished (hreason : heard d.finishReason = none) :
    finishesOf (stream order model d.chunks) = [] ∨
      ∃ l s usage, stream order model d.chunks = l ++ [usageFinish model s usage] := by
  obtain ⟨s, events, hdel, hstream⟩ :=
    delivered_carried.before_last order model delivered_start d
  have hlast := delivered_carried.unfinished_chunk order model hdel d.lastChunk
    (rfl : d.lastChunk.choices = [⟨d.last, d.finishReason⟩]) hreason
  rw [← List.append_assoc] at hstream
  rcases emitted_trailer order model d (chunkStep order model s d.lastChunk).1 with
    ⟨-, hrest⟩ | ⟨usage, l', s', -, hrest, -⟩
  · left
    rw [hstream, hrest, List.append_nil]
    exact hlast.unfinished
  · exact .inr ⟨_, s', usage, by rw [hstream, hrest, ← List.append_assoc]⟩

end Run

/-! ## Stream and blocking call -/

section Agreement

variable [Runtime] [CostTable] (order : SetOrder) (model : String)
variable {d : Delivery} {c : Completion}

/-- The accumulated response has the text, the calls, the finish reason and the
counters of the blocking call, and the stream finishes once. -/
structure AgreesWithCall (d : Delivery) (c : Completion) : Prop where
  text : (StreamAccumulator.processAll {} (stream order model d.chunks)).response.text =
    (translateResponse c).text
  toolCalls : (StreamAccumulator.processAll {} (stream order model d.chunks)).response.toolCalls =
    (translateResponse c).toolCalls
  finishReason :
    (StreamAccumulator.processAll {} (stream order model d.chunks)).response.finishReason =
      (translateResponse c).finishReason
  usage : (StreamAccumulator.processAll {} (stream order model d.chunks)).response.usage.counts =
    (translateResponse c).usage.counts
  once : (finishesOf (stream order model d.chunks)).length = 1

/-- Gone through as a set, the calls come in the order of the completion. -/
def InOrder (d : Delivery) (c : Completion) : Prop :=
  ((order.order (startedOf d.calls)).filterMap fun index => c.toolCalls[index]?).map RawCall.data =
    c.toolCalls.map RawCall.data

omit [CostTable] in
theorem translateResponse_says (c : Completion) :
    (translateResponse c).text = c.content.getD "" ∧
      (translateResponse c).toolCalls = c.toolCalls.map RawCall.data := by
  have hcalls : ∀ calls : List RawCall,
      (calls.map fun call => ContentPart.ofToolCall call.data).filterMap (fun part =>
        if part.kind = .text then part.text else none) = [] ∧
      (calls.map fun call => ContentPart.ofToolCall call.data).filterMap (fun part =>
        if part.kind = .toolCall then part.toolCall else none) = calls.map RawCall.data := by
    intro calls
    induction calls with
    | nil => exact ⟨rfl, rfl⟩
    | cons call calls ih => exact ⟨ih.1, congrArg (call.data :: ·) ih.2⟩
  refine ⟨?_, ?_⟩
  · rw [Response.text, Message.text, translateResponse, List.filterMap_append, (hcalls _).1,
      List.append_nil, ← StreamAccumulator.getD_heard]
    cases heard c.content with
    | none => rfl
    | some text => exact String.join_cons.trans String.append_empty
  · rw [Response.toolCalls, translateResponse, List.filterMap_append, (hcalls _).2]
    cases heard c.content <;> rfl

omit [CostTable] in
/-- The calls that end are those of the completion, as the set has them. -/
theorem endedCalls_data (h : d.Of c) : (endedCalls order d.calls).map ToolCall.data =
    ((order.order (startedOf d.calls)).filterMap fun index => c.toolCalls[index]?).map
      RawCall.data := by
  have hindices : ∀ index ∈ order.order (startedOf d.calls), ∃ call,
      c.toolCalls[index]? = some call ∧
        (entryOf (piecesOf index d.calls)).toolCall.data = call.data := by
    intro index hmem
    have hstarted := (mem_startedOf d.calls index).mp ((order.perm _).mem_iff.mp hmem)
    obtain ⟨piece, hpiece⟩ := List.exists_mem_of_ne_nil _ hstarted
    obtain ⟨hcall, hindex⟩ := List.mem_filter.mp hpiece
    have hlt := h.indices piece hcall
    rw [of_decide_eq_true hindex] at hlt
    have hsome : c.toolCalls[index]? = some c.toolCalls[index] := List.getElem?_eq_getElem hlt
    exact ⟨_, hsome, entryOf_assembled (h.toolCalls index _ hsome)⟩
  rw [endedCalls]
  generalize order.order (startedOf d.calls) = indices at hindices
  induction indices with
  | nil => rfl
  | cons index indices ih =>
    obtain ⟨call, hcall, hdata⟩ := hindices index List.mem_cons_self
    rw [List.filterMap_cons, hcall, List.map_cons, List.map_cons, List.map_cons, hdata,
      ih fun i hi => hindices i (List.mem_cons_of_mem _ hi)]

/-- Without a finish reason the stream does not finish as the call does. -/
theorem not_agrees_unfinished (h : d.Of c) (hreason : heard d.finishReason = none) :
    ¬AgreesWithCall order model d c := by
  intro hagrees
  have hother : (mapFinishReason c.finishReason).reason = "other" := by
    rw [← h.finishReason, mapFinishReason, ← StreamAccumulator.getD_heard, hreason]
    rfl
  rcases stream_unfinished order model d hreason with hnone | ⟨l, s, usage, hstream⟩
  · have honce := hagrees.once
    rw [hnone] at honce
    cases honce
  · have hfinish := hagrees.finishReason
    rw [hstream, usageFinish, (StreamAccumulator.response_finish ..).1] at hfinish
    have hreason' := (congrArg FinishReason.reason hfinish).trans hother
    cases hentries : s.toolCallsState.entries.isEmpty with
    | true =>
      rw [hentries, if_pos rfl] at hreason'
      exact absurd hreason' (by decide)
    | false =>
      rw [hentries, if_neg nofun] at hreason'
      exact absurd hreason' (by decide)

/-- A stream agrees with the blocking call exactly if there is a finish reason, the
usage does not trail, and the set goes through the calls in their order. -/
theorem chunked_agrees_iff (h : d.Of c) :
    AgreesWithCall order model d c ↔
      (∃ reason, c.finishReason = some reason ∧ reason ≠ "") ∧
        (∀ usage, d.place ≠ .trailing usage) ∧ InOrder order d c := by
  have hfinish : heard c.finishReason = none ↔
      ¬∃ reason, c.finishReason = some reason ∧ reason ≠ "" := by
    cases hc : c.finishReason with
    | none => exact iff_of_true rfl nofun
    | some reason => simp [heard]
  cases hreason : heard d.finishReason with
  | none =>
    have hnone : heard c.finishReason = none := h.finishReason ▸ hreason
    exact iff_of_false (not_agrees_unfinished order model h hreason)
      fun hall => hfinish.mp hnone hall.1
  | some reason =>
    have hsome : c.finishReason = some reason := by
      rw [← h.finishReason]
      exact (Option.filter_eq_some_iff.mp hreason).1
    have hne : reason ≠ "" := by simpa using (Option.filter_eq_some_iff.mp hreason).2
    obtain ⟨l, id, rest, hstream, hended, hrest⟩ := stream_finished order model d hreason
    rcases hrest with ⟨hplace, rfl⟩ | ⟨usage, hplace, hlength⟩
    · obtain ⟨htext, hcalls⟩ := translateResponse_says c
      have husage : d.lastChunk.usage = c.usage := by
        rw [← h.usage, Delivery.lastChunk]
        cases hd : d.place with
        | trailing usage => exact absurd hd (hplace usage)
        | inLast usage => rfl
        | absent => rfl
      have htoolCalls : AgreesWithCall order model d c ↔ InOrder order d c := by
        have hended' : callsOf (stream order model d.chunks) = endedCalls order d.calls := by
          rw [hstream, callsOf_append, hended.calls]
          exact List.append_nil _
        have hcollected := StreamAccumulator.response_toolCalls (stream order model d.chunks)
        rw [hended', endedCalls_data order h] at hcollected
        refine ⟨fun hagrees => hcollected.symm.trans (hagrees.toolCalls.trans hcalls),
          fun hinOrder => ⟨?_, hcollected.trans (hinOrder.trans hcalls.symm), ?_, ?_, ?_⟩⟩
        · rw [htext, ← h.content, hstream,
            StreamAccumulator.response_text (hended.unnamed.append (.single rfl)), textOf_append,
            hended.text]
          exact String.append_empty
        · rw [hstream, (StreamAccumulator.response_finish ..).1, ← hsome]
          rfl
        · rw [hstream, (StreamAccumulator.response_finish ..).2, husage]
          rfl
        · rw [hstream, finishesOf_append, hended.unfinished]
          rfl
      rw [htoolCalls]
      exact ⟨fun hinOrder => ⟨⟨reason, hsome, hne⟩, hplace, hinOrder⟩, fun hall => hall.2.2⟩
    · refine iff_of_false (fun hagrees => ?_) fun hall => hall.2.1 usage hplace
      have honce := hagrees.once
      rw [hstream, finishesOf_append, hended.unfinished] at honce
      have htwo : (finishesOf (StreamEvent.finishOf id model "openai_compat"
          (mapFinishReason (some reason)) (extractUsage d.lastChunk.usage) :: rest)).length = 2 :=
        congrArg Nat.succ hlength
      rw [List.nil_append, htwo] at honce
      cases honce

end Agreement

section Demo

open Py.Ascii Unpriced

/-- A set that is gone through as it was filled. -/
def asAdded : SetOrder := ⟨id, fun l => .refl l⟩

def counted : CompletionUsage where
  promptTokens := some 3
  completionTokens := some 1

def greeting : Completion where
  id := "cmpl"
  model := "local"
  content := some "Hi"
  toolCalls := []
  finishReason := some "length"
  usage := some counted

def greetingStream (place : UsagePlace) : Delivery where
  id := "cmpl"
  deltas := [some { content := some "H" }, some { content := some "i" }]
  last := none
  finishReason := some "length"
  place := place

theorem greetingStream_of (place : UsagePlace) (h : place.usage = some counted) :
    (greetingStream place).Of greeting where
  finishReason := rfl
  usage := h
  content := by
    show textIn [.content "H", .content "i"] = "Hi"
    decide
  indices := nofun
  toolCalls := nofun

theorem chunked_agrees_greeting :
    AgreesWithCall asAdded "local" (greetingStream (.inLast counted)) greeting :=
  (chunked_agrees_iff asAdded "local" (greetingStream_of (.inLast counted) rfl)).mpr
    ⟨⟨"length", rfl, by decide⟩, nofun, rfl⟩

/-- With its usage after it the text that was cut off counts as complete. -/
theorem trailing_usage_overrides : (greetingStream (.trailing counted)).Of greeting ∧
    ¬AgreesWithCall asAdded "local" (greetingStream (.trailing counted)) greeting := by
  refine ⟨greetingStream_of (.trailing counted) rfl, fun h => ?_⟩
  exact absurd h.finishReason (by decide)

end Demo

end OpenAICompat
end Llm
end DotRunner
