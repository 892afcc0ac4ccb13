import DotRunner.Llm.Accumulator
import DotRunner.Llm.Validation

/-!
# Streaming from Gemini

A chunk has candidates, of which the first one counts, and usage.  The loop
leaves a chunk without content parts before it looks at the finish reason and
at the usage, so what such a chunk reports is lost.
-/

namespace DotRunner
namespace Llm
namespace Gemini

open Py
open StreamAccumulator (heard getD_heard)

/-! ## What the provider sends -/

structure FunctionCall where
  name : String
  args : Option (List (String × Value)) := none

structure Part where
  text : Option String := none
  functionCall : Option FunctionCall := none

/-- `parts` are those of the content, if there is one; the reason is its `str()`. -/
structure Candidate where
  parts : Option (List Part) := none
  finishReason : Option String := none

structure UsageMetadata where
  promptTokenCount : Option Int := none
  candidatesTokenCount : Option Int := none
  totalTokenCount : Option Int := none
  thoughtsTokenCount : Option Int := none
  cachedContentTokenCount : Option Int := none

structure Chunk where
  candidates : Option (List (Option Candidate)) := none
  usageMetadata : Option UsageMetadata := none

/-! ## The maps -/

def finishReasons : List (String × String) :=
  [("STOP", "stop"), ("MAX_TOKENS", "length"), ("SAFETY", "content_filter"),
    ("RECITATION", "content_filter")]

/-- `rsplit(".", 1)[-1]` -/
def afterLastDot (s : String) : String :=
  String.ofList (s.toList.reverse.takeWhile (· ≠ '.')).reverse

def mapFinishReason (finishReason : String) : FinishReason :=
  let key := if '.' ∈ finishReason.toList then afterLastDot finishReason else finishReason
  ⟨(finishReasons.lookup key).getD "other", some finishReason⟩

def mapUsage (usageMetadata : Option UsageMetadata) : Usage :=
  match usageMetadata with
  | none => .zero
  | some u =>
    let inputTokens := u.promptTokenCount.getD 0
    let outputTokens := u.candidatesTokenCount.getD 0
    { inputTokens := inputTokens
      outputTokens := outputTokens
      totalTokens := u.totalTokenCount.getD (inputTokens + outputTokens)
      reasoningTokens := u.thoughtsTokenCount
      cacheReadTokens := u.cachedContentTokenCount }

/-! ## The stream -/

structure StreamState where
  textStarted : Bool := false
  hasToolCalls : Bool := false
  lastUsage : Option Usage := none
  lastFinishReason : Option String := none
  /-- how many ids have been made up -/
  made : Nat := 0

/-- The first candidate, where there is one. -/
def Chunk.candidate (chunk : Chunk) : Option Candidate := (chunk.candidates.getD []).head?.join

/-- The parts the loop goes through. -/
def Chunk.parts (chunk : Chunk) : List Part := (chunk.candidate.bind Candidate.parts).getD []

section Stream

variable (ids : Nat → String) (s : StreamState)

def textStep (text : Option String) : StreamState × List StreamEvent :=
  match heard text with
  | none => (s, [])
  | some text =>
    ({ s with textStarted := true },
      (if s.textStarted then [] else [.ofType .textStart]) ++ [.textDeltaOf text])

/-- A call is complete in its part; only its id is made up. -/
def FunctionCall.toolCall (id : String) (call : FunctionCall) : ToolCall where
  id := id
  name := call.name
  arguments := .dict (call.args.getD [])

def callStep (functionCall : Option FunctionCall) : StreamState × List StreamEvent :=
  match functionCall with
  | none => (s, [])
  | some call =>
    ({ s with hasToolCalls := true, made := s.made + 1 },
      [.toolCallStartOf ⟨ids s.made, call.name, .dict [], none⟩,
        .toolCallEndOf (call.toolCall (ids s.made))])

def partStep (part : Part) : StreamState × List StreamEvent :=
  let afterText := textStep s part.text
  let afterCall := callStep ids afterText.1 part.functionCall
  (afterCall.1, afterText.2 ++ afterCall.2)

/-- Without parts the loop goes on to the next chunk. -/
def candidateStep (usageMetadata : Option UsageMetadata) (candidate : Candidate) :
    StreamState × List StreamEvent :=
  match candidate.parts.getD [] with
  | [] => (s, [])
  | part :: parts =>
    let s' := Transducer.final (partStep ids) s (part :: parts)
    ({ s' with
        lastFinishReason := (heard candidate.finishReason).or s'.lastFinishReason
        lastUsage := (usageMetadata.map fun u => mapUsage (some u)).or s'.lastUsage },
      Transducer.emitted (partStep ids) s (part :: parts))

def chunkStep (chunk : Chunk) : StreamState × List StreamEvent :=
  match chunk.candidate with
  | none => (s, [])
  | some candidate => candidateStep ids s chunk.usageMetadata candidate

def finishReason : FinishReason :=
  if s.hasToolCalls then ⟨"tool_calls", s.lastFinishReason⟩
  else match s.lastFinishReason with
    | some reason => mapFinishReason reason
    | none => ⟨"other", none⟩

/-- After the last chunk. -/
def closing (model : String) : List StreamEvent :=
  (if s.textStarted then [.ofType .textEnd] else []) ++
    [.finishOf "" model "gemini" (finishReason s) (s.lastUsage.getD .zero)]

/-- `GeminiAdapter.stream`, given the ids it makes up. -/
def stream (model : String) (chunks : List Chunk) : List StreamEvent :=
  Transducer.emitted (chunkStep ids) {} chunks ++
    closing (Transducer.final (chunkStep ids) {} chunks) model

end Stream

/-! ## What the chunks say -/

/-- The finish reason a chunk reports. -/
def Chunk.finish (chunk : Chunk) : Option String :=
  heard (chunk.candidate.bind Candidate.finishReason)

/-- The last value that is there. -/
def lastOf {α : Type} (f : Chunk → Option α) (chunks : List Chunk) : Option α :=
  (chunks.filterMap f).getLast?

def reportedReason (chunks : List Chunk) : Option String := lastOf Chunk.finish chunks

def reportedUsage (chunks : List Chunk) : Usage := mapUsage (lastOf Chunk.usageMetadata chunks)

def partsOf (chunks : List Chunk) : List Part := chunks.flatMap Chunk.parts

def partCalls (parts : List Part) : List FunctionCall := parts.filterMap Part.functionCall

def partTexts (parts : List Part) : String := String.join (parts.map fun part => part.text.getD "")

/-- The calls under the ids made up for them, from the `n`-th id on. -/
def numbered (ids : Nat → String) (n : Nat) : List FunctionCall → List ToolCall
  | [] => []
  | call :: calls => call.toolCall (ids n) :: numbered ids (n + 1) calls

/-- A call overrides the reason, but not what the provider called it. -/
def endReason (calls : List FunctionCall) (reported : Option String) : FinishReason :=
  if calls = [] then
    match reported with
    | some reason => mapFinishReason reason
    | none => ⟨"other", none⟩
  else ⟨"tool_calls", reported⟩

/-- The chunks the loop does not skip. -/
def heeded (chunks : List Chunk) : List Chunk := chunks.filter fun chunk => !chunk.parts.isEmpty

theorem endReason_raw (calls : List FunctionCall) (reported : Option String) :
    (endReason calls reported).raw = reported := by
  rw [endReason.eq_def]
  split
  · cases reported <;> rfl
  · rfl

section Lists

variable {α : Type} (f : Chunk → Option α)

theorem lastOf_cons (chunk : Chunk) (chunks : List Chunk) :
    lastOf f (chunk :: chunks) = (lastOf f chunks).or (f chunk) := by
  rw [lastOf, List.filterMap_cons, lastOf]
  cases f chunk with
  | none => rw [Option.or_none]
  | some a => cases h : (chunks.filterMap f).getLast? <;> simp [List.getLast?_cons, h]

theorem numbered_append (ids : Nat → String) (n : Nat) (calls calls' : List FunctionCall) :
    numbered ids n (calls ++ calls') =
      numbered ids n calls ++ numbered ids (n + calls.length) calls' := by
  induction calls generalizing n with
  | nil => rfl
  | cons call calls ih =>
    rw [List.cons_append, numbered, numbered, ih, List.length_cons,
      show n + (calls.length + 1) = n + 1 + calls.length by omega]
    rfl

theorem partTexts_append (parts parts' : List Part) :
    partTexts (parts ++ parts') = partTexts parts ++ partTexts parts' := by
  rw [partTexts, List.map_append, String.join_append]
  rfl

theorem partCalls_append (parts parts' : List Part) :
    partCalls (parts ++ parts') = partCalls parts ++ partCalls parts' :=
  List.filterMap_append

end Lists

/-! ## What the stream delivers -/

section Delivered

variable {ids : Nat → String} {s : StreamState} {parts : List Part} {events : List StreamEvent}

/-- The parts gone through so far, and the events sent for them. -/
structure Delivered (ids : Nat → String) (s : StreamState) (parts : List Part)
    (events : List StreamEvent) : Prop where
  text : textOf events = partTexts parts
  calls : callsOf events = numbered ids 0 (partCalls parts)
  made : s.made = (partCalls parts).length
  hasToolCalls : s.hasToolCalls = !(partCalls parts).isEmpty
  noFinish : finishesOf events = []

theorem delivered_start (ids : Nat → String) : Delivered ids {} [] [] := ⟨rfl, rfl, rfl, rfl, rfl⟩

theorem textStep_events (s : StreamState) (text : Option String) :
    textOf (textStep s text).2 = text.getD "" ∧ callsOf (textStep s text).2 = [] ∧
      finishesOf (textStep s text).2 = [] := by
  rw [← getD_heard, textStep]
  cases heard text with
  | none => exact ⟨rfl, rfl, rfl⟩
  | some text =>
    cases s.textStarted with
    | false =>
      refine ⟨?_, rfl, rfl⟩
      show textOf [.ofType .textStart, .textDeltaOf text] = text
      rw [textOf_cons, textOf_cons, textOf_nil]
      exact (String.empty_append).trans String.append_empty
    | true =>
      refine ⟨?_, rfl, rfl⟩
      show textOf [.textDeltaOf text] = text
      rw [textOf_cons, textOf_nil]
      exact String.append_empty

theorem textStep_state (s : StreamState) (text : Option String) :
    (textStep s text).1.made = s.made ∧ (textStep s text).1.hasToolCalls = s.hasToolCalls := by
  rw [textStep]
  cases heard text <;> exact ⟨rfl, rfl⟩

theorem callStep_events (ids : Nat → String) (s : StreamState) (call : Option FunctionCall) :
    textOf (callStep ids s call).2 = "" ∧
      callsOf (callStep ids s call).2 = numbered ids s.made call.toList ∧
        finishesOf (callStep ids s call).2 = [] := by
  cases call <;> exact ⟨rfl, rfl, rfl⟩

theorem callStep_state (ids : Nat → String) (s : StreamState) (call : Option FunctionCall) :
    (callStep ids s call).1.made = s.made + call.toList.length ∧
      (callStep ids s call).1.hasToolCalls = (s.hasToolCalls || !call.toList.isEmpty) := by
  cases call with
  | none => exact ⟨rfl, (Bool.or_false _).symm⟩
  | some call => exact ⟨rfl, (Bool.or_true _).symm⟩

theorem Delivered.partStep (h : Delivered ids s parts events) (part : Part) :
    Delivered ids (partStep ids s part).1 (parts ++ [part])
      (events ++ (partStep ids s part).2) := by
  obtain ⟨htext, hcalls, hfinish⟩ := textStep_events s part.text
  obtain ⟨hmade, hhas⟩ := textStep_state s part.text
  obtain ⟨htext', hcalls', hfinish'⟩ :=
    callStep_events ids (Gemini.textStep s part.text).1 part.functionCall
  obtain ⟨hmade', hhas'⟩ :=
    callStep_state ids (Gemini.textStep s part.text).1 part.functionCall
  have hparts : partCalls (parts ++ [part]) = partCalls parts ++ part.functionCall.toList := by
    rw [partCalls_append]
    cases hcall : part.functionCall <;> simp [partCalls, hcall]
  rw [Gemini.partStep]
  refine ⟨?_, ?_, ?_, ?_, ?_⟩
  · rw [textOf_append, textOf_append, h.text, htext, htext', partTexts_append]
    simp [partTexts]
  · rw [callsOf_append, callsOf_append, h.calls, hcalls, hcalls', hmade, h.made, hparts,
      numbered_append, Nat.zero_add]
    rfl
  · rw [hmade', hmade, h.made, hparts, List.length_append]
  · rw [hhas', hhas, h.hasToolCalls, hparts]
    cases partCalls parts <;> simp
  · rw [finishesOf_append, finishesOf_append, h.noFinish, hfinish, hfinish']
    rfl

theorem Delivered.partSteps (h : Delivered ids s parts events) (more : List Part) :
    Delivered ids (Transducer.final (Gemini.partStep ids) s more) (parts ++ more)
      (events ++ Transducer.emitted (Gemini.partStep ids) s more) := by
  induction more generalizing s parts events with
  | nil =>
    rw [Transducer.final, Transducer.emitted, List.append_nil, List.append_nil]
    exact h
  | cons part more ih =>
    have hrest := ih (h.partStep part)
    rw [List.append_assoc, List.append_assoc] at hrest
    exact hrest

/-- A skipped chunk has no parts, so nothing of it is missing here. -/
theorem Delivered.chunkStep (h : Delivered ids s parts events) (chunk : Chunk) :
    Delivered ids (chunkStep ids s chunk).1 (parts ++ chunk.parts)
      (events ++ (chunkStep ids s chunk).2) := by
  rw [Gemini.chunkStep, Chunk.parts]
  cases chunk.candidate with
  | none =>
    show Delivered ids s (parts ++ []) (events ++ [])
    rw [List.append_nil, List.append_nil]
    exact h
  | some candidate =>
    show Delivered ids (candidateStep ids s chunk.usageMetadata candidate).1
      (parts ++ candidate.parts.getD [])
      (events ++ (candidateStep ids s chunk.usageMetadata candidate).2)
    rw [candidateStep]
    cases candidate.parts.getD [] with
    | nil =>
      show Delivered ids s (parts ++ []) (events ++ [])
      rw [List.append_nil, List.append_nil]
      exact h
    | cons part more =>
      have hparts := h.partSteps (part :: more)
      exact ⟨hparts.text, hparts.calls, hparts.made, hparts.hasToolCalls, hparts.noFinish⟩

theorem Delivered.chunkSteps (h : Delivered ids s parts events) (chunks : List Chunk) :
    Delivered ids (Transducer.final (Gemini.chunkStep ids) s chunks) (parts ++ partsOf chunks)
      (events ++ Transducer.emitted (Gemini.chunkStep ids) s chunks) := by
  induction chunks generalizing s parts events with
  | nil =>
    rw [Transducer.final, Transducer.emitted, partsOf, List.flatMap_nil, List.append_nil,
      List.append_nil]
    exact h
  | cons chunk chunks ih =>
    have hrest := ih (h.chunkStep chunk)
    rw [List.append_assoc, List.append_assoc] at hrest
    exact hrest

end Delivered

/-! ## What the stream ends with -/

section Ending

variable (ids : Nat → String)

theorem partSteps_last (s : StreamState) (parts : List Part) :
    (Transducer.final (partStep ids) s parts).lastFinishReason = s.lastFinishReason ∧
      (Transducer.final (partStep ids) s parts).lastUsage = s.lastUsage := by
  refine Transducer.final_of_step (partStep ids) (P := fun s' =>
    s'.lastFinishReason = s.lastFinishReason ∧ s'.lastUsage = s.lastUsage) (Q := fun _ => True)
    (fun s' part h _ => ?_) ⟨rfl, rfl⟩ fun _ _ => trivial
  rw [partStep, textStep]
  cases heard part.text <;> cases part.functionCall <;> exact h

/-- Only a chunk with parts is asked for its reason and its usage. -/
theorem chunkStep_last (s : StreamState) (chunk : Chunk) :
    (chunkStep ids s chunk).1.lastFinishReason =
        (if chunk.parts.isEmpty then none else chunk.finish).or s.lastFinishReason ∧
      (chunkStep ids s chunk).1.lastUsage =
        (if chunk.parts.isEmpty then none
          else chunk.usageMetadata.map fun u => mapUsage (some u)).or s.lastUsage := by
  rw [chunkStep, Chunk.parts, Chunk.finish]
  cases chunk.candidate with
  | none => exact ⟨rfl, rfl⟩
  | some candidate =>
    rw [Option.bind_some, Option.bind_some]
    show (candidateStep ids s chunk.usageMetadata candidate).1.lastFinishReason = _ ∧
      (candidateStep ids s chunk.usageMetadata candidate).1.lastUsage = _
    rw [candidateStep]
    cases candidate.parts.getD [] with
    | nil => exact ⟨rfl, rfl⟩
    | cons part parts =>
      obtain ⟨hreason, husage⟩ := partSteps_last ids s (part :: parts)
      refine ⟨?_, ?_⟩
      · show (heard candidate.finishReason).or _ = _
        rw [hreason]
        rfl
      · show (chunk.usageMetadata.map fun u => mapUsage (some u)).or _ = _
        rw [husage]
        rfl

theorem lastOf_heeded {α : Type} (f : Chunk → Option α) (chunk : Chunk) (chunks : List Chunk) :
    lastOf f (heeded (chunk :: chunks)) =
      (lastOf f (heeded chunks)).or (if chunk.parts.isEmpty then none else f chunk) := by
  rw [heeded, List.filter_cons]
  cases chunk.parts.isEmpty with
  | true =>
    show lastOf f (heeded chunks) = (lastOf f (heeded chunks)).or none
    rw [Option.or_none]
  | false => exact lastOf_cons f chunk (heeded chunks)

theorem chunkSteps_last (s : StreamState) (chunks : List Chunk) :
    (Transducer.final (chunkStep ids) s chunks).lastFinishReason =
        (lastOf Chunk.finish (heeded chunks)).or s.lastFinishReason ∧
      (Transducer.final (chunkStep ids) s chunks).lastUsage =
        ((lastOf Chunk.usageMetadata (heeded chunks)).map fun u => mapUsage (some u)).or
          s.lastUsage := by
  induction chunks generalizing s with
  | nil => exact ⟨rfl, rfl⟩
  | cons chunk chunks ih =>
    obtain ⟨hreason, husage⟩ := chunkStep_last ids s chunk
    rw [Transducer.final, (ih _).1, (ih _).2, hreason, husage, lastOf_heeded, lastOf_heeded,
      ← Option.or_assoc, ← Option.or_assoc, Option.map_or]
    refine ⟨rfl, ?_⟩
    cases chunk.parts.isEmpty <;> rfl

/-- The one FINISH has what the chunks with parts report. -/
theorem stream_delivers (model : String) (chunks : List Chunk) :
    textOf (stream ids model chunks) = partTexts (partsOf chunks) ∧
      callsOf (stream ids model chunks) = numbered ids 0 (partCalls (partsOf chunks)) ∧
        finishesOf (stream ids model chunks) = [.finishOf "" model "gemini"
          (endReason (partCalls (partsOf chunks)) (reportedReason (heeded chunks)))
          (reportedUsage (heeded chunks))] := by
  have hrun := (delivered_start ids).chunkSteps chunks
  obtain ⟨hreason, husage⟩ := chunkSteps_last ids {} chunks
  rw [List.nil_append, List.nil_append] at hrun
  rw [Option.or_none] at hreason husage
  rw [stream, closing]
  generalize hend : Transducer.final (chunkStep ids) {} chunks = s at hrun hreason husage ⊢
  have hfinish : finishReason s =
      endReason (partCalls (partsOf chunks)) (reportedReason (heeded chunks)) := by
    rw [finishReason, endReason.eq_def, hrun.hasToolCalls, hreason]
    cases partCalls (partsOf chunks) <;> rfl
  have hused : s.lastUsage.getD .zero = reportedUsage (heeded chunks) := by
    rw [husage, reportedUsage]
    cases lastOf Chunk.usageMetadata (heeded chunks) <;> rfl
  refine ⟨?_, ?_, ?_⟩
  · rw [textOf_append, hrun.text]
    cases s.textStarted <;> exact String.append_empty
  · rw [callsOf_append, hrun.calls]
    cases s.textStarted <;> exact List.append_nil _
  · rw [finishesOf_append, hrun.noFinish, hfinish, hused]
    cases s.textStarted <;> rfl

end Ending

/-! ## Nothing is lost but what a skipped chunk reports -/

/-- The text and the calls of all chunks, and one FINISH with the last reason
and the last usage that any chunk reports. -/
structure KeepsReports (ids : Nat → String) (model : String) (chunks : List Chunk) : Prop where
  text : textOf (stream ids model chunks) = partTexts (partsOf chunks)
  calls : callsOf (stream ids model chunks) = numbered ids 0 (partCalls (partsOf chunks))
  finish : finishesOf (stream ids model chunks) = [.finishOf "" model "gemini"
    (endReason (partCalls (partsOf chunks)) (reportedReason chunks)) (reportedUsage chunks)]

theorem keepsReports_iff (ids : Nat → String) (model : String) (chunks : List Chunk) :
    KeepsReports ids model chunks ↔
      reportedReason (heeded chunks) = reportedReason chunks ∧
        reportedUsage (heeded chunks) = reportedUsage chunks := by
  obtain ⟨htext, hcalls, hfinish⟩ := stream_delivers ids model chunks
  refine ⟨fun h => ?_, fun ⟨hreason, husage⟩ => ⟨htext, hcalls, ?_⟩⟩
  · have hevent := (List.cons.inj (hfinish.symm.trans h.finish)).1
    have hreason := congrArg (fun e => e.finishReason.bind FinishReason.raw) hevent
    have husage := congrArg StreamEvent.usage hevent
    exact ⟨(endReason_raw ..).symm.trans (hreason.trans (endReason_raw ..)), Option.some.inj husage⟩
  · rw [hfinish, hreason, husage]

/-- A text, and then a chunk that ends the stream and has no parts. -/
def endsWithoutParts : List Chunk :=
  [{ candidates := some [some { parts := some [{ text := some "Hi" }] }] },
    { candidates := some [some { finishReason := some "FinishReason.STOP" }]
      usageMetadata := some { promptTokenCount := some 3, candidatesTokenCount := some 1 } }]

theorem last_report_lost : ¬KeepsReports (fun _ => "call") "gemini" endsWithoutParts := by
  intro h
  have hreason := congrArg (List.map StreamEvent.finishReason) h.finish
  exact absurd hreason (by decide)

/-! ## The stream keeps to the protocol

Between two parts the validator has the text open that the adapter has started,
and no call. -/

section Protocol

variable (ids : Nat → String) (s : StreamState)

/-- The validator between two parts. -/
def between : Validator := { openText := s.textStarted }

theorem textStep_check (text : Option String) :
    Transducer.check Validator.next (between s) (textStep s text).2 =
      .ok (between (textStep s text).1) := by
  rw [textStep, between]
  cases heard text with
  | none => rfl
  | some text =>
    cases s.textStarted with
    | false =>
      show Transducer.check Validator.next {} [.ofType .textStart, .textDeltaOf text] = _
      rw [Transducer.check, Validator.next_textStart rfl]
      show Transducer.check Validator.next { openText := true } [.textDeltaOf text] = _
      rw [Transducer.check, Validator.next_textDelta rfl]
      rfl
    | true =>
      show Transducer.check Validator.next { openText := true } [.textDeltaOf text] = _
      rw [Transducer.check, Validator.next_textDelta rfl]
      rfl

theorem callStep_check (call : Option FunctionCall) :
    Transducer.check Validator.next (between s) (callStep ids s call).2 =
      .ok (between (callStep ids s call).1) := by
  cases call with
  | none => rfl
  | some call =>
    show Transducer.check Validator.next (between s) [.toolCallStartOf _, .toolCallEndOf _] = _
    rw [Transducer.check, Validator.next_toolCallStart rfl]
    show Transducer.check Validator.next { between s with
      openTool := true, openToolId := some (ids s.made) } [.toolCallEndOf _] = _
    rw [Transducer.check, Validator.next_toolCallEnd rfl rfl]
    rfl

theorem partStep_check (part : Part) :
    Transducer.check Validator.next (between s) (partStep ids s part).2 =
      .ok (between (partStep ids s part).1) := by
  rw [partStep, Transducer.check_append_ok (textStep_check s part.text), callStep_check]

theorem chunkStep_check (chunk : Chunk) :
    Transducer.check Validator.next (between s) (chunkStep ids s chunk).2 =
      .ok (between (chunkStep ids s chunk).1) := by
  rw [chunkStep]
  cases chunk.candidate with
  | none => rfl
  | some candidate =>
    show Transducer.check Validator.next (between s)
      (candidateStep ids s chunk.usageMetadata candidate).2 =
        .ok (between (candidateStep ids s chunk.usageMetadata candidate).1)
    rw [candidateStep]
    cases candidate.parts.getD [] with
    | nil => rfl
    | cons part parts =>
      obtain ⟨v, hcheck, rfl⟩ := Transducer.check_emitted (R := fun s v => v = between s)
        (fun s v part hv => ⟨_, hv ▸ partStep_check ids s part, rfl⟩) rfl (part :: parts)
      exact hcheck

/-- Every stream of Gemini chunks passes the validator. -/
theorem stream_accepted (model : String) (chunks : List Chunk) :
    Validator.Accepts (stream ids model chunks) := by
  obtain ⟨v, hcheck, rfl⟩ := Transducer.check_emitted (R := fun s v => v = between s) (s := {})
    (t := Validator.start) (fun s v chunk hv => ⟨_, hv ▸ chunkStep_check ids s chunk, rfl⟩) rfl chunks
  rw [Validator.Accepts, Validator.accepted_iff, stream, Transducer.check_append_ok hcheck]
  generalize Transducer.final (chunkStep ids) {} chunks = s
  have hfinish : ∀ reason usage, Transducer.check Validator.next {}
      [.finishOf "" model "gemini" reason usage] = .ok { sawFinish := true } := by
    intro reason usage
    rw [Transducer.check, Validator.next_finish rfl rfl]
    rfl
  refine ⟨{ sawFinish := true }, ?_, rfl⟩
  rw [closing, between]
  cases s.textStarted with
  | false => exact hfinish _ _
  | true =>
    show Transducer.check Validator.next { openText := true } (.ofType .textEnd :: _) = _
    rw [Transducer.check, Validator.next_textEnd rfl]
    exact hfinish _ _

end Protocol

end Gemini
end Llm
end DotRunner
