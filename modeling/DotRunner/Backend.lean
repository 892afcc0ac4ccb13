import DotRunner.Behaviour
import DotRunner.Fidelity
import DotRunner.ParseOutcome
import DotRunner.Transcripts

/-!
# The backend

`AmplifierBackend.run`: a call works out what its node asks for, puts the instruction
together, hands it to a child session or to the worker of its own process, and keeps the
exchange for the nodes that come after on the same thread.  Branches that run side by side
have a backend and a context each.
-/

namespace DotRunner

open Py

/-- What a backend keeps from call to call. -/
structure Backend where
  transcripts : Transcripts := Dict.empty
  completed : Dict String Outcome := Dict.empty
  lastNodeId : Option String := none

namespace Backend

open Behaviour

structure Message where
  role : String
  content : String

/-- The exchanges of a thread as the messages of a conversation. -/
def messagesOf (turns : List Turn) : List Message :=
  turns.flatMap fun turn => [⟨"user", turn.instruction⟩, ⟨"assistant", turn.output⟩]

/-- `_get_parent_messages_for_thread` -/
def parentMessages (t : Transcripts) (threadKey : String) : List Message :=
  messagesOf (t.getD threadKey [])

/-! ## Workers -/

/-- What a child session is asked to do. -/
structure SpawnRequest where
  agentName : String
  instruction : String
  reasoningEffort : Value
  maxTurns : Option Int
  userInstructions : Value
  llmProvider : Value
  model : Option String
  environment : Option (Value × Value)
  parentMessages : List Message
  threadKey : Option String

/-- What a child session came to. -/
structure SpawnResult where
  output : String
  status : Option String
  sessionId : Option String
  workerSessionId : Option String

structure WorkerRequest where
  node : Node
  instruction : String
  context : PipelineContext
  replayedHistory : List Message

/-- What a run gives every call of its backends. -/
structure Config where
  profiles : Dict String String
  /-- whether `session.spawn` is there -/
  spawns : Bool
  /-- whether there is a provider in the process itself -/
  provider : Bool
  defaultWorker : Option String
  /-- `session.orchestrator.module` of an agent -/
  orchestratorModule : String → Option String

/-- One call, with what the code outside answers to it. -/
structure Call where
  node : Node
  prompt : String
  incomingEdge : Option IncomingEdge
  graph : Option Graph
  /-- the model that the node's `llm_model` resolves to -/
  model : Except PyExc (Option String)
  statusPath : Option String
  /-- the child session, or the text of the exception it ends with -/
  spawn : SpawnRequest → Except String SpawnResult
  direct : WorkerRequest → Except PyExc (String × Outcome)

/-- `_implicit_default_provider` -/
def implicitDefaultProvider (profiles : Dict String String) : String :=
  match profiles.keys with
  | [provider] => provider
  | _ => "anthropic"

def spawnWorker : String := "spawn"

/-- The reserved name and the registered ones, sorted. -/
def knownWorkers : List String := ["llm-direct", spawnWorker]

/-- The names some workers had before. -/
def renamedWorkerNames : Dict String String :=
  Dict.ofList [("direct", "llm-direct"), ("loop-agent", "coding-agent")]

def providerKeyEnv : Dict String String :=
  Dict.ofList [("anthropic", "ANTHROPIC_API_KEY"), ("openai", "OPENAI_API_KEY"),
    ("gemini", "GEMINI_API_KEY")]

/-- `build_status_file_contract` -/
def statusFileContract (statusPath : String) : String :=
  "\n\n---\n## Status File Contract (spec Sec 4.5 / Appendix C)\n\n" ++
  "When you have finished this task, write your outcome to this EXACT\n" ++
  "absolute file path, exactly once:\n\n    " ++ statusPath ++ "\n\n" ++
  "Use your normal file-write tool (it is not a special tool call). The file\n" ++
  "must be a JSON object shaped like this:\n\n    \x7b\n" ++
  "      \"outcome\": \"success | fail | partial_success | retry\",\n" ++
  "      \"preferred_label\": \"optional -- which edge label to follow\",\n" ++
  "      \"suggested_next_ids\": [\"optional\", \"explicit next node ids\"],\n" ++
  "      \"context_updates\": \x7b\"optional\": \"key-value pairs to merge into pipeline context\"\x7d,\n" ++
  "      \"notes\": \"optional -- human-readable summary\"\n    \x7d\n\n" ++
  "Only \"outcome\" is required; every other field is optional. This is the\n" ++
  "authoritative way to report your outcome -- write the file once, when you\n" ++
  "are truly finished, and let it reflect your real verdict.\n"

/-! ## The outcome of a child session -/

/-- `_session_id_from_spawn_result` -/
def sessionIdFromSpawnResult (r : SpawnResult) : Option String :=
  if truthyStr r.workerSessionId then r.workerSessionId
  else if truthyStr r.sessionId then r.sessionId
  else none

def withSession (o : Outcome) (sessionId : Option String) : Outcome :=
  if truthyStr sessionId then { o with sessionId := sessionId } else o

/-- `_outcome_from_spawn_result` -/
def outcomeFromSpawnResult (r : SpawnResult) : Option Outcome :=
  match r.status.bind StageStatus.ofValue? with
  | some .success =>
    some { status := .success, notes := some "Child session completed with empty final message" }
  | some .partialSuccess =>
    some { status := .partialSuccess
           notes := some "Child session completed with empty final message" }
  | _ => none

def debrace (s : String) : String :=
  String.ofList (s.toList.map fun c => if c = '\x7b' then '(' else if c = '\x7d' then ')' else c)

/-- `_synthesize_outcome_marker` -/
def synthesizeOutcomeMarker (o : Outcome) : String :=
  "[" ++ (if o.isExplicit then "report_outcome" else "spawn-completion") ++ ": status=" ++
    o.status.value ++
    (if truthyStr o.preferredLabel then " preferred_label=" ++ debrace (o.preferredLabel.getD "")
      else "") ++
    (if truthyStr o.notes then " notes=\"" ++ debrace (o.notes.getD "") ++ "\"" else "") ++ "]"

/-- `not output.strip()` -/
def isBlankText (output : String) : Bool := (Text.strip output.toList).isEmpty

variable [Runtime]

/-- `repr` of a list of texts -/
def reprTexts (texts : List String) : String := (Value.list (texts.map .str)).repr

/-- `_renamed_hint` -/
def renamedHint (name : Value) : String :=
  match name with
  | .str old => match renamedWorkerNames.get? old with
    | some renamed => " (renamed: " ++ Value.reprStr old ++ " -> " ++ Value.reprStr renamed ++ ")"
    | none => ""
  | _ => ""

/-- `_resolve_worker_name` -/
def resolveWorkerName (cfg : Config) (node : Node) : Except PyExc String :=
  let nodeWorker := node.attr "worker"
  let unknown : PyExc := .valueError ("Node '" ++ node.id ++ "' declared worker=" ++
    nodeWorker.repr ++ ", which is not a known worker" ++ renamedHint nodeWorker ++
    ". Known workers: " ++ reprTexts knownWorkers ++ ".")
  if nodeWorker.truthy then
    match nodeWorker with
    | .str name => if knownWorkers.contains name then .ok name else .error unknown
    | _ =>
      if nodeWorker.hashable then .error unknown
      else .error (.typeError ("unhashable type: '" ++ nodeWorker.typeName ++ "'"))
  else .ok (cfg.defaultWorker.getD (if cfg.spawns then spawnWorker else "llm-direct"))

/-- A parsed outcome, with its fields as a preamble shows them. -/
def toOutcome (p : ParsedOutcome) : Outcome where
  status := p.status
  preferredLabel := truthyText p.preferredLabel
  suggestedNextIds := match p.suggestedNextIds with
    | .list ids => some ids
    | _ => none
  contextUpdates := match p.contextUpdates with
    | .dict kvs => some (Dict.ofList kvs)
    | _ => none
  notes := truthyText p.notes
  failureReason := truthyText p.failureReason
  isExplicit := p.isExplicit
  responseText := p.responseText

/-! ## A call -/

/-- What a call has worked out before it takes anything from the context. -/
structure Prepared where
  provider : Value
  model : Option String
  maxTurns : Option Int
  fidelity : String
  threadKey : Option String
  worker : String

/-- The mode of a call, with the cap that a resume puts on its first node. -/
def callFidelity (c : PipelineContext) (q : Call) : String :=
  let fidelity := match q.graph with
    | some g => resolveFidelityAlong q.node q.incomingEdge g
    | none => match q.node.attr "fidelity" with
      | .none => defaultFidelity
      | v => v.toStr
  match truthyText (c.get resumeFidelityCapKey) with
  | some cap => if fidelity = "full" then cap else fidelity
  | none => fidelity

def maxAgentTurns (node : Node) : Except PyExc (Option Int) :=
  match node.attr "max_agent_turns" with
  | .none => .ok none
  | v => v.toInt.map some

def prepare (cfg : Config) (b : Backend) (c : PipelineContext) (q : Call) :
    Except PyExc Prepared := do
  let model ← q.model
  let maxTurns ← maxAgentTurns q.node
  let fidelity := callFidelity c q
  let worker ← resolveWorkerName cfg q.node
  return {
    provider := (q.node.attr "llm_provider").orElse (.str (implicitDefaultProvider cfg.profiles))
    model := model
    maxTurns := maxTurns
    fidelity := fidelity
    threadKey := if fidelity = "full" then
      q.graph.map fun g => resolveThreadKey q.node q.incomingEdge g b.lastNodeId else none
    worker := worker }

def gateTextKey : String := "human.gate.text"

/-- The text that someone typed at the gate before the node. -/
def gateSection (c : PipelineContext) : String :=
  let gateText := c.get gateTextKey
  if gateText.truthy then
    "Human response at gate \"" ++ (c.values.getD "human.gate.label" (.str "")).toStr ++ "\":\n" ++
      gateText.toStr ++ "\n\n---\n\n"
  else ""

omit [Runtime] in
/-- The text at the gate is taken away, also where it is empty. -/
def consumeGate (c : PipelineContext) : PipelineContext :=
  match c.get gateTextKey with
  | .none => c
  | _ => c.set gateTextKey .none

/-- The prompt, behind the preamble of every mode but `full`. -/
def instructionBody (fidelity : String) (c : PipelineContext) (completed : Dict String Outcome)
    (prompt : String) : String :=
  if fidelity = "full" then prompt
  else
    let preamble := buildPreamble fidelity c completed
    if preamble = "" then prompt else preamble ++ "\n\n---\n\n" ++ prompt

/-- What came of a call that had its instruction. -/
structure Exchange where
  /-- the history that the worker was given, where one was asked -/
  shown : Option (List Message)
  /-- the text that the worker gave back -/
  answer : String
  outcome : Except PyExc Outcome
  recorded : Option (String × Turn)
  /-- whether the outcome is kept for the preambles to come -/
  completes : Bool

omit [Runtime] in
/-- A call that ends before any worker is asked. -/
def Exchange.unasked (outcome : Except PyExc Outcome) : Exchange :=
  { shown := none, answer := "", outcome := outcome, recorded := none, completes := false }

/-- The exchange as a thread keeps it. -/
def recordOn (threadKey : Option String) (nodeId instruction output : String) :
    Option (String × Turn) :=
  threadKey.map fun key => (key, ⟨nodeId, instruction, output⟩)

/-- `_run_with_spawn` -/
def runWithSpawn (cfg : Config) (b : Backend) (c : PipelineContext) (q : Call)
    (p : Prepared) (instruction profileName : String) : Exchange :=
  let orchestrator := cfg.orchestratorModule profileName
  if orchestrator = none ∨ orchestrator = some "loop-pipeline" then
    .unasked (.error (.valueError ("loop-pipeline recursion guard: agent '" ++ profileName ++
      "' has session.orchestrator.module=" ++ (optionText orchestrator).repr ++ ". " ++
      "The child would inherit or re-enter loop-pipeline, causing infinite recursion. " ++
      "Fix: add an inline session.orchestrator (non-pipeline, e.g. loop-agent) to the '" ++
      profileName ++ "' agent definition in your pipeline profile or bundle config.")))
  else
    let shown := (p.threadKey.map (parentMessages b.transcripts)).getD []
    let containerId := c.get "internal.env_container_id"
    let request : SpawnRequest :=
      { agentName := profileName
        instruction := instruction ++ ((q.statusPath.map statusFileContract).getD "")
        reasoningEffort := q.node.attr "reasoning_effort"
        maxTurns := p.maxTurns
        userInstructions := (q.node.attr "user_instructions").orElse
          ((c.get "user_instructions").orElse .none)
        llmProvider := p.provider
        model := if truthyStr p.model then p.model else none
        environment :=
          if containerId.truthy then some (containerId, c.get "internal.env_type") else none
        parentMessages := shown
        threadKey := p.threadKey }
    match q.spawn request with
    | .error reason =>
      { shown := some shown, answer := "", recorded := none, completes := true
        outcome := .ok { status := .fail, failureReason := some reason } }
    | .ok result =>
      let sessionId := sessionIdFromSpawnResult result
      if isBlankText result.output then
        match outcomeFromSpawnResult result with
        | some o =>
          { shown := some shown, answer := result.output, completes := true
            outcome := .ok (withSession o sessionId)
            recorded := recordOn p.threadKey q.node.id instruction
              (synthesizeOutcomeMarker (withSession o sessionId)) }
        | none =>
          { shown := some shown, answer := result.output, recorded := none, completes := true
            outcome := .ok
              { status := .fail
                notes := some "No output from child session"
                failureReason := some "Empty spawn output" } }
      else
        { shown := some shown, answer := result.output, completes := true
          outcome := .ok (withSession (toOutcome (parseOutcome (some q.node) result.output)) sessionId)
          recorded := recordOn p.threadKey q.node.id instruction result.output }

/-- `_run_with_tool_loop` -/
def runWithToolLoop (b : Backend) (c : PipelineContext) (q : Call) (p : Prepared)
    (instruction : String) : Exchange :=
  let shown := (p.threadKey.map (parentMessages b.transcripts)).getD []
  match q.direct ⟨q.node, instruction, c, shown⟩ with
  | .error e =>
    { shown := some shown, answer := "", outcome := .error e, recorded := none, completes := false }
  | .ok (output, o) =>
    { shown := some shown, answer := output, outcome := .ok o, completes := true
      recorded := recordOn p.threadKey q.node.id instruction
        (if isBlankText output then synthesizeOutcomeMarker o else output) }

def profileOf (cfg : Config) (provider : Value) : Option String :=
  match provider with
  | .str name => cfg.profiles.get? name
  | _ => none

def missingProfile (cfg : Config) (node : Node) (provider : Value) : PyExc :=
  let mounted := cfg.profiles.keys.insertionSort (· ≤ ·)
  let key := ((match provider with
    | .str name => providerKeyEnv.get? name
    | _ => none) : Option String).getD "<PROVIDER>_API_KEY"
  .valueError ("Node '" ++ node.id ++ "' resolved llm_provider=" ++ provider.repr ++
    " but no profile is mounted for that provider (mounted profiles: " ++
    (if mounted.isEmpty then "none" else reprTexts mounted) ++ "). Refusing to fall back " ++
    "to another provider's profile -- silent single-provider fallback defeats dual-family " ++
    "critique (issue #155, EXTENSIONS.md section 36). Fix: add '" ++ provider.toStr ++
    ": <agent-name>' to the orchestrator 'profiles' config and ensure its credential (" ++ key ++
    ") is set, or change the node's llm_provider.")

def spawnUnavailable (node : Node) : PyExc :=
  .valueError ("Node '" ++ node.id ++ "' selected worker='spawn' (explicitly or via run-level " ++
    "default) but the session.spawn capability is not available for this run.")

/-- The call goes to the worker it has chosen. -/
def exchange (cfg : Config) (b : Backend) (c : PipelineContext) (q : Call)
    (p : Prepared) (instruction : String) : Exchange :=
  if p.worker = spawnWorker then
    if cfg.spawns then
      match profileOf cfg p.provider with
      | some profileName => runWithSpawn cfg b c q p instruction profileName
      | none => .unasked (.error (missingProfile cfg q.node p.provider))
    else .unasked (.error (spawnUnavailable q.node))
  else if cfg.provider then runWithToolLoop b c q p instruction
  else .unasked (.ok
    { status := .fail
      failureReason := some
        "Neither session.spawn nor a direct provider is available — cannot execute node" })

omit [Runtime] in
/-- The outcome that the preambles to come will know of. -/
def Exchange.kept (x : Exchange) : Option Outcome :=
  if x.completes then x.outcome.toOption else none

omit [Runtime] in
/-- The exchange is written down. -/
def keep (b : Backend) (nodeId : String) (x : Exchange) : Backend where
  transcripts := (x.recorded.map fun turn => appendToTranscript b.transcripts turn.1 turn.2).getD
    b.transcripts
  completed := (x.kept.map (b.completed.set nodeId ·)).getD b.completed
  lastNodeId := (x.kept.map fun _ => nodeId).or b.lastNodeId

/-- A call that had its instruction, as it is seen from outside. -/
structure Visit where
  node : Node
  prompt : String
  fidelity : String
  threadKey : Option String
  /-- the context as the call found it -/
  context : PipelineContext
  instruction : String
  exchange : Exchange

/-- What a call leaves behind, with what was seen of it where it came to an instruction. -/
structure Ran where
  backend : Backend
  context : PipelineContext
  visit : Option Visit
  outcome : Except PyExc Outcome

/-- `run` -/
def run (cfg : Config) (b : Backend) (c : PipelineContext) (q : Call) : Ran :=
  match prepare cfg b c q with
  | .error e => ⟨b, c, none, .error e⟩
  | .ok p =>
    let instruction := gateSection c ++ instructionBody p.fidelity c b.completed q.prompt
    let x := exchange cfg b (consumeGate c) q p instruction
    ⟨b.keep q.node.id x, consumeGate c,
      some ⟨q.node, q.prompt, p.fidelity, p.threadKey, c, instruction, x⟩, x.outcome⟩

/-! ## Branches side by side -/

/-- What happens to the backend and the context of a branch. -/
inductive Observation where
  | wrote (key : String) (v : Value)
  | visited (v : Visit)

/-- A branch of a run. -/
structure Branch where
  /-- the context that it set out with -/
  born : PipelineContext
  backend : Backend
  context : PipelineContext
  journal : List Observation

namespace Branch

omit [Runtime] in
/-- A branch that nothing has happened to. -/
def starting (c : PipelineContext) : Branch := ⟨c, {}, c, []⟩

omit [Runtime] in
/-- Anything but a call puts something into the context. -/
def write (b : Branch) (key : String) (v : Value) : Branch :=
  { b with context := b.context.set key v, journal := b.journal ++ [.wrote key v] }

def call (cfg : Config) (b : Branch) (q : Call) : Branch :=
  let ran := run cfg b.backend b.context q
  { b with
    backend := ran.backend
    context := ran.context
    journal := b.journal ++ (ran.visit.map Observation.visited).toList }

omit [Runtime] in
/-- `clone`, of the backend and of the context -/
def fork (b : Branch) : Branch := starting b.context.clone

end Branch

inductive Event where
  | write (key : String) (v : Value)
  | call (q : Call)
  | fork

/-- The branches of a run, the later ones behind. -/
abbrev World := List Branch

/-- An event in one of the branches. -/
def act (cfg : Config) (w : World) (a : Nat × Event) : World :=
  match w[a.1]?, a.2 with
  | none, _ => w
  | some b, .write key v => w.set a.1 (b.write key v)
  | some b, .call q => w.set a.1 (b.call cfg q)
  | some b, .fork => w ++ [b.fork]

def worldAfter (cfg : Config) (c : PipelineContext) (actions : List (Nat × Event)) : World :=
  actions.foldl (act cfg) [.starting c]

/-! ## What a call is shown -/

section Journals

omit [Runtime]

def Observation.recorded : Observation → Option (String × Turn)
  | .wrote _ _ => none
  | .visited v => v.exchange.recorded

/-- The exchanges that the calls have left to the threads. -/
def exchanges (journal : List Observation) : List (String × Turn) :=
  journal.filterMap Observation.recorded

def Observation.completing (d : Dict String Outcome) : Observation → Dict String Outcome
  | .wrote _ _ => d
  | .visited v => (v.exchange.kept.map (d.set v.node.id ·)).getD d

/-- The last outcome of every node that has come to one. -/
def outcomes (journal : List Observation) : Dict String Outcome :=
  journal.foldl Observation.completing Dict.empty

def Observation.atGate (text : Value) : Observation → Value
  | .wrote key v => if key = gateTextKey then v else text
  | .visited _ => .none

/-- The text at the gate that no call has had. -/
def waiting (first : Value) (journal : List Observation) : Value :=
  journal.foldl Observation.atGate first

/-- The exchanges of the thread of a call that are still in their place. -/
def earlierTurns (journal : List Observation) (threadKey : Option String) : List Turn :=
  (threadKey.map ((transcriptsAfter (exchanges journal)).getD · [])).getD []

end Journals

/-- A marker stands for a text that did not come, and no verdict can be read out of it. -/
def IsMarker (s : String) : Prop :=
  (∃ o, s = synthesizeOutcomeMarker o) ∧ '\x7b' ∉ s.toList ∧ '\x7d' ∉ s.toList

/-- What a call leaves to its thread. -/
structure Visit.Records (v : Visit) (threadKey : String) (turn : Turn) : Prop where
  asked : v.exchange.shown ≠ none
  thread : v.threadKey = some threadKey
  node : turn.nodeId = v.node.id
  instruction : turn.instruction = v.instruction
  output : if isBlankText v.exchange.answer then IsMarker turn.output
    else turn.output = v.exchange.answer

/-- What a call owes to those before it on its branch, and they to it. -/
structure Visit.Sound (first : Value) (before : List Observation) (v : Visit) : Prop where
  gate : v.context.get gateTextKey = waiting first before
  instruction : v.instruction = gateSection v.context ++
    instructionBody v.fidelity v.context (outcomes before) v.prompt
  full : v.threadKey ≠ none → v.fidelity = "full"
  shown : ∀ messages, v.exchange.shown = some messages →
    messages = messagesOf (earlierTurns before v.threadKey)
  once : AtMostOnce (earlierTurns before v.threadKey)
  answered : ∀ turn ∈ earlierTurns before v.threadKey, isBlankText turn.output = false
  records : ∀ threadKey turn, v.exchange.recorded = some (threadKey, turn) →
    v.Records threadKey turn

def Observation.Sound (first : Value) (before : List Observation) : Observation → Prop
  | .wrote _ _ => True
  | .visited v => v.Sound first before

def Branch.Sound (b : Branch) : Prop :=
  EachAt (fun before o _ => o.Sound (b.born.get gateTextKey) before) b.journal

/-! ## Markers -/

section Markers

omit [Runtime]

def Unbraced (s : String) : Prop := '\x7b' ∉ s.toList ∧ '\x7d' ∉ s.toList

theorem Unbraced.append {s t : String} (hs : Unbraced s) (ht : Unbraced t) : Unbraced (s ++ t) := by
  rw [Unbraced, String.toList_append, List.mem_append, List.mem_append]
  exact ⟨not_or.mpr ⟨hs.1, ht.1⟩, not_or.mpr ⟨hs.2, ht.2⟩⟩

theorem unbraced_debrace (s : String) : Unbraced (debrace s) := by
  have hkept : ∀ brace, brace = '\x7b' ∨ brace = '\x7d' → brace ∉ (debrace s).toList := by
    intro brace hbrace hmem
    rw [debrace, String.toList_ofList, List.mem_map] at hmem
    obtain ⟨c, -, hc⟩ := hmem
    by_cases hopen : c = '\x7b'
    · rw [if_pos hopen] at hc
      rcases hbrace with rfl | rfl <;> exact absurd hc (by decide)
    · by_cases hclose : c = '\x7d'
      · rw [if_neg hopen, if_pos hclose] at hc
        rcases hbrace with rfl | rfl <;> exact absurd hc (by decide)
      · rw [if_neg hopen, if_neg hclose] at hc
        subst hc
        exact hbrace.elim hopen hclose
  exact ⟨hkept _ (.inl rfl), hkept _ (.inr rfl)⟩

theorem unbraced_status (status : StageStatus) : Unbraced status.value := by
  unfold Unbraced
  cases status <;> decide

theorem unbraced_marker (o : Outcome) : Unbraced (synthesizeOutcomeMarker o) := by
  have hempty : Unbraced "" := by unfold Unbraced; decide
  have hlead : Unbraced (if o.isExplicit then "report_outcome" else "spawn-completion") := by
    unfold Unbraced
    cases o.isExplicit <;> decide
  have hlabel : Unbraced (if truthyStr o.preferredLabel then
      " preferred_label=" ++ debrace (o.preferredLabel.getD "") else "") := by
    cases truthyStr o.preferredLabel with
    | false => exact hempty
    | true => exact Unbraced.append (by unfold Unbraced; decide) (unbraced_debrace _)
  have hnotes : Unbraced (if truthyStr o.notes then
      " notes=\"" ++ debrace (o.notes.getD "") ++ "\"" else "") := by
    cases truthyStr o.notes with
    | false => exact hempty
    | true =>
      refine Unbraced.append (Unbraced.append ?_ (unbraced_debrace _)) ?_ <;>
        unfold Unbraced <;> decide
  have hstatus := unbraced_status o.status
  have hopen : Unbraced "[" := by unfold Unbraced; decide
  have hword : Unbraced ": status=" := by unfold Unbraced; decide
  have hclose : Unbraced "]" := by unfold Unbraced; decide
  exact (((((hopen.append hlead).append hword).append hstatus).append hlabel).append hnotes).append
    hclose

theorem marker_not_blank (o : Outcome) : isBlankText (synthesizeOutcomeMarker o) = false := by
  obtain ⟨middle, hmiddle⟩ : ∃ middle, synthesizeOutcomeMarker o = "[" ++ middle ++ "]" := by
    refine ⟨(if o.isExplicit then "report_outcome" else "spawn-completion") ++ ": status=" ++
      o.status.value ++ (if truthyStr o.preferredLabel then
        " preferred_label=" ++ debrace (o.preferredLabel.getD "") else "") ++
      (if truthyStr o.notes then " notes=\"" ++ debrace (o.notes.getD "") ++ "\"" else ""), ?_⟩
    simp only [synthesizeOutcomeMarker, String.append_assoc]
  have hstarts : Text.StartsBare (synthesizeOutcomeMarker o).toList := by
    intro c hc
    simp only [hmiddle, String.toList_append, String.reduceToList, List.cons_append,
      List.head?_cons, Option.some.injEq] at hc
    subst hc
    decide
  have hends : Text.EndsBare (synthesizeOutcomeMarker o).toList := by
    intro c hc
    simp only [hmiddle, String.toList_append, String.reduceToList, List.getLast?_append,
      List.getLast?_singleton, Option.some_or, Option.some.injEq] at hc
    subst hc
    decide
  rw [isBlankText, Text.strip_of_bare hstarts hends, hmiddle]
  simp

theorem isMarker_marker (o : Outcome) : IsMarker (synthesizeOutcomeMarker o) :=
  ⟨⟨o, rfl⟩, unbraced_marker o⟩

end Markers

/-! ## One call -/

/-- What every exchange does: the worker sees its thread, and the thread gets what the worker
gave back. -/
structure Exchange.Faithful (b : Backend) (nodeId instruction : String) (key : Option String)
    (x : Exchange) : Prop where
  shown : ∀ messages, x.shown = some messages →
    messages = (key.map (parentMessages b.transcripts)).getD []
  records : ∀ threadKey turn, x.recorded = some (threadKey, turn) →
    x.shown ≠ none ∧ key = some threadKey ∧ turn.nodeId = nodeId ∧
      turn.instruction = instruction ∧
      if isBlankText x.answer then IsMarker turn.output else turn.output = x.answer

omit [Runtime] in
theorem faithful_unrecorded {b : Backend} {nodeId instruction : String} {key : Option String}
    {x : Exchange} (hrecorded : x.recorded = none)
    (hshown : ∀ messages, x.shown = some messages →
      messages = (key.map (parentMessages b.transcripts)).getD []) :
    x.Faithful b nodeId instruction key := by
  refine ⟨hshown, fun threadKey turn h => ?_⟩
  rw [hrecorded] at h
  cases h

omit [Runtime] in
theorem faithful_unasked {b : Backend} {nodeId instruction : String} {key : Option String}
    (outcome : Except PyExc Outcome) : (Exchange.unasked outcome).Faithful b nodeId instruction key :=
  faithful_unrecorded rfl fun messages h => by cases h

omit [Runtime] in
/-- The worker was asked, and the thread gets its text, or a marker where there is none. -/
theorem faithful_recorded {b : Backend} {nodeId instruction output : String} {key : Option String}
    {x : Exchange} (hshown : x.shown = some ((key.map (parentMessages b.transcripts)).getD []))
    (hrecorded : x.recorded = recordOn key nodeId instruction output)
    (houtput : if isBlankText x.answer then IsMarker output else output = x.answer) :
    x.Faithful b nodeId instruction key := by
  refine ⟨fun messages h => Option.some.inj (h.symm.trans hshown), fun threadKey turn h => ?_⟩
  rw [hrecorded, recordOn, Option.map_eq_some_iff] at h
  obtain ⟨found, hkey, hturn⟩ := h
  obtain ⟨rfl, rfl⟩ := Prod.mk.inj hturn
  refine ⟨?_, hkey, rfl, rfl, houtput⟩
  rw [hshown]
  exact Option.some_ne_none _

theorem faithful_runWithSpawn (cfg : Config) (b : Backend) (c : PipelineContext) (q : Call)
    (p : Prepared) (instruction profileName : String) :
    (runWithSpawn cfg b c q p instruction profileName).Faithful b q.node.id instruction
      p.threadKey := by
  unfold runWithSpawn
  dsimp only
  split
  · exact faithful_unasked _
  split
  · exact faithful_unrecorded rfl fun messages h => (Option.some.inj h).symm
  rename_i result _
  by_cases hblank : isBlankText result.output = true
  · rw [if_pos hblank]
    cases outcomeFromSpawnResult result with
    | none => exact faithful_unrecorded rfl fun messages h => (Option.some.inj h).symm
    | some o =>
      refine faithful_recorded rfl rfl ?_
      dsimp only
      rw [if_pos hblank]
      exact isMarker_marker _
  · rw [if_neg hblank]
    refine faithful_recorded rfl rfl ?_
    dsimp only
    rw [if_neg hblank]

omit [Runtime] in
theorem faithful_runWithToolLoop (b : Backend) (c : PipelineContext) (q : Call) (p : Prepared)
    (instruction : String) :
    (runWithToolLoop b c q p instruction).Faithful b q.node.id instruction p.threadKey := by
  unfold runWithToolLoop
  dsimp only
  split
  · exact faithful_unrecorded rfl fun messages h => (Option.some.inj h).symm
  rename_i output o _
  refine faithful_recorded rfl rfl ?_
  dsimp only
  by_cases hblank : isBlankText output = true
  · rw [if_pos hblank, if_pos hblank]
    exact isMarker_marker o
  · rw [if_neg hblank, if_neg hblank]

theorem faithful_exchange (cfg : Config) (b : Backend) (c : PipelineContext) (q : Call)
    (p : Prepared) (instruction : String) :
    (exchange cfg b c q p instruction).Faithful b q.node.id instruction p.threadKey := by
  unfold exchange
  split
  · split
    · cases profileOf cfg p.provider with
      | none => exact faithful_unasked _
      | some profileName => exact faithful_runWithSpawn cfg b c q p instruction profileName
    · exact faithful_unasked _
  · split
    · exact faithful_runWithToolLoop b c q p instruction
    · exact faithful_unasked _

/-- Only the mode `full` has a thread. -/
theorem fidelity_of_prepare {cfg : Config} {b : Backend} {c : PipelineContext} {q : Call}
    {p : Prepared} (h : prepare cfg b c q = .ok p) (hkey : p.threadKey ≠ none) :
    p.fidelity = "full" := by
  unfold prepare at h
  cases hmodel : q.model with
  | error e => rw [hmodel] at h; cases h
  | ok model =>
    cases hturns : maxAgentTurns q.node with
    | error e => rw [hmodel, hturns] at h; cases h
    | ok maxTurns =>
      cases hworker : resolveWorkerName cfg q.node with
      | error e => rw [hmodel, hturns, hworker] at h; cases h
      | ok worker =>
        rw [hmodel, hturns, hworker] at h
        obtain rfl := Except.ok.inj h
        by_contra hfull
        exact hkey (if_neg hfull)

/-! ## One branch -/

section Branches

omit [Runtime]

theorem exchanges_snoc (journal : List Observation) (o : Observation) :
    exchanges (journal ++ [o]) = exchanges journal ++ exchanges [o] := List.filterMap_append

theorem waiting_snoc (first : Value) (journal : List Observation) (o : Observation) :
    waiting first (journal ++ [o]) = waiting (waiting first journal) [o] := List.foldl_append

theorem get_consumeGate (c : PipelineContext) : (consumeGate c).get gateTextKey = .none := by
  unfold consumeGate
  split
  · assumption
  · rw [PipelineContext.get, PipelineContext.set, Dict.getD, Dict.get?_set_self]
    rfl

theorem get_set (c : PipelineContext) (key other : String) (v : Value) :
    (c.set key v).get other = if key = other then v else c.get other := by
  rw [PipelineContext.get, PipelineContext.set, Dict.getD, Dict.get?_set]
  by_cases h : key = other
  · rw [if_pos h, if_pos h]
    rfl
  · rw [if_neg h, if_neg h]
    rfl

end Branches

/-- The backend and the context of a branch are what its journal has made of them. -/
structure Branch.Kept (b : Branch) : Prop where
  transcripts : b.backend.transcripts = transcriptsAfter (exchanges b.journal)
  completed : b.backend.completed = outcomes b.journal
  gate : b.context.get gateTextKey = waiting (b.born.get gateTextKey) b.journal
  answered : ∀ recorded ∈ exchanges b.journal, isBlankText recorded.2.output = false
  sound : b.Sound

theorem kept_starting (c : PipelineContext) : (Branch.starting c).Kept where
  transcripts := rfl
  completed := rfl
  gate := rfl
  answered := fun recorded h => by cases h
  sound := eachAt_nil

theorem Branch.Sound.snoc {b b' : Branch} {o : Observation} (h : b.Sound) (hborn : b'.born = b.born)
    (hjournal : b'.journal = b.journal ++ [o])
    (ho : o.Sound (b.born.get gateTextKey) b.journal) : b'.Sound := by
  rw [Branch.Sound, hborn, hjournal]
  exact eachAt_snoc.mpr ⟨h, ho⟩

theorem kept_write {b : Branch} (h : b.Kept) (key : String) (v : Value) : (b.write key v).Kept where
  transcripts := by
    have hsame : exchanges (b.journal ++ [.wrote key v]) = exchanges b.journal := by
      rw [exchanges_snoc]
      exact List.append_nil _
    show b.backend.transcripts = transcriptsAfter (exchanges (b.journal ++ [.wrote key v]))
    rw [hsame]
    exact h.transcripts
  completed := by
    show b.backend.completed = outcomes (b.journal ++ [.wrote key v])
    rw [outcomes, List.foldl_append]
    exact h.completed
  gate := by
    show (b.context.set key v).get gateTextKey =
      waiting (b.born.get gateTextKey) (b.journal ++ [.wrote key v])
    rw [waiting_snoc, get_set, h.gate]
    rfl
  answered := by
    intro recorded hrecorded
    refine h.answered recorded ?_
    have hsplit : recorded ∈ exchanges (b.journal ++ [.wrote key v]) := hrecorded
    rw [exchanges_snoc] at hsplit
    exact (List.mem_append.mp hsplit).resolve_right List.not_mem_nil
  sound := h.sound.snoc (o := .wrote key v) rfl rfl trivial

omit [Runtime] in
/-- The turns that a call finds on its thread are those of the exchanges before it. -/
theorem mem_exchanges_of_mem_turns {calls : List (String × Turn)} {threadKey : String} {turn : Turn}
    (h : turn ∈ (transcriptsAfter calls).getD threadKey []) : (threadKey, turn) ∈ calls := by
  induction calls using List.reverseRecOn with
  | nil => cases h
  | append_singleton calls call ih =>
    rw [transcriptsAfter_snoc] at h
    by_cases hkey : threadKey = call.1
    · subst hkey
      rw [getD_appendToTranscript, List.mem_append, List.mem_singleton] at h
      rcases h with h | rfl
      · exact List.mem_append_left _ (ih ((truncateTo_isPrefix _ _).subset h))
      · exact List.mem_append_right _ List.mem_cons_self
    · rw [getD_appendToTranscript_of_ne hkey] at h
      exact List.mem_append_left _ (ih h)

omit [Runtime] in
theorem mem_earlierTurns {journal : List Observation} {threadKey : Option String} {turn : Turn}
    (h : turn ∈ earlierTurns journal threadKey) : ∃ key, (key, turn) ∈ exchanges journal := by
  cases threadKey with
  | none => cases h
  | some key => exact ⟨key, mem_exchanges_of_mem_turns h⟩

omit [Runtime] in
theorem atMostOnce_earlierTurns (journal : List Observation) (threadKey : Option String) :
    AtMostOnce (earlierTurns journal threadKey) := by
  cases threadKey with
  | none => exact List.nodup_nil
  | some key => exact atMostOnce_transcriptsAfter _ key

/-- A worker that was asked saw what the journal has of its thread. -/
theorem parentMessages_eq {b : Branch} (h : b.Kept) (threadKey : Option String) :
    (threadKey.map (parentMessages b.backend.transcripts)).getD [] =
      messagesOf (earlierTurns b.journal threadKey) := by
  cases threadKey with
  | none => rfl
  | some key =>
    show messagesOf (b.backend.transcripts.getD key []) = _
    rw [h.transcripts]
    rfl

section Calls

variable {cfg : Config} {b : Branch} {q : Call} {p : Prepared}

/-- The call as it is seen when it has come to an instruction. -/
def visitOf (cfg : Config) (b : Branch) (q : Call) (p : Prepared) : Visit :=
  let instruction := gateSection b.context ++
    instructionBody p.fidelity b.context b.backend.completed q.prompt
  ⟨q.node, q.prompt, p.fidelity, p.threadKey, b.context, instruction,
    exchange cfg b.backend (consumeGate b.context) q p instruction⟩

theorem call_of_prepare (hp : prepare cfg b.backend b.context q = .ok p) :
    b.call cfg q = ⟨b.born, b.backend.keep q.node.id (visitOf cfg b q p).exchange,
      consumeGate b.context, b.journal ++ [.visited (visitOf cfg b q p)]⟩ := by
  rw [Branch.call, run, hp]
  rfl

/-- A call that is turned away at once leaves everything as it was. -/
theorem call_of_error {e : PyExc} (hp : prepare cfg b.backend b.context q = .error e) :
    b.call cfg q = b := by
  rw [Branch.call, run, hp]
  show (⟨b.born, b.backend, b.context, b.journal ++ []⟩ : Branch) = b
  rw [List.append_nil]

theorem instruction_visitOf (cfg : Config) (b : Branch) (q : Call) (p : Prepared) :
    (visitOf cfg b q p).instruction = gateSection b.context ++
      instructionBody p.fidelity b.context b.backend.completed q.prompt := rfl

theorem faithful_visitOf (cfg : Config) (b : Branch) (q : Call) (p : Prepared) :
    (visitOf cfg b q p).exchange.Faithful b.backend q.node.id (visitOf cfg b q p).instruction
      p.threadKey := by
  unfold visitOf
  exact faithful_exchange _ _ _ _ _ _

theorem sound_visitOf (h : b.Kept) (hp : prepare cfg b.backend b.context q = .ok p) :
    (visitOf cfg b q p).Sound (b.born.get gateTextKey) b.journal := by
  have hfaithful := faithful_visitOf cfg b q p
  have hshown : ∀ messages, (visitOf cfg b q p).exchange.shown = some messages →
      messages = messagesOf (earlierTurns b.journal p.threadKey) := by
    intro messages hmessages
    rw [hfaithful.shown messages hmessages]
    exact parentMessages_eq h p.threadKey
  have hrecords : ∀ threadKey turn,
      (visitOf cfg b q p).exchange.recorded = some (threadKey, turn) →
        (visitOf cfg b q p).Records threadKey turn := by
    intro threadKey turn hrecorded
    obtain ⟨hasked, hthread, hnode, hinstruction, houtput⟩ :=
      hfaithful.records threadKey turn hrecorded
    exact ⟨hasked, hthread, hnode, hinstruction, houtput⟩
  refine ⟨h.gate, ?_, fidelity_of_prepare hp, hshown, atMostOnce_earlierTurns _ _, ?_, hrecords⟩
  · rw [instruction_visitOf, h.completed]
    rfl
  · intro turn hturn
    obtain ⟨key, hkey⟩ := mem_earlierTurns hturn
    exact h.answered (key, turn) hkey

omit [Runtime] in
theorem transcripts_keep (back : Backend) (nodeId : String) (x : Exchange) :
    (back.keep nodeId x).transcripts =
      x.recorded.toList.foldl (fun t call => appendToTranscript t call.1 call.2)
        back.transcripts := by
  unfold keep
  cases x.recorded <;> rfl

omit [Runtime] in
theorem exchanges_visited (v : Visit) : exchanges [.visited v] = v.exchange.recorded.toList := by
  cases hrecorded : v.exchange.recorded with
  | none => exact List.filterMap_cons_none hrecorded
  | some recorded => exact List.filterMap_cons_some hrecorded

theorem kept_call (h : b.Kept) (q : Call) : (b.call cfg q).Kept := by
  cases hp : prepare cfg b.backend b.context q with
  | error e =>
    rw [call_of_error hp]
    exact h
  | ok p =>
    rw [call_of_prepare hp]
    have hsound := sound_visitOf h hp
    refine ⟨?_, ?_, ?_, ?_, h.sound.snoc (o := .visited (visitOf cfg b q p)) rfl rfl hsound⟩
    · show (b.backend.keep q.node.id (visitOf cfg b q p).exchange).transcripts = _
      rw [transcripts_keep, exchanges_snoc, exchanges_visited, h.transcripts]
      exact List.foldl_append.symm
    · show ((visitOf cfg b q p).exchange.kept.map (b.backend.completed.set q.node.id ·)).getD
        b.backend.completed = outcomes (b.journal ++ [.visited (visitOf cfg b q p)])
      rw [outcomes, List.foldl_append, h.completed]
      rfl
    · show (consumeGate b.context).get gateTextKey = _
      rw [get_consumeGate, waiting_snoc]
      rfl
    · intro recorded hrecorded
      have hsplit : recorded ∈ exchanges (b.journal ++ [.visited (visitOf cfg b q p)]) := hrecorded
      rw [exchanges_snoc, exchanges_visited, List.mem_append, Option.mem_toList] at hsplit
      rcases hsplit with hold | hnew
      · exact h.answered recorded hold
      · have houtput := (hsound.records recorded.1 recorded.2 hnew).output
        by_cases hblank : isBlankText (visitOf cfg b q p).exchange.answer = true
        · rw [if_pos hblank] at houtput
          obtain ⟨o, ho⟩ := houtput.1
          rw [ho]
          exact marker_not_blank o
        · rw [if_neg hblank] at houtput
          rw [houtput]
          exact Bool.not_eq_true _ ▸ hblank

end Calls

/-! ## All branches -/

theorem kept_act {cfg : Config} {w : World} (h : ∀ b ∈ w, b.Kept) (a : Nat × Event) :
    ∀ b ∈ act cfg w a, b.Kept := by
  intro b hb
  obtain ⟨i, event⟩ := a
  cases hbranch : w[i]? with
  | none =>
    unfold act at hb
    rw [hbranch] at hb
    exact h b hb
  | some old =>
    have hold : old.Kept := h old (List.mem_of_getElem? hbranch)
    unfold act at hb
    rw [hbranch] at hb
    cases event with
    | write key v =>
      rcases List.mem_or_eq_of_mem_set hb with hb | rfl
      · exact h b hb
      · exact kept_write hold key v
    | call q =>
      rcases List.mem_or_eq_of_mem_set hb with hb | rfl
      · exact h b hb
      · exact kept_call hold q
    | fork =>
      rcases List.mem_append.mp hb with hb | hb
      · exact h b hb
      · obtain rfl := List.mem_singleton.mp hb
        exact kept_starting _

/-- In all branches every call is sound, in whatever order the branches take their steps. -/
def AllSound (w : World) : Prop := ∀ b ∈ w, b.Sound

theorem worldAfter_allSound (cfg : Config) (c : PipelineContext) (actions : List (Nat × Event)) :
    AllSound (worldAfter cfg c actions) := by
  have hkept : ∀ b ∈ worldAfter cfg c actions, b.Kept := by
    induction actions using List.reverseRecOn with
    | nil =>
      intro b hb
      obtain rfl := List.mem_singleton.mp hb
      exact kept_starting c
    | append_singleton actions a ih =>
      rw [worldAfter, List.foldl_append]
      exact kept_act ih a
  exact fun b hb => (hkept b hb).sound

end Backend

end DotRunner
