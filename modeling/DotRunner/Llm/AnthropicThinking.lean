import DotRunner.Llm.AnthropicRequest
import DotRunner.Py.Ascii

/-!
# Extended thinking

The keyword arguments `AnthropicAdapter._translate_request` makes of a request: the
generation parameters, the thinking budget, what the caller's options put in their
place, the cache breakpoints, and the parameters that go out in `extra_body`.
-/

namespace DotRunner
namespace Llm
namespace Anthropic

open Py Gathering

structure Tool where
  name : String
  description : String
  parameters : Value

structure ToolChoice where
  mode : String
  toolName : Option String := none

/-- A request with its generation parameters. -/
structure GenerationRequest extends Request where
  model : String
  tools : List Tool := []
  toolChoice : Option ToolChoice := none
  /-- `response_format.json_schema` -/
  jsonSchema : Value := .none
  temperature : Value := .none
  topP : Value := .none
  maxTokens : Option Int := none
  stopSequences : List String := []
  reasoningEffort : Option String := none
  providerOptions : Record := Dict.empty

/-- What stops a translation. -/
inductive TranslationError where
  | request (e : RequestError)
  | raised (e : PyExc)

def structuredOutputToolName : String := "__structured_output__"

def thinkingBeta : String := "interleaved-thinking-2025-05-14"

def cacheBeta : String := "prompt-caching-2024-07-31"

def betaHeader : String := "anthropic-beta"

/-- A dictionary with text keys, as a value. -/
def object (entries : List (String × Value)) : Value := .dict entries

/-- Of a dictionary's entries those under texts. -/
def textEntries : List KeyKind → List (String × Value) → List (String × Value)
  | _, [] => []
  | kinds, (k, v) :: kvs =>
    if kinds.headD .str = .str then (k, v) :: textEntries kinds.tail kvs
    else textEntries kinds.tail kvs

/-- A dictionary, as far as its keys are texts: no other key is read. -/
def entriesOf : Value → Option Record
  | .dict kvs => some (Dict.ofList kvs)
  | .keyed kinds kvs => some (Dict.ofList (textEntries kinds kvs))
  | _ => none

@[simp] theorem entriesOf_dict (d : Record) : entriesOf (.dict d.entries) = some d := by
  show some (Dict.ofList d.entries) = some d
  rw [Dict.ofList_entries]

def ephemeral : Value := object [("type", .str "ephemeral")]

/-! ## The parameters of the request -/

def translateTools (tools : List Tool) : List Value :=
  tools.map fun tool => object [("name", .str tool.name),
    ("description", .str tool.description), ("input_schema", tool.parameters)]

def applyToolChoice (kwargs : Record) (choice : ToolChoice) : Record :=
  if choice.mode = "auto" then kwargs.set "tool_choice" (object [("type", .str "auto")])
  else if choice.mode = "none" then kwargs.erase "tools"
  else if choice.mode = "required" then kwargs.set "tool_choice" (object [("type", .str "any")])
  else if choice.mode = "named" then
    match choice.toolName with
    | some name =>
      if name = "" then kwargs
      else kwargs.set "tool_choice" (object [("type", .str "tool"), ("name", .str name)])
    | none => kwargs
  else kwargs

def extractionTool (schema : Value) : Value :=
  object [("name", .str structuredOutputToolName),
    ("description", .str ("Return a structured JSON object that strictly matches the " ++
      "required schema. Populate every required field.")),
    ("input_schema", schema)]

/-- `list(kwargs.get("tools", []))` -/
def toolsOf (kwargs : Record) : List Value :=
  match kwargs.get? "tools" with
  | some (.list tools) => tools
  | _ => []

/-- The extraction tool, and nothing but it to be called. -/
def applyResponseFormat (kwargs : Record) (request : GenerationRequest) : Record :=
  match request.responseFormat with
  | some format =>
    if format.type = "json_schema" ∧ request.jsonSchema.truthy then
      (kwargs.set "tools" (.list (toolsOf kwargs ++ [extractionTool request.jsonSchema]))).set
        "tool_choice" (object [("type", .str "tool"), ("name", .str structuredOutputToolName)])
    else kwargs
  | none => kwargs

/-- `request.max_tokens or 4096` -/
def maxTokensOf (request : GenerationRequest) : Int :=
  match request.maxTokens with
  | some n => if n = 0 then 4096 else n
  | none => 4096

/-- A parameter that is set where there is one. -/
def setUnless (skip : Prop) [Decidable skip] (kwargs : Record) (key : String) (v : Value) : Record :=
  if skip then kwargs else kwargs.set key v

def isNone : Value → Bool
  | .none => true
  | _ => false

section Translation

-- How the messages are written, which nothing here reads.
variable [Runtime] (messagesValue : List WireMessage → Value)

omit [Runtime] in
def generationParams (request : GenerationRequest) (payload : Payload) : Record :=
  let kwargs := Dict.ofList [("model", .str request.model),
    ("messages", messagesValue payload.messages), ("max_tokens", .int (maxTokensOf request))]
  let kwargs := setUnless (payload.system = []) kwargs "system"
    (.list (payload.system.map fun text => object [("type", .str "text"), ("text", .str text)]))
  let kwargs := setUnless (request.tools = []) kwargs "tools" (.list (translateTools request.tools))
  let kwargs := match request.toolChoice with
    | some choice => applyToolChoice kwargs choice
    | none => kwargs
  let kwargs := setUnless (isNone request.temperature) kwargs "temperature" request.temperature
  let kwargs := setUnless (isNone request.topP) kwargs "top_p" request.topP
  let kwargs := setUnless (request.stopSequences = []) kwargs "stop_sequences"
    (.list (request.stopSequences.map .str))
  applyResponseFormat kwargs request

/-! ## Thinking -/

def effortToBudget (effort : String) : Int :=
  let e := Runtime.lower effort
  if e = "low" then 1024 else if e = "medium" then 8000 else if e = "high" then 16000 else 8000

/-- The budget between 1024 and one below the limit. -/
def clampBudget (budget maxTokens : Int) : Int := max (min budget (maxTokens - 1)) 1024

/-- Is thinking turned on? -/
def asksForThinking (request : GenerationRequest) : Bool :=
  request.reasoningEffort.isSome && decide (1024 < maxTokensOf request)

def thinkingOf (budget : Int) : Value :=
  object [("type", .str "enabled"), ("budget_tokens", .int budget)]

/-- Nothing before has set a header. -/
def applyThinking (kwargs : Record) (request : GenerationRequest) : Record :=
  match request.reasoningEffort with
  | none => kwargs
  | some effort =>
    if 1024 < maxTokensOf request then
      ((kwargs.set "thinking" (thinkingOf (clampBudget (effortToBudget effort)
        (maxTokensOf request)))).set "temperature" (.float (.finite 1))).set
        "extra_headers" (object [(betaHeader, .str thinkingBeta)])
    else kwargs

/-! ## The caller's options -/

/-- `opts["extra_headers"]`, or `opts.items()` where that is not in it, of options
that are no dictionary. -/
def noItems (holdsKey : Bool) (typeName kind : String) : PyExc :=
  if holdsKey then .typeError kind
  else .attributeError ("'" ++ typeName ++ "' object has no attribute 'items'")

/-- `request.provider_options["anthropic"]`, where it is there. -/
def optionsOf (request : GenerationRequest) : Except PyExc Record :=
  let key := Value.str "extra_headers"
  match request.providerOptions.get? "anthropic" with
  | none => .ok Dict.empty
  | some v => match entriesOf v, v with
    | some options, _ => .ok options
    | none, .str s => .error (noItems (Text.occurs "extra_headers".toList s.toList) "str"
        "string indices must be integers, not 'str'")
    | none, .list xs => .error (noItems (xs.any fun x => key.pyEq x) "list"
        "list indices must be integers or slices, not str")
    | none, .tuple xs => .error (noItems (xs.any fun x => key.pyEq x) "tuple"
        "tuple indices must be integers or slices, not str")
    | none, v => .error (.typeError ("argument of type '" ++ v.typeName ++ "' is not iterable"))

omit [Runtime] in
def applyOptions (kwargs options : Record) : Record :=
  let kwargs := match options.get? "extra_headers" with
    | some headers => kwargs.set "extra_headers" headers
    | none => kwargs
  kwargs.setAll (options.entries.filter fun p => p.1 != "extra_headers" && p.1 != "auto_cache")

/-! ## Cache breakpoints -/

/-- `flag in existing` -/
def containsFlag (flag : String) : Value → Except PyExc Bool
  | .str s => .ok (Text.occurs flag.toList s.toList)
  | .list xs | .tuple xs => .ok (xs.any fun x => (Value.str flag).pyEq x)
  | v => match entriesOf v with
    | some entries => .ok (entries.contains flag)
    | none => .error (.typeError ("argument of type '" ++ v.typeName ++ "' is not iterable"))

/-- `blocks[-1]["cache_control"] = {"type": "ephemeral"}`, on a list with blocks. -/
def markLast (kwargs : Record) (key : String) : Except PyExc (Record × Bool) :=
  match kwargs.get? key with
  | some (.list blocks) => match blocks.getLast? with
    | none => .ok (kwargs, false)
    | some block => match entriesOf block with
      | some entries => .ok (kwargs.set key (.list (blocks.dropLast ++
          [.dict (entries.set "cache_control" ephemeral).entries])), true)
      | none =>
        .error (.typeError ("'" ++ block.typeName ++ "' object does not support item assignment"))
  | _ => .ok (kwargs, false)

/-- The headers a value stands for, of which entries are read. -/
def headersFrom : Option Value → Except PyExc Record
  | none => .ok Dict.empty
  | some v => match entriesOf v with
    | some headers => .ok headers
    | none => .error (.attributeError ("'" ++ v.typeName ++ "' object has no attribute 'get'"))

def headersOf (kwargs : Record) : Except PyExc Record := headersFrom (kwargs.get? "extra_headers")

/-- The headers with the flag for caching. -/
def flagHeaders (headers : Record) : Except PyExc Record := do
  let existing := headers.getD betaHeader (.str "")
  let there ← containsFlag cacheBeta existing
  return if there then headers
    else headers.set betaHeader (.str (if existing.truthy then existing.toStr ++ "," ++ cacheBeta
      else cacheBeta))

def addCacheBeta (kwargs : Record) : Except PyExc Record := do
  let headers ← headersOf kwargs
  let headers ← flagHeaders headers
  return kwargs.set "extra_headers" (.dict headers.entries)

/-- The arguments with their breakpoints, and whether there are any. -/
def markBreakpoints (kwargs : Record) : Except PyExc (Record × Bool) := do
  let (kwargs, onSystem) ← markLast kwargs "system"
  let (kwargs, onTools) ← markLast kwargs "tools"
  return (kwargs, onSystem || onTools)

def injectCacheControl (kwargs : Record) : Except PyExc Record := do
  let (kwargs, hasCacheable) ← markBreakpoints kwargs
  if hasCacheable then addCacheBeta kwargs else return kwargs

/-! ## Parameters of the wire -/

def wireOnlyParams : List String := ["temperature", "top_p", "top_k", "speed"]

/-- A key and its value, as `dict` takes them from a list of pairs. -/
def pairOf : Value → Option (String × Value)
  | .list [.str k, v] => some (k, v)
  | .tuple [.str k, v] => some (k, v)
  | _ => none

/-- `dict(v)` -/
def dictOf (v : Value) : Except PyExc Record :=
  match entriesOf v, v with
  | some entries, _ => .ok entries
  | none, .list xs | none, .tuple xs => match xs.mapM pairOf with
    | some pairs => .ok (Dict.ofList pairs)
    | none => .error (.typeError "cannot convert dictionary update sequence element to a sequence")
  | none, v => .error (.typeError ("'" ++ v.typeName ++ "' object is not iterable"))

/-- `dict(kwargs.get("extra_body") or {})` -/
def extraBodyOf (kwargs : Record) : Except PyExc Record :=
  match kwargs.get? "extra_body" with
  | none => .ok Dict.empty
  | some v => if v.truthy then dictOf v else .ok Dict.empty

/-- One parameter into the body, unless the body has it. -/
def relocate (kwargs : Record) (key : String) : Except PyExc Record :=
  match kwargs.get? key with
  | none => .ok kwargs
  | some value => do
    let body ← extraBodyOf kwargs
    let body := if body.contains key then body else body.set key value
    return (kwargs.erase key).set "extra_body" (.dict body.entries)

def relocateWireOnlyParams (kwargs : Record) : Except PyExc Record :=
  wireOnlyParams.foldlM relocate kwargs

/-! ## The translation -/

def liftRaised {α : Type} : Except PyExc α → Except TranslationError α
  | .ok a => .ok a
  | .error e => .error (.raised e)

/-- The arguments before the caller's options. -/
def ownKwargs (request : GenerationRequest) (payload : Payload) : Record :=
  applyThinking (generationParams messagesValue request payload) request

def autoCache (options : Record) : Bool := (options.getD "auto_cache" (.bool true)).truthy

def cacheControl (kwargs options : Record) : Except PyExc Record :=
  if autoCache options then injectCacheControl kwargs else .ok kwargs

/-- What follows the messages. -/
def finishKwargs (own options : Record) : Except PyExc Record := do
  let kwargs ← cacheControl (applyOptions own options) options
  relocateWireOnlyParams kwargs

/-- `_translate_request` -/
def translateKwargs (request : GenerationRequest) : Except TranslationError Record := do
  let payload ← match translateRequest request.toRequest with
    | .ok payload => .ok payload
    | .error e => .error (TranslationError.request e)
  let options ← liftRaised (optionsOf request)
  liftRaised (finishKwargs (ownKwargs messagesValue request payload) options)

end Translation

end Anthropic
end Llm
end DotRunner
