import DotRunner.FanIn
import DotRunner.HandlerKinds
import DotRunner.Retry
import DotRunner.Search
import DotRunner.Stylesheet
import Mathlib.Data.List.Sort

/-!
# The lint rules

The rules `validate` runs over a graph, in their order.
-/

namespace DotRunner

open Py

inductive Severity where
  | error
  | warning
  | info
deriving DecidableEq

structure Diagnostic where
  rule : String
  severity : Severity
  message : String
  nodeId : String := ""
  edge : Option (String × String) := none
  fix : String := ""

variable [Runtime]

namespace Graph

def startNodes (g : Graph) : List Node := g.nodes.values.filter Node.isStartNode

def exitNodes (g : Graph) : List Node := g.nodes.values.filter Node.isExitNode

omit [Runtime] in
def incomingEdges (g : Graph) (nodeId : String) : List Edge :=
  g.edges.filter fun e => e.toNode == nodeId

omit [Runtime] in
def hasNode (g : Graph) (id : String) : Bool := (g.node? id).isSome

end Graph

omit [Runtime] in
theorem mem_keys_iff_hasNode {g : Graph} {id : String} :
    id ∈ g.nodes.keys ↔ g.hasNode id = true := by
  rw [← Dict.contains_iff]
  rfl

def ids (nodes : List Node) : String := Text.join ", " (nodes.map Node.id)

/-! ## Structure -/

def checkStartNode (g : Graph) : List Diagnostic :=
  match g.startNodes with
  | [] => [{
      rule := "start_node"
      severity := .error
      message := "Pipeline must have exactly one start node " ++
        "(shape=Mdiamond, type=\"start\", or id=\"start\")"
      fix := "Add a start node (shape=Mdiamond, type=\"start\" attr, or id=\"start\")" }]
  | [_] => []
  | starts => [{
      rule := "start_node"
      severity := .error
      message := "Pipeline has " ++ toString starts.length ++ " start nodes (" ++ ids starts ++
        "); exactly one is required"
      fix := "Remove extra start nodes so only one is detected as a start node" }]

def checkTerminalNode (g : Graph) : List Diagnostic :=
  match g.exitNodes with
  | [] => [{
      rule := "terminal_node"
      severity := .error
      message := "Pipeline must have exactly one exit node " ++
        "(shape=Msquare, type=\"exit\", or id=\"exit\"/\"end\")"
      fix := "Add an exit node (shape=Msquare, type=\"exit\" attr, or id=\"exit\")" }]
  | [_] => []
  | exits => [{
      rule := "terminal_node"
      severity := .error
      message := "Pipeline has " ++ toString exits.length ++ " exit nodes (" ++ ids exits ++
        "); exactly one is required"
      fix := "Remove extra exit nodes so only one is detected as an exit node" }]

/-- An end of an edge that is no node. -/
def missingEnd (e : Edge) (side id : String) : Diagnostic where
  rule := "edge_target_exists"
  severity := .error
  message := "Edge " ++ side ++ " '" ++ id ++ "' does not reference an existing node"
  edge := some (e.fromNode, e.toNode)
  fix := "Add a node declaration for '" ++ id ++ "'"

omit [Runtime] in
def checkEdgeTargets (g : Graph) : List Diagnostic :=
  g.edges.flatMap fun e =>
    (if g.hasNode e.fromNode then [] else [missingEnd e "source" e.fromNode]) ++
      if g.hasNode e.toNode then [] else [missingEnd e "target" e.toNode]

def checkStartNoIncoming (g : Graph) : List Diagnostic :=
  g.startNodes.flatMap fun start => match g.incomingEdges start.id with
    | [] => []
    | incoming => [{
        rule := "start_no_incoming"
        severity := .error
        message := "Start node '" ++ start.id ++ "' has incoming edges from: " ++
          Text.join ", " (incoming.map Edge.fromNode)
        nodeId := start.id
        fix := "Remove edges targeting the start node" }]

def checkExitNoOutgoing (g : Graph) : List Diagnostic :=
  g.exitNodes.flatMap fun exitNode => match g.outgoingEdges exitNode.id with
    | [] => []
    | outgoing => [{
        rule := "exit_no_outgoing"
        severity := .error
        message := "Exit node '" ++ exitNode.id ++ "' has outgoing edges to: " ++
          Text.join ", " (outgoing.map Edge.toNode)
        nodeId := exitNode.id
        fix := "Remove edges originating from the exit node" }]

/-! ## Reachability -/

omit [Runtime] in
/-- The targets of the edges out of a node that are nodes. -/
def linked (g : Graph) (id : String) : List String := (g.successors id).filter g.hasNode

omit [Runtime] in
/-- The search of the rule.  It takes the start from its queue and, for every node, the
targets of its edges. -/
def bfsVisited (g : Graph) (start : String) : List String :=
  Search.collect (linked g) (1 + (g.nodes.keys.map fun id => (linked g id).length).sum) [start] []

omit [Runtime] in
/-- The node a target attribute names. -/
def namedTarget (g : Graph) (v : Value) : Option String :=
  match v with
  | .str s => if s != "" && g.hasNode s then some s else none
  | _ => none

omit [Runtime] in
/-- The nodes that some retry attribute names. -/
def namedTargets (g : Graph) : List String :=
  (g.nodes.values.flatMap fun n => [n.attr "retry_target", n.attr "fallback_retry_target"]).filterMap
      (namedTarget g) ++
    [g.attr "retry_target", g.attr "fallback_retry_target"].filterMap (namedTarget g)

/-- The nodes that the rule reports, in order. -/
def unreachable (g : Graph) : List String :=
  match g.startNodes with
  | [] => []
  | start :: _ =>
    (g.nodes.keys.filter fun id => id ∉ bfsVisited g start.id ++ namedTargets g).insertionSort
      fun a b => a ≤ b

def checkReachability (g : Graph) : List Diagnostic :=
  (unreachable g).map fun id => {
    rule := "reachability"
    severity := .error
    message := "Node '" ++ id ++ "' is not reachable from the start node"
    nodeId := id
    fix := "Add an edge path from start to '" ++ id ++ "'" }

/-! ## Goal gates and prompts -/

def checkGoalGateHasRetry (g : Graph) : List Diagnostic :=
  g.nodes.values.flatMap fun node =>
    let hasRetry := (node.attr "retry_target").truthy || (node.attr "fallback_retry_target").truthy ||
      (g.attr "retry_target").truthy || (g.outgoingEdges node.id).any Edge.restarts
    if node.hasGoalGate && !hasRetry then [{
      rule := "goal_gate_has_retry"
      severity := .warning
      message := "Node '" ++ node.id ++ "' has goal_gate=true but no retry_target"
      nodeId := node.id
      fix := "Add retry_target or fallback_retry_target attribute, " ++
        "or add an outgoing edge with loop_restart=true" }]
    else []

def checkPromptOnLlmNodes (g : Graph) : List Diagnostic :=
  g.nodes.values.flatMap fun node =>
    let isLlm := !node.isStartNode && !node.isExitNode &&
      resolveHandlerType node.type node.shape == "codergen"
    -- an empty label is the id
    let hasExplicitLabel := node.label != "" && node.label != node.id
    if isLlm && node.prompt == "" && !hasExplicitLabel then [{
      rule := "prompt_on_llm_nodes"
      severity := .warning
      message := "LLM node '" ++ node.id ++ "' has no prompt and no explicit label"
      nodeId := node.id
      fix := "Add a prompt attribute or a descriptive label" }]
    else []

/-! ## Conditions -/

def emptyKey (clause : List Char) : String := "empty key in clause '" ++ String.ofList clause ++ "'"

/-- `_validate_condition_structure`: the first clause whose key is empty. -/
def conditionFault (condition : String) : Option String :=
  (Text.split ['&', '&'] condition.toList).findSome? fun piece =>
    let clause := Text.strip piece
    match (Text.splitOnce ['!', '='] clause).or (Text.splitOnce ['='] clause) with
    | some (key, _) => if (Text.strip key).isEmpty then some (emptyKey clause) else none
    | none => none

/-- An evaluation never raises, so the structure is all there is to check. -/
def checkConditionSyntax (g : Graph) : List Diagnostic :=
  g.edges.flatMap fun e =>
    if stripText e.condition = "" then []
    else match conditionFault e.condition with
      | none => []
      | some fault => [{
          rule := "condition_syntax"
          severity := .error
          message := "Edge " ++ e.fromNode ++ " -> " ++ e.toNode ++
            ": invalid condition expression '" ++ e.condition ++ "': " ++ fault
          edge := some (e.fromNode, e.toNode)
          fix := "Fix the condition expression syntax (supported: key=value, key!=value, &&)" }]

def checkStylesheetSyntax (g : Graph) : List Diagnostic :=
  let css := stripText g.modelStylesheet
  if css ≠ "" ∧ (parseStylesheet g.modelStylesheet).isEmpty = true ∧ 5 < css.length then [{
    rule := "stylesheet_syntax"
    severity := .error
    message := "model_stylesheet contains content but no valid rules were parsed"
    fix := "Fix the stylesheet syntax. Format: selector \x7b property: value; \x7d" }]
  else []

/-! ## Types and shapes -/

/-- `sorted(_KNOWN_HANDLER_TYPES)` -/
def sortedHandlerTypes : List String :=
  ["codergen", "conditional", "exit", "parallel", "parallel.fan_in", "pipeline",
    "stack.manager_loop", "start", "tool", "wait.human"]

def checkTypeKnown (g : Graph) : List Diagnostic :=
  g.nodes.values.flatMap fun node =>
    if node.type = "" ∨ node.type ∈ knownHandlerTypes then []
    else [{
      rule := "type_known"
      severity := .warning
      message := "Node '" ++ node.id ++ "' has unknown type '" ++ node.type ++ "'. Known types: " ++
        Text.join ", " sortedHandlerTypes
      nodeId := node.id
      fix := "Use a recognized type or register a custom handler for '" ++ node.type ++ "'" }]

def unresolvableShape (node : Node) : Diagnostic where
  rule := "shape_resolvable"
  severity := .error
  message := "Node '" ++ node.id ++ "' has no explicit type and its shape '" ++ node.shape ++
    "' is not in SHAPE_TO_HANDLER; shape-based dispatch will raise ValueError at runtime. " ++
    "Known shapes: " ++ Text.join ", " supportedShapes ++ "."
  nodeId := node.id
  fix := "Correct the shape typo (e.g. 'parallelogram' not 'parallelgram') or add an explicit " ++
    "type= attribute. Known shapes: " ++ Text.join ", " supportedShapes ++ "."

def checkShapeResolvable (g : Graph) : List Diagnostic :=
  g.nodes.values.flatMap fun node =>
    if node.type ≠ "" ∨ node.isStartNode = true ∨ node.isExitNode = true ∨
      node.shape ∈ supportedShapes then []
    else [unresolvableShape node]

/-! ## Fidelity and retry targets -/

/-- `sorted(VALID_FIDELITY_MODES)` -/
def sortedFidelityModes : List String :=
  ["compact", "full", "summary:high", "summary:low", "summary:medium", "truncate"]

def invalidFidelity (v : Value) : Bool := v.truthy && (validFidelity v).isNone

def fidelityWarning (message : String) (nodeId : String) (edge : Option (String × String)) :
    Diagnostic where
  rule := "fidelity_valid"
  severity := .warning
  message := message ++ "Valid modes: " ++ Text.join ", " sortedFidelityModes
  nodeId := nodeId
  edge := edge
  fix := "Use one of: " ++ Text.join ", " sortedFidelityModes

def checkFidelityValid (g : Graph) : List Diagnostic :=
  (g.nodes.values.flatMap fun node =>
    let fidelity := node.attr "fidelity"
    if invalidFidelity fidelity then
      [fidelityWarning ("Node '" ++ node.id ++ "' has unrecognized fidelity mode '" ++
        fidelity.toStr ++ "'. ") node.id none]
    else []) ++
  (let fidelity := g.attr "default_fidelity"
    if invalidFidelity fidelity then
      [fidelityWarning ("Graph attribute default_fidelity has unrecognized value '" ++
        fidelity.toStr ++ "'. ") "" none]
    else []) ++
  g.edges.flatMap fun e =>
    if invalidFidelity e.fidelity then
      [fidelityWarning ("Edge " ++ e.fromNode ++ " -> " ++ e.toNode ++
        " has unrecognized fidelity mode '" ++ e.fidelity.toStr ++ "'. ") ""
        (some (e.fromNode, e.toNode))]
    else []

def retryTargetNames : List String := ["retry_target", "fallback_retry_target"]

omit [Runtime] in
def danglingTarget (g : Graph) (v : Value) : Bool := v.truthy && (g.nodeOfValue? v).isNone

def checkRetryTargetExists (g : Graph) : List Diagnostic :=
  (g.nodes.values.flatMap fun node => retryTargetNames.flatMap fun name =>
    let target := node.attr name
    if danglingTarget g target then [{
      rule := "retry_target_exists"
      severity := .warning
      message := "Node '" ++ node.id ++ "' has " ++ name ++ "='" ++ target.toStr ++
        "' but no node with ID '" ++ target.toStr ++ "' exists"
      nodeId := node.id
      fix := "Set " ++ name ++ " to a valid node ID or remove it" }]
    else []) ++
  retryTargetNames.flatMap fun name =>
    let target := g.attr name
    if danglingTarget g target then [{
      rule := "retry_target_exists"
      severity := .warning
      message := "Graph attribute " ++ name ++ "='" ++ target.toStr ++
        "' references nonexistent node '" ++ target.toStr ++ "'"
      fix := "Set graph " ++ name ++ " to a valid node ID or remove it" }]
    else []

/-! ## Tools -/

/-- Does the node declare a command? -/
def hasToolCommand (node : Node) : Bool :=
  match node.attr "tool_command" with
  | .none => false
  | command => stripText command.toStr != ""

def checkToolCommandHandler (g : Graph) : List Diagnostic :=
  g.nodes.values.flatMap fun node => match effectiveHandlerType node with
    | some handlerType =>
      if hasToolCommand node && handlerType != "tool" then [{
        rule := "tool_command_requires_tool_handler"
        severity := .error
        message := "Node '" ++ node.id ++ "' has tool_command but resolves to " ++
          "recognized built-in non-tool handler '" ++ handlerType ++ "'"
        nodeId := node.id
        fix := "Use shape=parallelogram or type=tool, or remove tool_command" }]
      else []
    | none => []

/-- `parse_tool_env_names` -/
def parseToolEnvNames (v : Value) : List (List Char) :=
  if v.truthy then ((Text.split [','] v.toStr.toList).map Text.strip).filter fun n => !n.isEmpty
  else []

/-- `_POSIX_ENV_NAME_RE` -/
def isPosixEnvName : List Char → Bool
  | c :: r => Dot.isIdentStart c && r.all Dot.isIdentChar
  | [] => false

def nonIdentifierToolEnvNames (v : Value) : List (List Char) :=
  (parseToolEnvNames v).filter fun n => !isPosixEnvName n

/-- `_identifier_suggestion` -/
def identifierSuggestion (name : List Char) : List Char :=
  let suggested := name.map fun c => if Dot.isIdentChar c then c else '_'
  match suggested with
  | c :: _ => if c.isDigit then '_' :: suggested else suggested
  | [] => ['_']

def unexportableName (node : Node) (offender : List Char) : Diagnostic :=
  let name := String.ofList offender
  { rule := "tool_env_posix_identifier"
    severity := .error
    message := "Node '" ++ node.id ++ "' declares tool_env name '" ++ name ++ "', which is not a " ++
      "POSIX environment-variable identifier ([A-Za-z_][A-Za-z0-9_]*). It would be exported as '" ++
      Runtime.upper name ++ "', which /bin/sh (dash) drops before exec: the command would run " ++
      "with the value absent and the node would still report SUCCESS"
    nodeId := node.id
    fix := "Rename the context key to a valid identifier (e.g. '" ++
      String.ofList (identifierSuggestion offender) ++ "' for '" ++ name ++ "'), or drop the " ++
      "name from tool_env. See specs/EXTENSIONS.md section 20" }

def checkToolEnvIdentifiers (g : Graph) : List Diagnostic :=
  g.nodes.values.flatMap fun node =>
    (nonIdentifierToolEnvNames (node.attr "tool_env")).map (unexportableName node)

/-! ## Retry budgets -/

/-- `_retry_value` -/
def retryValue (v : Value) : Option Nat := (parseNonNegativeRetryCount v).toOption

def checkRetryBudgets (g : Graph) : List Diagnostic :=
  (g.nodes.values.flatMap fun node => match node.maxRetries with
    | .none => []
    | v =>
      if (retryValue v).isSome then []
      else [{
        rule := "retry_budget_non_negative"
        severity := .error
        message := "Node '" ++ node.id ++ "' has invalid max_retries=" ++ v.repr ++
          "; expected a non-negative integer"
        nodeId := node.id
        fix := "Set max_retries to zero or a positive integer" }]) ++
  if (retryValue g.defaultMaxRetry).isSome then []
  else [{
    rule := "retry_budget_non_negative"
    severity := .error
    message := "Graph default_max_retry/default_max_retries must be zero or a positive integer, got " ++
      g.defaultMaxRetry.repr
    fix := "Set the graph retry default to zero or a positive integer" }]

/-! ## All of them -/

def builtinRules : List (Graph → List Diagnostic) :=
  [checkStartNode, checkTerminalNode, checkEdgeTargets, checkStartNoIncoming, checkExitNoOutgoing,
    checkReachability, checkGoalGateHasRetry, checkPromptOnLlmNodes, checkConditionSyntax,
    checkStylesheetSyntax, checkTypeKnown, checkShapeResolvable, checkFidelityValid,
    checkRetryTargetExists, checkToolCommandHandler, checkToolEnvIdentifiers, checkRetryBudgets]

def validate (g : Graph) (extraRules : List (Graph → List Diagnostic)) : List Diagnostic :=
  (builtinRules ++ extraRules).flatMap fun rule => rule g

/-- No diagnostic stops the run. -/
def Valid (g : Graph) (extraRules : List (Graph → List Diagnostic)) : Prop :=
  ∀ d ∈ validate g extraRules, d.severity ≠ .error

/-- A valid graph passes each rule. -/
theorem Valid.rule {g : Graph} {extraRules : List (Graph → List Diagnostic)}
    (h : Valid g extraRules) {rule : Graph → List Diagnostic} (hr : rule ∈ builtinRules)
    {d : Diagnostic} (hd : d ∈ rule g) : d.severity ≠ .error :=
  h d (List.mem_flatMap.mpr ⟨rule, List.mem_append_left _ hr, hd⟩)

end DotRunner
