import DotRunner.Outcome

namespace DotRunner

open Py

variable [Runtime]

/-- Interpret a DOT boolean attribute: a real `bool`, or the text `true` in any
case.  Anything else is false. -/
def resolveBoolAttr : Value → Bool
  | .bool b => b
  | .str s => stripLower s == "true"
  | _ => false

structure Node where
  id : String
  label : String := ""
  shape : String := "box"
  type : String := ""
  prompt : String := ""
  attrs : Record := Dict.empty
  maxRetries : Value := .none
  goalGate : Value := .none
  retryTarget : Value := .none
  fallbackRetryTarget : Value := .none
  fidelity : Value := .none
  timeout : Value := .none
  autoStatus : Value := .none
  allowPartial : Value := .none

namespace Node

/-- `node.attrs.get(key)`: a promoted key reads the field of the node. -/
def attr (n : Node) (key : String) : Value :=
  if key = "max_retries" then n.maxRetries
  else if key = "goal_gate" then n.goalGate
  else if key = "retry_target" then n.retryTarget
  else if key = "fallback_retry_target" then n.fallbackRetryTarget
  else if key = "fidelity" then n.fidelity
  else if key = "timeout" then n.timeout
  else if key = "auto_status" then n.autoStatus
  else if key = "allow_partial" then n.allowPartial
  else n.attrs.getD key .none

/-- `node.attrs.get(key, fallback)` -/
def attrD (n : Node) (key : String) (fallback : Value) : Value :=
  match n.attr key with
  | .none => fallback
  | v => v

def isStartNode (n : Node) : Bool :=
  n.shape == "Mdiamond" || n.type == "start" || Runtime.lower n.id == "start"

def isExitNode (n : Node) : Bool :=
  n.shape == "Msquare" || n.type == "exit" ||
    Runtime.lower n.id == "exit" || Runtime.lower n.id == "end"

/-- Where a branch of a parallel node ends. -/
def isSubgraphTerminal (n : Node) : Bool := n.isExitNode || n.shape == "tripleoctagon"

def hasGoalGate (n : Node) : Bool := resolveBoolAttr (n.attr "goal_gate")

end Node

structure Edge where
  fromNode : String
  toNode : String
  label : String := ""
  condition : String := ""
  weight : ℚ := 0
  fidelity : Value := .none
  loopRestart : Value := .none

namespace Edge

def restarts (e : Edge) : Bool := resolveBoolAttr e.loopRestart

/-- Python's `not e.condition`. -/
def unconditional (e : Edge) : Bool := e.condition == ""

end Edge

/-- A parsed pipeline graph.  The parser stores every node under its own id. -/
structure Graph where
  name : String := ""
  nodes : Dict String Node
  edges : List Edge
  goal : String := ""
  dotSource : String := ""
  sourceDir : String := ""
  defaultMaxRetry : Value := .int 0
  modelStylesheet : String := ""
  graphAttrs : Record := Dict.empty
  retryTarget : Value := .none
  fallbackRetryTarget : Value := .none
  defaultFidelity : Value := .none
  label : Value := .none
  maxPipelineDuration : Option Int := none
  keyed : ∀ p ∈ nodes.entries, p.2.id = p.1

namespace Graph

/-- The graph of some nodes and edges, each node stored under its id. -/
def ofNodes (nodes : List Node) (edges : List Edge) : Graph where
  nodes := Dict.ofList (nodes.map fun n => (n.id, n))
  edges := edges
  keyed := by
    refine Dict.forall_mem_setAll (fun _ hp => absurd hp List.not_mem_nil) fun p hp => ?_
    obtain ⟨n, -, rfl⟩ := List.mem_map.mp hp
    rfl

/-- `graph.graph_attrs.get(key)` -/
def attr (g : Graph) (key : String) : Value :=
  if key = "retry_target" then g.retryTarget
  else if key = "fallback_retry_target" then g.fallbackRetryTarget
  else if key = "default_fidelity" then g.defaultFidelity
  else if key = "label" then g.label
  else if key = "max_pipeline_duration" then
    match g.maxPipelineDuration with
    | some d => .int d
    | none => .none
  else g.graphAttrs.getD key .none

def outgoingEdges (g : Graph) (nodeId : String) : List Edge :=
  g.edges.filter fun e => e.fromNode == nodeId

/-- `graph.nodes[id]` -/
def node? (g : Graph) (id : String) : Option Node := g.nodes.get? id

/-- `v in graph.nodes`, then `graph.nodes[v]`: only a text can be a node id. -/
def nodeOfValue? (g : Graph) : Value → Option Node
  | .str s => g.node? s
  | _ => none

omit [Runtime] in
theorem id_of_node? (g : Graph) {id : String} {n : Node} (h : g.node? id = some n) :
    n.id = id :=
  g.keyed (id, n) ((Dict.get?_eq_some_iff g.nodes).mp h)

omit [Runtime] in
theorem mem_outgoingEdges (g : Graph) {nodeId : String} {e : Edge} :
    e ∈ g.outgoingEdges nodeId ↔ e ∈ g.edges ∧ e.fromNode = nodeId := by
  simp [outgoingEdges]

end Graph

end DotRunner
