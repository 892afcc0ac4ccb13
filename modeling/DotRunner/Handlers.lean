import DotRunner.NodeOutputs

/-!
# The handler registry

Which handler runs a node, and which context a model call is given.
-/

namespace DotRunner

open Py

variable [Runtime]

/-- The handler types an engine has handlers for. -/
structure HandlerRegistry where
  handlers : List String

def standardHandlers : List String :=
  ["start", "exit", "codergen", "conditional", "tool", "wait.human", "stack.manager_loop",
    "parallel", "parallel.fan_in", "pipeline"]

/-- `sorted(SHAPE_TO_HANDLER.keys())` -/
def supportedShapes : List String :=
  ["Mdiamond", "Msquare", "box", "component", "diamond", "folder", "hexagon", "house",
    "parallelogram", "tripleoctagon"]

/-- A text that names a registered handler. -/
def HandlerRegistry.names (r : HandlerRegistry) : Value → Option String
  | .str s => if s != "" && r.handlers.contains s then some s else none
  | _ => none

/-- The handler type of a node: its `type`, its `node_type`, then its shape. -/
def HandlerRegistry.get (r : HandlerRegistry) (node : Node) : Except PyExc String :=
  match (r.names (.str node.type)).or (r.names (node.attr "node_type")) with
  | some handlerType => .ok handlerType
  | none => match shapeToHandler node.shape with
    | none => .error (.valueError ("Unknown node shape '" ++ node.shape ++ "' for node '" ++
        node.id ++ "'. Supported shapes: " ++ Value.reprStrs supportedShapes ++
        ". To use an LLM-driven node, use shape=box (codergen handler)."))
    | some handlerType =>
      if r.handlers.contains handlerType then .ok handlerType
      else .error (.valueError ("Handler '" ++ handlerType ++ "' for node '" ++ node.id ++
        "' is not registered. This is an engine misconfiguration — '" ++ handlerType ++
        "' appears in SHAPE_TO_HANDLER but was not added to HandlerRegistry._handlers."))

def validFidelityModes : List String :=
  ["full", "truncate", "compact", "summary:low", "summary:medium", "summary:high"]

def defaultFidelity : String := "compact"

/-- The reserved context key of the one-hop cap after a resume. -/
def resumeFidelityCapKey : String := "resume.fidelity_cap"

def validFidelity : Value → Option String
  | .str s => if validFidelityModes.contains s then some s else none
  | _ => none

/-- The mode a node resolves to when no edge comes into play. -/
def resolveFidelity (node : Node) (g : Graph) : String :=
  ((validFidelity (node.attr "fidelity")).or
    (validFidelity (g.attr "default_fidelity"))).getD defaultFidelity

end DotRunner
