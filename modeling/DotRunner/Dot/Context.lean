import DotRunner.Dot.Values

/-!
# The parse context

The graph as far as it has been read, and what a statement does to it.  An
attribute table is flat: the keys that `Node` and `Edge` promote to fields stay
in it.
-/

namespace DotRunner
namespace Dot

open Py

structure ParsedNode where
  id : String
  label : Value
  shape : Value := .str "box"
  type : Value := .str ""
  prompt : Value := .str ""
  attrs : Record := Dict.empty

/-- The value of an attribute, whether it is a field or not. -/
def ParsedNode.attr? (node : ParsedNode) (key : String) : Option Value :=
  if key = "label" then some node.label
  else if key = "shape" then some node.shape
  else if key = "type" then some node.type
  else if key = "prompt" then some node.prompt
  else node.attrs.get? key

structure ParsedEdge where
  fromNode : String
  toNode : String
  label : String := ""
  condition : String := ""
  weight : Value := .int 0
  attrs : Record := Dict.empty

structure ParseContext where
  nodes : Dict String ParsedNode := Dict.empty
  edges : List ParsedEdge := []
  graphAttrs : Dict String String := Dict.empty
  graphFields : Record := Dict.empty
  nodeDefaults : Record := Dict.empty
  edgeDefaults : Record := Dict.empty
  params : Dict String String := Dict.empty

/-- `Node(...)`: a node without a label is labelled by its id. -/
def newNode (id : String) (label shape type prompt : Value) (attrs : Record) : ParsedNode where
  id := id
  label := if label.truthy then label else .str id
  shape := shape
  type := type
  prompt := prompt
  attrs := attrs

/-- The keys of `_NODE_FIELD_MAP`. -/
def nodeFields : List String := ["label", "shape", "type", "prompt"]

/-- What is left of an attribute table when the fields are popped. -/
def withoutFields (attrs : Record) : Record :=
  (((attrs.erase "shape").erase "label").erase "type").erase "prompt"

def ParseContext.hasNode (ctx : ParseContext) (id : String) : Bool := ctx.nodes.contains id

/-- Create a node from the defaults alone, unless it is there. -/
def ParseContext.ensureNode (ctx : ParseContext) (id : String) : ParseContext :=
  if ctx.hasNode id then ctx
  else
    let attrs := ctx.nodeDefaults
    { ctx with nodes := ctx.nodes.set id (newNode id (attrs.getD "label" (.str ""))
        (attrs.getD "shape" (.str "box")) (attrs.getD "type" (.str ""))
        (attrs.getD "prompt" (.str "")) (withoutFields attrs)) }

variable [Runtime]

/-- `str(attrs.pop(key, fallback))` -/
def textOf (attrs : Record) (key fallback : String) : Value :=
  .str (attrs.getD key (.str fallback)).toStr

/-- A node that a statement mentions again. -/
def updateNode (node : ParsedNode) (defaults explicit : Record) : ParsedNode :=
  let merged := defaults.update explicit
  let shape := textOf merged "shape" "box"
  let label := textOf merged "label" ""
  let type := textOf merged "type" ""
  let prompt := textOf merged "prompt" ""
  let attrs := node.attrs.update (withoutFields merged)
  { node with
    shape := if (textOf merged "shape" "box").toStr ≠ "box" ∨ explicit.contains "shape" then shape
      else node.shape
    label := if label.truthy then label else node.label
    type := if type.truthy then type else node.type
    prompt := if prompt.truthy then prompt else node.prompt
    -- the defaults that are not set yet, once more
    attrs := attrs.setAll (defaults.entries.filter fun p =>
      !nodeFields.contains p.1 && !attrs.contains p.1) }

/-- `_apply_node` -/
def ParseContext.applyNode (ctx : ParseContext) (id : String) (explicit : Record) : ParseContext :=
  match ctx.nodes.get? id with
  | some node => { ctx with nodes := ctx.nodes.set id (updateNode node ctx.nodeDefaults explicit) }
  | none =>
    let merged := ctx.nodeDefaults.update explicit
    { ctx with nodes := ctx.nodes.set id (newNode id (textOf merged "label" "")
        (textOf merged "shape" "box") (textOf merged "type" "") (textOf merged "prompt" "")
        (withoutFields merged)) }

/-- The weight of an edge: a text must spell an integer. -/
def edgeWeight (attrs : Record) : Except PyExc Value :=
  match attrs.getD "weight" (.int 0) with
  | .str s => (Value.str s).toInt.map .int
  | v => .ok v

def newEdge (fromId toId : String) (attrs : Record) : Except PyExc ParsedEdge := do
  let weight ← edgeWeight attrs
  return {
    fromNode := fromId
    toNode := toId
    label := (attrs.getD "label" (.str "")).toStr
    condition := (attrs.getD "condition" (.str "")).toStr
    weight := weight
    attrs := ((attrs.erase "label").erase "condition").erase "weight" }

/-- One edge of a chain. -/
def ParseContext.addEdge (ctx : ParseContext) (fromId toId : String) (attrs : Record) :
    Except PyExc ParseContext := do
  let e ← newEdge fromId toId (ctx.edgeDefaults.update attrs)
  let ctx := (ctx.ensureNode fromId).ensureNode toId
  return { ctx with edges := ctx.edges ++ [e] }

/-- The edges of a chain `fromId -> ids`. -/
def ParseContext.addChain (ctx : ParseContext) (fromId : String) (attrs : Record) :
    List String → Except PyExc ParseContext
  | [] => .ok ctx
  | toId :: ids => do
    let ctx ← ctx.addEdge fromId toId attrs
    addChain ctx toId attrs ids

/-! ## Graph attributes -/

omit [Runtime] in
/-- `^\$([A-Za-z_][A-Za-z0-9_]*)$` -/
def paramName (text : List Char) : Option String :=
  match chomp text with
  | '$' :: c :: r => if isIdentStart c && r.all isIdentChar then some (String.ofList (c :: r)) else none
  | _ => none

omit [Runtime] in
def missingParam (attrName name : String) : PyExc :=
  .valueError ("Graph attribute '" ++ attrName ++ "' references parameter '$" ++ name ++
    "' but no value for '" ++ name ++ "' was supplied. Graph-level parameters are " ++
    "declarative-only -- there is no shell-style default for a missing one and no built-in " ++
    "fallback. Supply '" ++ name ++ "' by the mechanism for the path in use: `--param " ++ name ++
    "=<value>` on the CLI (e.g. --param " ++ name ++ "=19800s); `config[\"params\"][\"" ++ name ++
    "\"]` when the orchestrator is mounted; inherited from the parent graph's params when this " ++
    "graph is composed as a child (shape=folder / dot_file=, or a manager-loop child) -- a child " ++
    "parses with its parent's mapping, so supply it at the PARENT's entry point, not here.")

/-- A duration in milliseconds, or an integer. -/
def durationOf (v : Value) : Except PyExc Value :=
  match v with
  | .int _ | .bool _ => .ok v
  | v => match tryParseDuration v.toStr.toList with
    | some ms => .ok (.int ms)
    | none => (Value.str v.toStr).toInt.map .int

/-- `_resolve_graph_duration_attr` -/
def resolveGraphDuration (params : Dict String String) (attrName : String) (v : Value) :
    Except PyExc Value :=
  match v with
  | .str s => match paramName (Text.strip s.toList) with
    | some name => match params.get? name with
      | some value => durationOf (.str value)
      | none => .error (missingParam attrName name)
    | none => durationOf v
  | v => durationOf v

/-- `_set_graph_attr` -/
def ParseContext.setGraphAttr (ctx : ParseContext) (key : String) (v : Value) :
    Except PyExc ParseContext :=
  if key = "goal" then
    .ok { ctx with graphFields := ctx.graphFields.set "goal" (.str v.toStr) }
  else if key = "default_max_retry" ∨ key = "default_max_retries" then
    .ok { ctx with graphFields := ctx.graphFields.set "default_max_retry" v }
  else if key = "model_stylesheet" then
    .ok { ctx with graphFields := ctx.graphFields.set "model_stylesheet" (.str v.toStr) }
  else if key = "max_pipeline_duration" then do
    let d ← resolveGraphDuration ctx.params key v
    return { ctx with graphFields := ctx.graphFields.set "max_pipeline_duration" d }
  else .ok { ctx with graphAttrs := ctx.graphAttrs.set key v.toStr }

def ParseContext.setGraphAttrs (ctx : ParseContext) : List (String × Value) →
    Except PyExc ParseContext
  | [] => .ok ctx
  | (key, v) :: rest => do
    let ctx ← ctx.setGraphAttr key v
    setGraphAttrs ctx rest

/-! ## Subgraphs -/

/-- `_derive_class` -/
def deriveClass (label : String) : String :=
  let dashed := (Runtime.lower label).toList.map fun c => if c = ' ' then '-' else c
  let kept := dashed.filter fun c => c.isLower || c.isDigit || c == '-'
  String.ofList (((kept.dropWhile (· == '-')).reverse.dropWhile (· == '-')).reverse)

omit [Runtime] in
def withClass (name : String) (node : ParsedNode) : ParsedNode :=
  if (node.attrs.getD "class" .none).truthy then node
  else { node with attrs := node.attrs.set "class" (.str name) }

/-- The class the label of a subgraph gives its nodes, where it gives one. -/
def ParseContext.subgraphClass (ctx : ParseContext) : String :=
  let label := ctx.graphAttrs.getD "label" ""
  if label = "" then "" else deriveClass label

omit [Runtime] in
def classify (name : String) (nodesBefore : List String) (nodes : Dict String ParsedNode) :
    Dict String ParsedNode :=
  if name = "" then nodes
  else nodes.mapVals fun id node => if nodesBefore.contains id then node else withClass name node

/-- Leave a subgraph: its label becomes the class of the nodes that are new, and
the defaults of the parent come back. -/
def ParseContext.closeSubgraph (ctx : ParseContext) (savedDefaults : Record)
    (nodesBefore : List String) : ParseContext :=
  { ctx with
    graphAttrs := ctx.graphAttrs.erase "label"
    nodes := classify ctx.subgraphClass nodesBefore ctx.nodes
    nodeDefaults := savedDefaults }

end Dot
end DotRunner
