import DotRunner.Graph
import Mathlib.Data.List.Dedup

/-!
# References and inferred outputs

Which context keys a node reads, and which ones its handler is contracted to
write.  Both are sets; a list here stands for the set of its members.
-/

namespace DotRunner

open Py

/-- After `${`: the key up to the closing brace, and what follows it. -/
def takeBraced (l : List Char) : Option (List Char × List Char) :=
  match l.span (· != '}') with
  | ([], _) => none
  | (key, '}' :: rest) => some (key, rest)
  | _ => none

/-- The keys of the `${key}` tokens, and the text with these tokens removed. -/
def scanBraced : Nat → List Char → List String × List Char
  | 0, l => ([], l)
  | fuel + 1, l => match l with
    | [] => ([], [])
    | '$' :: '{' :: rest => match takeBraced rest with
      | some (key, rest') =>
        let r := scanBraced fuel rest'
        (String.ofList key :: r.1, r.2)
      | none =>
        let r := scanBraced fuel ('{' :: rest)
        (r.1, '$' :: r.2)
    | c :: rest =>
      let r := scanBraced fuel rest
      (r.1, c :: r.2)

def isKeyStart (c : Char) : Bool := c.isAlpha || c == '_'

def isKeyChar (c : Char) : Bool := c.isAlphanum || c == '_' || c == '.'

/-- The keys of the `$key` tokens. -/
def scanBare : Nat → List Char → List String
  | 0, _ => []
  | fuel + 1, l => match l with
    | [] => []
    | '$' :: c :: rest =>
      if isKeyStart c then
        let r := rest.span isKeyChar
        String.ofList (c :: r.1) :: scanBare fuel r.2
      else scanBare fuel (c :: rest)
    | _ :: rest => scanBare fuel rest

/-- Every step of a scan consumes a character, so the length is enough fuel. -/
def extractRefs (text : String) : List String :=
  let l := text.toList
  let braced := scanBraced (l.length + 1) l
  (braced.1 ++ scanBare (braced.2.length + 1) braced.2).dedup

def substitutableAttrs : List String := ["tool_command", "prompt", "description", "tool_env"]

def shapeToHandler (shape : String) : Option String :=
  if shape = "Mdiamond" then some "start"
  else if shape = "Msquare" then some "exit"
  else if shape = "box" then some "codergen"
  else if shape = "diamond" then some "conditional"
  else if shape = "hexagon" then some "wait.human"
  else if shape = "component" then some "parallel"
  else if shape = "tripleoctagon" then some "parallel.fan_in"
  else if shape = "parallelogram" then some "tool"
  else if shape = "house" then some "stack.manager_loop"
  else if shape = "folder" then some "pipeline"
  else none

def resolveHandlerType (nodeType nodeShape : String) : String :=
  if nodeType = "" then (shapeToHandler nodeShape).getD "codergen" else nodeType

def handlerInferredOutputs (handlerType : String) : List String :=
  if handlerType = "tool" then ["tool.output", "tool.last_line"] else []

/-- The keys a node is contracted to produce. -/
def inferredOutputs (g : Graph) (nodeId : String) (node : Node) : List String :=
  let handlerType := resolveHandlerType node.type node.shape
  let branchKeys :=
    if handlerType = "parallel" then
      (List.range (g.outgoingEdges nodeId).length).map fun idx =>
        "branch." ++ toString idx ++ ".outcome"
    else []
  handlerInferredOutputs handlerType ++ branchKeys

def buildOutputTable (g : Graph) : Dict String (List String) :=
  g.nodes.mapVals (inferredOutputs g)

/-- `output_table.get(node_id, frozenset())` -/
def outputsOf (g : Graph) (nodeId : String) : List String :=
  (buildOutputTable g).getD nodeId []

variable [Runtime]

def attrText (node : Node) (attrName : String) : Value :=
  if attrName = "prompt" then
    if node.prompt = "" then node.attrD "prompt" (.str "") else .str node.prompt
  else node.attrD attrName (.str "")

def extractNodeRefs (node : Node) : List String :=
  (substitutableAttrs.flatMap fun attrName =>
    let val := attrText node attrName
    if val.truthy then extractRefs val.toStr else []).dedup

end DotRunner
