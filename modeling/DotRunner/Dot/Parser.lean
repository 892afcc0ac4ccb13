import DotRunner.Dot.Context
import DotRunner.Dot.Source

/-!
# The parser

`parse_dot`: the statements of the body are recognised by looking ahead in the
list of tokens, and take effect one by one.
-/

namespace DotRunner
namespace Dot

open Py

/-- `^[A-Za-z_][A-Za-z0-9_.]*$` -/
def isIdentifier (token : String) : Bool :=
  match chomp token.toList with
  | c :: r => isIdentStart c && r.all fun c => isIdentChar c || c == '.'
  | [] => false

/-- The tokens up to the delimiter that closes `depth` open ones, and the rest.
Where none does, all tokens. -/
def takeBlock (opening closing : String) : Nat → List String → List String × List String
  | _, [] => ([], [])
  | depth, t :: ts =>
    if t = closing ∧ depth = 1 then ([t], ts)
    else
      let depth := if t = opening then depth + 1 else if t = closing then depth - 1 else depth
      let more := takeBlock opening closing depth ts
      (t :: more.1, more.2)

/-- The nodes of a chain, from its first arrow on.  An arrow at the very end is
left alone. -/
def takeChain : List String → List String × List String
  | a :: t :: ts =>
    if a = "->" then
      let more := takeChain ts
      (t :: more.1, more.2)
    else ([], a :: t :: ts)
  | ts => ([], ts)

variable [Runtime]

/-- The assignments in the tokens of an attribute block, its last token
included. -/
def assignments : List String → List (String × Value)
  | [] => []
  | [_] => []
  | [_, _] => []
  | t :: u :: raw :: ts =>
    if t = "," ∨ t = ";" then assignments (u :: raw :: ts)
    else if u = "=" then
      (unquoteKey t, attrValue (unquoteKey t) raw) :: assignments ts
    else assignments (u :: raw :: ts)

/-- `_parse_attr_block`, from the opening bracket on, and what follows the block. -/
def attrBlock (tokens : List String) : Record × List String :=
  let block := takeBlock "[" "]" 1 tokens
  (Dict.ofList (assignments block.1), block.2)

/-- An attribute block, where there is one. -/
def optionalBlock : List String → Record × List String
  | [] => (Dict.empty, [])
  | t :: ts => if t = "[" then attrBlock ts else (Dict.empty, t :: ts)

omit [Runtime] in
/-- The tokens behind the name of a subgraph, where it has one. -/
def skipName : List String → List String
  | [] => []
  | t :: ts => if isIdentifier t then ts else t :: ts

def startsWith (t : String) (tokens : List String) : Bool := tokens.head? == some t

/-- `_parse_token_list`, which is also the loop of `_parse_body`: at most `fuel`
statements deep and wide, and a list has no more than tokens. -/
def parseTokenList : Nat → List String → ParseContext → Except PyExc ParseContext
  | 0, _, ctx => .ok ctx
  | _ + 1, [], ctx => .ok ctx
  | fuel + 1, t :: ts, ctx =>
    if t = ";" then parseTokenList fuel ts ctx
    else if t = "subgraph" then
      match skipName ts with
      | [] => .ok ctx
      | b :: body =>
        if b = "\x7b" then do
          let block := takeBlock "\x7b" "\x7d" 1 body
          let inner ← parseTokenList fuel block.1.dropLast ctx
          parseTokenList fuel block.2 (inner.closeSubgraph ctx.nodeDefaults ctx.nodes.keys)
        else parseTokenList fuel (b :: body) ctx
    else if t = "graph" ∧ startsWith "[" ts then do
      let block := attrBlock ts.tail
      let ctx ← ctx.setGraphAttrs block.1.entries
      parseTokenList fuel block.2 ctx
    else if t = "node" ∧ startsWith "[" ts then
      let block := attrBlock ts.tail
      parseTokenList fuel block.2 { ctx with nodeDefaults := ctx.nodeDefaults.update block.1 }
    else if t = "edge" ∧ startsWith "[" ts then
      let block := attrBlock ts.tail
      parseTokenList fuel block.2 { ctx with edgeDefaults := ctx.edgeDefaults.update block.1 }
    else if isIdentifier t then
      if startsWith "->" ts then do
        let chain := takeChain ts
        let block := optionalBlock chain.2
        let ctx ← ctx.addChain t block.1 chain.1
        parseTokenList fuel block.2 ctx
      else if startsWith "=" ts then
        match ts.tail with
        | [] => .error (.indexError "list index out of range")
        | raw :: rest => do
          let ctx ← ctx.setGraphAttr t (parseValue raw)
          parseTokenList fuel rest ctx
      else
        let block := optionalBlock ts
        parseTokenList fuel block.2 (ctx.applyNode t block.1)
    else parseTokenList fuel ts ctx

/-- `_parse_body` -/
def parseBody (body : List Char) (ctx : ParseContext) : Except PyExc ParseContext := do
  let tokens ← tokenize body
  parseTokenList (tokens.length + 1) tokens ctx

/-- What `parse_dot` returns. -/
structure ParsedGraph where
  name : String
  nodes : Dict String ParsedNode
  edges : List ParsedEdge
  goal : Value
  dotSource : String
  defaultMaxRetry : Value
  modelStylesheet : Value
  maxPipelineDuration : Value
  graphAttrs : Dict String String

def ParseContext.graph (ctx : ParseContext) (name source : String) : ParsedGraph where
  name := name
  nodes := ctx.nodes
  edges := ctx.edges
  goal := ctx.graphFields.getD "goal" (.str "")
  dotSource := source
  defaultMaxRetry := ctx.graphFields.getD "default_max_retry" (.int 0)
  modelStylesheet := ctx.graphFields.getD "model_stylesheet" (.str "")
  maxPipelineDuration := ctx.graphFields.getD "max_pipeline_duration" .none
  graphAttrs := ctx.graphAttrs

def parseDot (source : String) (params : Dict String String) : Except PyExc ParsedGraph := do
  let (name, body) ← digraphOf (stripComments source.toList)
  let ctx ← parseBody body { params := params }
  return ctx.graph name source

end Dot
end DotRunner
