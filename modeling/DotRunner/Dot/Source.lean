import DotRunner.Py.Value

/-!
# From the source to the body

What `parse_dot` does before it tokenizes: comments are stripped, what is no
single `digraph` is refused, and the name and the body are cut out.
-/

namespace DotRunner
namespace Dot

open Py

/-! ## Comments -/

/-- Where the comment scanner stands: behind a slash or a star that may be half a
delimiter, behind a backslash of a quoted text. -/
inductive ScanMode where
  | code
  | slash
  | quoted
  | escaped
  | line
  | block
  | star
deriving DecidableEq

/-- What is kept of a character of the code. -/
def codeMode (c : Char) : ScanMode := if c = '"' then .quoted else .code

/-- `_strip_comments`, from a place on. -/
def stripFrom : ScanMode → List Char → List Char
  | .slash, [] => ['/']
  | _, [] => []
  | .code, c :: r => if c = '/' then stripFrom .slash r else c :: stripFrom (codeMode c) r
  | .slash, c :: r =>
    if c = '/' then stripFrom .line r
    else if c = '*' then stripFrom .block r
    else '/' :: c :: stripFrom (codeMode c) r
  | .quoted, c :: r =>
    c :: stripFrom (if c = '\\' then .escaped else if c = '"' then .code else .quoted) r
  | .escaped, c :: r => c :: stripFrom .quoted r
  | .line, c :: r => if c = '\n' then c :: stripFrom .code r else stripFrom .line r
  | .block, c :: r => stripFrom (if c = '*' then .star else .block) r
  | .star, c :: r => stripFrom (if c = '/' then .code else if c = '*' then .star else .block) r

def stripComments (source : List Char) : List Char := stripFrom .code source

/-! ## Undirected edges -/

/-- Where the scanner for `--` stands, with the character before. -/
inductive EdgeMode where
  | code (prev : Option Char)
  | dash (prev : Option Char)
  | quoted
  | escaped

/-- `_has_undirected_edges`, from a place on. -/
def undirectedFrom : EdgeMode → List Char → Bool
  | _, [] => false
  | .code prev, c :: r =>
    undirectedFrom (if c = '"' then .quoted else if c = '-' then .dash prev else .code (some c)) r
  | .dash prev, c :: r =>
    if c = '-' then if prev = some '<' then undirectedFrom (.code (some c)) r else true
    else undirectedFrom (if c = '"' then .quoted else .code (some c)) r
  | .quoted, c :: r =>
    undirectedFrom (if c = '\\' then .escaped else if c = '"' then .code (some c) else .quoted) r
  | .escaped, _ :: r => undirectedFrom .quoted r

def hasUndirectedEdges (source : List Char) : Bool := undirectedFrom (.code none) source

/-! ## The header -/

section Header

variable [Runtime]

/-- Does `l` start with `pat`, in any case, and then white space? -/
def startsWithWord (pat : String) (l : List Char) : Bool :=
  let n := pat.toList.length
  n ≤ l.length && (l.take n).map Runtime.foldChar == pat.toList &&
    ((l.drop n).head?.any Text.isSpace)

/-- How often the word `digraph` occurs, in any case. -/
def countDigraphs (l : List Char) : Nat :=
  (Text.runs Runtime.isWord l).countP fun r => r.map Runtime.foldChar == "digraph".toList

/-- `\{(.*)\}\s*$`: the body runs to the last brace, which nothing but white space
follows. -/
def bracedBody : List Char → Option (List Char)
  | '\x7b' :: r => match (r.reverse.dropWhile Text.isSpace) with
    | '\x7d' :: before => some before.reverse
    | _ => none
  | _ => none

/-- `\s+` -/
def skipSpaces? (l : List Char) : Option (List Char) :=
  if (l.head?.any Text.isSpace) then some (l.dropWhile Text.isSpace) else none

/-- `\s*digraph\s+(\w+)\s*\{(.*)\}\s*$` -/
def namedDigraph (l : List Char) : Option (List Char × List Char) := do
  let r ← Text.dropPrefix? "digraph".toList (l.dropWhile Text.isSpace)
  let r ← skipSpaces? r
  let name := r.takeWhile Runtime.isWord
  if name.isEmpty then none
  else
    let body ← bracedBody ((r.dropWhile Runtime.isWord).dropWhile Text.isSpace)
    some (name, body)

omit [Runtime] in
/-- `\s*digraph\s*\{(.*)\}\s*$` -/
def unnamedDigraph (l : List Char) : Option (List Char) := do
  let r ← Text.dropPrefix? "digraph".toList (l.dropWhile Text.isSpace)
  bracedBody (r.dropWhile Text.isSpace)

/-- The name and the body of the one digraph a source without comments holds. -/
def digraphOf (cleaned : List Char) : Except PyExc (String × List Char) :=
  let stripped := Text.strip cleaned
  if startsWithWord "strict" stripped then
    .error (.valueError "strict modifier is not supported; use plain 'digraph'")
  else if startsWithWord "graph" stripped && !startsWithWord "digraph" stripped then
    .error (.valueError "Only digraph is supported; undirected 'graph' is rejected")
  else if hasUndirectedEdges cleaned then
    .error (.valueError "Undirected edges (--) are not supported; use directed edges (->)")
  else if 1 < countDigraphs cleaned then
    .error (.valueError ("Multiple digraph definitions found (" ++ toString (countDigraphs cleaned) ++
      "); only a single digraph per source is supported"))
  else match namedDigraph cleaned with
    | some (name, body) => .ok (String.ofList name, body)
    | none => match unnamedDigraph cleaned with
      | some body => .ok ("unnamed", body)
      | none => .error (.valueError
          "Could not parse DOT source; expected 'digraph name \x7b ... \x7d'")

end Header

end Dot
end DotRunner
