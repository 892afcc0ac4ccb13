import DotRunner.NodeOutputs
import Mathlib.Data.List.Sort
import Mathlib.Data.List.Infix

/-!
# Substitution

The text of an attribute with the references to the context filled in.  Three phases
rewrite the text one after the other: the braced references, the bare ones key by
key, and the escapes.
-/

namespace DotRunner

open Py

section Substitution

variable [Runtime]

/-- `snapshot.get(key)` as text; a key without a value counts as absent. -/
def substituted (snapshot : Record) (key : List Char) : Option (List Char) :=
  match snapshot.get? (String.ofList key) with
  | none | some .none => none
  | some v => some v.toStr.toList

/-- The `${key}` tokens that have a value are replaced, at most `fuel` characters on. -/
def replaceBraced (snapshot : Record) : Nat → List Char → List Char
  | 0, l => l
  | fuel + 1, l => match l with
    | [] => []
    | '$' :: '{' :: rest => match takeBraced rest with
      | some (key, rest') =>
        (substituted snapshot key).getD ('$' :: '{' :: (key ++ ['}'])) ++
          replaceBraced snapshot fuel rest'
      | none => '$' :: replaceBraced snapshot fuel ('{' :: rest)
    | c :: rest => c :: replaceBraced snapshot fuel rest

omit [Runtime] in
/-- Whether the key is in `keys_with_dotted_sibling`. -/
def hasDottedSibling (snapshot : Record) (key : List Char) : Bool :=
  snapshot.keys.any fun other => other.toList != key && (key ++ ['.']).isPrefixOf other.toList

/-- A character that a bare token does not end in front of. -/
def boundaryChar (dotted : Bool) (c : Char) : Bool := c.isAlphanum || c == '_' || (dotted && c == '.')

/-- The negative lookahead behind a bare token. -/
def endsToken (dotted : Bool) (rest : List Char) : Bool := !rest.head?.any (boundaryChar dotted)

/-- The text begins with the pattern, and the token ends there. -/
def matchesAt (pattern : List Char) (dotted : Bool) (l : List Char) : Bool :=
  pattern.isPrefixOf l && endsToken dotted (l.drop pattern.length)

/-- Every match of the pattern replaced, once `skip` characters of the last one are
passed. -/
def replaceMatches (pattern value : List Char) (dotted : Bool) : Nat → List Char → List Char
  | _, [] => []
  | skip + 1, _ :: l => replaceMatches pattern value dotted skip l
  | 0, c :: l =>
    if matchesAt pattern dotted (c :: l) then
      value ++ replaceMatches pattern value dotted (pattern.length - 1) l
    else c :: replaceMatches pattern value dotted 0 l

/-- The `$key` tokens of one key replaced. -/
def replaceKey (snapshot : Record) (text : List Char) (key : String) : List Char :=
  match substituted snapshot key.toList with
  | none => text
  | some value =>
    let pattern := '$' :: key.toList
    if pattern <:+: text then
      replaceMatches pattern value (hasDottedSibling snapshot key.toList) 0 text
    else text

omit [Runtime] in
/-- `sorted(snapshot.keys(), key=len, reverse=True)`: equally long keys keep their order. -/
def sortedKeys (snapshot : Record) : List String :=
  snapshot.keys.insertionSort fun a b => b.length ≤ a.length

/-- `text.replace("$$", "$")` -/
def collapse : List Char → List Char
  | '$' :: '$' :: l => '$' :: collapse l
  | c :: l => c :: collapse l
  | [] => []

def substituteContext (text : String) (snapshot : Record) : String :=
  if text = "" ∨ '$' ∉ text.toList then text
  else
    let braced := replaceBraced snapshot (text.toList.length + 1) text.toList
    let bare := (sortedKeys snapshot).foldl (replaceKey snapshot) braced
    String.ofList (collapse bare)

end Substitution

end DotRunner
