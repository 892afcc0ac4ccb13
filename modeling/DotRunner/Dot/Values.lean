import DotRunner.Py.Value
import DotRunner.Dot.Lexer

/-!
# Attribute values

What a token stands for where a value is expected, and how a key is read.
-/

namespace DotRunner
namespace Dot

open Py

/-- `s.replace(pat, sub)` for a pattern of two characters. -/
def replacePair (a b : Char) (sub : List Char) : List Char → List Char
  | [] => []
  | [c] => [c]
  | c :: d :: r => if c = a ∧ d = b then sub ++ replacePair a b sub r
    else c :: replacePair a b sub (d :: r)

/-- The text between the quotes of a token that has them on both ends. -/
def innerText (raw : List Char) : List Char := raw.tail.dropLast

def isQuoted (raw : List Char) : Bool := raw.head? == some '"' && raw.getLast? == some '"'

/-- The escapes of a quoted text, replaced one kind after the other. -/
def unescape (inner : List Char) : List Char :=
  replacePair '\\' 't' ['\t'] <| replacePair '\\' 'n' ['\n'] <|
    replacePair '\\' '"' ['"'] <| replacePair '\\' '\\' ['\\'] inner

/-- `$` also matches in front of a final line feed. -/
def chomp (l : List Char) : List Char := if l.getLast? = some '\n' then l.dropLast else l

def durationUnits : List (String × Int) :=
  [("ms", 1), ("s", 1000), ("m", 60000), ("h", 3600000), ("d", 86400000)]

section Values

variable [Runtime]

/-- An optional sign and the digits behind it. -/
def signed (l : List Char) : Bool × List Char :=
  match l with
  | '-' :: r => (true, r)
  | l => (false, l)

def signedVal (negative : Bool) (digits : List Char) : Int :=
  if negative then -(Text.digitsVal digits : Int) else Text.digitsVal digits

/-- `^(-?\d+)(ms|s|m|h|d)$` -/
def tryParseDuration (s : List Char) : Option Int :=
  let (negative, r) := signed s
  let digits := r.takeWhile Text.isDecimal
  let unit := r.dropWhile Text.isDecimal
  if digits.isEmpty then none
  else ((durationUnits.lookup (String.ofList (chomp unit))).map fun factor =>
    signedVal negative digits * factor)

/-- The integer of `^-?\d+$`, where the text is one. -/
def bareInteger (s : List Char) : Option Int :=
  let (negative, r) := signed (chomp s)
  if !r.isEmpty && r.all Text.isDecimal then some (signedVal negative r) else none

/-- `float(raw)` or `int(raw)`; where it fails the text stands for itself. -/
def parseNumber (raw : List Char) : Value :=
  if raw.contains '.' then
    match Runtime.floatOfStr (String.ofList raw) with
    | some f => .float f
    | none => .str (String.ofList raw)
  else match Text.parseInt raw with
    | some i => .int i
    | none => .str (String.ofList raw)

/-- `_parse_value` -/
def parseValue (raw : String) : Value :=
  let l := raw.toList
  if isQuoted l then
    let inner := unescape (innerText l)
    match tryParseDuration inner with
    | some ms => .int ms
    | none => .str (String.ofList inner)
  else if raw = "true" then .bool true
  else if raw = "false" then .bool false
  else match tryParseDuration l with
    | some ms => .int ms
    | none => parseNumber l

omit [Runtime] in
/-- `_unquote_key` -/
def unquoteKey (raw : String) : String :=
  let l := raw.toList
  if 2 ≤ l.length && isQuoted l then String.ofList (innerText l) else raw

/-- `_is_bare_integer`, with the integer. -/
def bareIntegerOf (raw : String) : Option Int :=
  let l := raw.toList
  bareInteger (if 2 ≤ l.length && isQuoted l then innerText l else l)

/-- The value of `key = raw` in an attribute block: a bare `timeout` is in
seconds. -/
def attrValue (key raw : String) : Value :=
  match if key = "timeout" then bareIntegerOf raw else none with
  | some n => .int (n * 1000)
  | none => parseValue raw

end Values

end Dot
end DotRunner
