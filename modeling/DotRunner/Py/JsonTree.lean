import DotRunner.Py.Dict
import Mathlib.Data.Rat.Defs

/-!
# JSON values

The values a JSON text stands for, and the paths into them.
-/

namespace Py

inductive JsonValue where
  | null
  | bool (b : Bool)
  | num (q : ℚ)
  | str (s : String)
  | array (xs : List JsonValue)
  | object (kvs : List (String × JsonValue))

namespace JsonValue

/-- The member of this name, of an object. -/
def get : JsonValue → String → Option JsonValue
  | object kvs, key => Dict.lookup key kvs
  | _, _ => none

/-- The step of a path into an array. -/
def index? (step : String) : Option Nat :=
  if step = "0" then some 0
  else if step.toList.all Char.isDigit && step.toList.head? != some '0' then step.toNat?
  else none

/-- What a path leads to, member by member and item by item. -/
def follow : JsonValue → List String → Option JsonValue
  | v, [] => some v
  | object kvs, step :: path => (Dict.lookup step kvs).bind (follow · path)
  | array xs, step :: path => ((index? step).bind (xs[·]?)).bind (follow · path)
  | _, _ :: _ => none

end JsonValue
end Py
