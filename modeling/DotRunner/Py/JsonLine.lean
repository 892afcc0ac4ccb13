import DotRunner.Py.Json

/-!
# JSON on one line

`json.dumps` without `indent` puts everything on one line.  It raises on the same
values.
-/

namespace Py
namespace Json

variable [Runtime]

mutual

def lineText : Value → List Char
  | .list xs => '[' :: lineItems [] xs ++ [']']
  | .tuple xs => '[' :: lineItems [] xs ++ [']']
  | .dict kvs => '\x7b' :: linePairs [] kvs ++ ['\x7d']
  | .keyed _ kvs => '\x7b' :: linePairs [] kvs ++ ['\x7d']
  | v => atomText v

def lineItems (before : List Char) : List Value → List Char
  | [] => []
  | v :: vs => before ++ lineText v ++ lineItems [',', ' '] vs

def linePairs (before : List Char) : List (String × Value) → List Char
  | [] => []
  | (k, v) :: kvs => before ++ (quote k ++ [':', ' ']) ++ lineText v ++ linePairs [',', ' '] kvs

end

/-- `json.dumps(v)` -/
def dumpsLine (v : Value) : Except PyExc String :=
  (dumps v).map fun _ => String.ofList (lineText v)

end Json
end Py
