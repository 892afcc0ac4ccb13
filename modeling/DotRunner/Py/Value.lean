import DotRunner.Py.Dict
import DotRunner.Py.Text
import Mathlib.Algebra.Order.Floor.Defs
import Mathlib.Data.Rat.Floor

/-!
# Values

What a context, an attribute table or a checkpoint document may hold.  `tuple`,
`keyed` and `other` are the values JSON has no form for: `json.dump(...,
default=str)` writes the first as an array, the second under the texts of its
keys and the third as its text.
-/

namespace Py

/-- What a key of a `dict` is; the encoder has no text for the last kind. -/
inductive KeyKind where
  | str
  | int
  | float
  | bool
  | none
  | refused (typeName : String)
deriving DecidableEq

def KeyKind.isRefused : KeyKind → Bool
  | refused _ => true
  | _ => false

inductive Value where
  | none
  | bool (b : Bool)
  | int (i : Int)
  | float (f : PyFloat)
  | str (s : String)
  | list (xs : List Value)
  | tuple (xs : List Value)
  | dict (kvs : List (String × Value))
  /-- a `dict` not all of whose keys are texts: what its keys are, one by one,
  and its entries under the texts JSON has for them -/
  | keyed (kinds : List KeyKind) (kvs : List (String × Value))
  | other (str repr : String)

/-- The exceptions the modelled code can meet. -/
inductive PyExc where
  | valueError (text : String)
  | typeError (text : String)
  | keyError (key : String)
  | attributeError (text : String)
  | overflowError (text : String)
  | runtimeError (text : String)
  | indexError (text : String)
  | checkpointFormatError (text : String)
  /-- any other exception a handler or a hook raises -/
  | raised (text : String)
deriving DecidableEq

theorem bind_ok_iff {ε α β : Type} {r : Except ε α} {f : α → Except ε β} {b : β} :
    (r >>= f) = .ok b ↔ ∃ a, r = .ok a ∧ f a = .ok b := by
  cases r with
  | error e => exact ⟨fun h => (nomatch h), fun ⟨a, ha, _⟩ => nomatch ha⟩
  | ok a =>
    constructor
    · intro h
      exact ⟨a, rfl, h⟩
    · rintro ⟨a', ha, hb⟩
      cases ha
      exact hb

/-- How `json.loads` on the text of a file ends. -/
inductive JsonRead where
  | value (v : Value)
  | decodeError (text : String)
  | raised (e : PyExc)

/-- The JSON parser, on the bytes of a UTF-8 file. -/
class JsonReader where
  loads : List UInt8 → JsonRead

namespace PyFloat

def truthy : PyFloat → Bool
  | finite q => q != 0
  | _ => true

def text [Runtime] : PyFloat → String
  | finite q => Runtime.reprFloat q
  | inf false => "inf"
  | inf true => "-inf"
  | nan _ => "nan"

/-- `int(f)` rounds toward zero. -/
def toInt : PyFloat → Except PyExc Int
  | finite q => .ok (if 0 ≤ q then ⌊q⌋ else ⌈q⌉)
  | inf _ => .error (.overflowError "cannot convert float infinity to integer")
  | nan _ => .error (.valueError "cannot convert float NaN to integer")

end PyFloat

namespace Value

/-- `bool(v)` -/
def truthy : Value → Bool
  | none => false
  | bool b => b
  | int i => i != 0
  | float f => f.truthy
  | str s => s != ""
  | list xs => !xs.isEmpty
  | tuple xs => !xs.isEmpty
  | dict kvs => !kvs.isEmpty
  | keyed _ kvs => !kvs.isEmpty
  | other _ _ => true

def hex (width n : Nat) : String :=
  let digits := (Nat.toDigits 16 n)
  String.ofList (List.replicate (width - digits.length) '0' ++ digits)

/-- One character inside a quoted `repr`. -/
def reprChar [Runtime] (quote c : Char) : String :=
  if c = quote || c = '\\' then String.ofList ['\\', c]
  else if c = '\n' then "\\n"
  else if c = '\r' then "\\r"
  else if c = '\t' then "\\t"
  else if Runtime.isPrintable c then String.ofList [c]
  else if c.toNat < 0x100 then "\\x" ++ hex 2 c.toNat
  else if c.toNat < 0x10000 then "\\u" ++ hex 4 c.toNat
  else "\\U" ++ hex 8 c.toNat

/-- `repr(s)`: double quotes only around a text with single but no double
quotes. -/
def reprStr [Runtime] (s : String) : String :=
  let quote := if s.toList.contains '\'' && !s.toList.contains '"' then '"' else '\''
  let q := String.ofList [quote]
  q ++ Text.join "" (s.toList.map (reprChar quote)) ++ q

/-- `repr` of a key, from its text in JSON. -/
def reprKey [Runtime] (kind : KeyKind) (name : String) : String :=
  match kind with
  | .str => reprStr name
  | .bool => if name = "true" then "True" else "False"
  | .none => "None"
  | _ => name

mutual

/-- `repr(v)` -/
def repr [Runtime] : Value → String
  | none => "None"
  | bool true => "True"
  | bool false => "False"
  | int i => toString i
  | float f => f.text
  | str s => reprStr s
  | list xs => "[" ++ Text.join ", " (reprAll xs) ++ "]"
  | tuple [x] => "(" ++ repr x ++ ",)"
  | tuple xs => "(" ++ Text.join ", " (reprAll xs) ++ ")"
  | dict kvs => "\x7b" ++ Text.join ", " (reprPairs kvs []) ++ "\x7d"
  | keyed kinds kvs => "\x7b" ++ Text.join ", " (reprPairs kvs kinds) ++ "\x7d"
  | other _ r => r

def reprAll [Runtime] : List Value → List String
  | [] => []
  | v :: vs => repr v :: reprAll vs

/-- A key whose kind is not given is a text. -/
def reprPairs [Runtime] : List (String × Value) → List KeyKind → List String
  | [], _ => []
  | (k, v) :: kvs, kinds => (reprKey (kinds.headD .str) k ++ ": " ++ repr v) :: reprPairs kvs kinds.tail

end

/-- `str(v)` -/
def toStr [Runtime] : Value → String
  | str s => s
  | other s _ => s
  | v => repr v

/-- `repr` of a list of strings. -/
def reprStrs [Runtime] (l : List String) : String := repr (list (l.map str))

/-- `type(v).__name__` -/
def typeName : Value → String
  | none => "NoneType"
  | bool _ => "bool"
  | int _ => "int"
  | float _ => "float"
  | str _ => "str"
  | list _ => "list"
  | tuple _ => "tuple"
  | dict _ => "dict"
  | keyed _ _ => "dict"
  | other _ _ => "object"

/-- A `dict` key must be hashable. -/
def hashable : Value → Bool
  | list _ => false
  | dict _ => false
  | keyed _ _ => false
  | _ => true

/-- `int(v)`; a text must spell a decimal integer. -/
def toInt [Runtime] : Value → Except PyExc Int
  | bool b => .ok (if b then 1 else 0)
  | int i => .ok i
  | float f => f.toInt
  | str s => match Text.parseInt s.toList with
    | some i => .ok i
    | Option.none => .error (.valueError ("invalid literal for int() with base 10: " ++ s))
  | v => .error (.typeError ("int() argument must be a string, a bytes-like object or a real number, not '"
      ++ v.typeName ++ "'"))

/-- `int(v or 0)` -/
def toIntOrZero [Runtime] (v : Value) : Except PyExc Int := if v.truthy then v.toInt else .ok 0

/-- `v or fallback` -/
def orElse (v fallback : Value) : Value := if v.truthy then v else fallback

/-- The number a value equals, where it is one. -/
def number : Value → Option ℚ
  | bool b => some (if b then 1 else 0)
  | int i => some i
  | float (.finite q) => some q
  | _ => Option.none

/-- The object the JSON parser has for `NaN`: not equal to itself, but the same
one inside two lists or objects. -/
def isSharedNan : Value → Bool
  | float (.nan shared) => shared
  | _ => false

/-- The entry under a key of this kind. -/
def lookupKeyed (kind : KeyKind) (name : String) : List KeyKind → List (String × Value) →
    Option Value
  | _, [] => Option.none
  | kinds, (k, v) :: kvs =>
    if kinds.headD .str = kind ∧ k = name then some v else lookupKeyed kind name kinds.tail kvs

mutual

/-- `v == w`; keys of different kinds are told apart. -/
def pyEq : Value → Value → Bool
  | none, none => true
  | str s, str t => s == t
  | float (.inf a), float (.inf b) => a == b
  | list xs, list ys => pyEqAll xs ys
  | tuple xs, tuple ys => pyEqAll xs ys
  | dict kvs, dict kvs' => kvs.length == kvs'.length && pyEqIn kvs kvs'
  | keyed kinds kvs, keyed kinds' kvs' =>
    kvs.length == kvs'.length && pyEqKeyed kvs kinds kinds' kvs'
  | other s r, other s' r' => s == s' && r == r'
  | v, w => match v.number, w.number with
    | some a, some b => a == b
    | _, _ => false
termination_by structural v => v

def pyEqAll : List Value → List Value → Bool
  | [], [] => true
  | v :: vs, w :: ws => (isSharedNan v && isSharedNan w || pyEq v w) && pyEqAll vs ws
  | _, _ => false
termination_by structural vs => vs

/-- Every entry on the left has an equal one on the right. -/
def pyEqIn : List (String × Value) → List (String × Value) → Bool
  | [], _ => true
  | (k, v) :: kvs, kvs' => (match Dict.lookup k kvs' with
      | some w => isSharedNan v && isSharedNan w || pyEq v w
      | Option.none => false) && pyEqIn kvs kvs'
termination_by structural kvs => kvs

def pyEqKeyed : List (String × Value) → List KeyKind → List KeyKind → List (String × Value) → Bool
  | [], _, _, _ => true
  | (k, v) :: kvs, kinds, kinds', kvs' =>
    (match lookupKeyed (kinds.headD .str) k kinds' kvs' with
      | some w => isSharedNan v && isSharedNan w || pyEq v w
      | Option.none => false) && pyEqKeyed kvs kinds.tail kinds' kvs'
termination_by structural kvs => kvs

end

mutual

/-- What `json.load` reads back from what `json.dump(v, default=str)` wrote. -/
def viaJson : Value → Value
  | list xs => list (viaJsonAll xs)
  | tuple xs => list (viaJsonAll xs)
  | dict kvs => dict (viaJsonPairs kvs)
  | keyed _ kvs => dict (Dict.ofList (viaJsonPairs kvs)).entries
  | other s _ => str s
  | float (.nan _) => float (.nan true)
  | v => v

def viaJsonAll : List Value → List Value
  | [] => []
  | v :: vs => viaJson v :: viaJsonAll vs

def viaJsonPairs : List (String × Value) → List (String × Value)
  | [] => []
  | (k, v) :: kvs => (k, viaJson v) :: viaJsonPairs kvs

end

theorem viaJsonAll_eq_map (l : List Value) : viaJsonAll l = l.map viaJson := by
  induction l with
  | nil => rfl
  | cons v vs ih => rw [viaJsonAll, ih, List.map_cons]

theorem viaJsonPairs_eq_map (l : List (String × Value)) :
    viaJsonPairs l = l.map fun p => (p.1, viaJson p.2) := by
  induction l with
  | nil => rfl
  | cons p kvs ih =>
    obtain ⟨k, v⟩ := p
    rw [viaJsonPairs, ih, List.map_cons]

mutual

/-- Does `json.dump(v)` need no `default`? -/
def serializable : Value → Bool
  | list xs => serializableAll xs
  | tuple xs => serializableAll xs
  | dict kvs => serializablePairs kvs
  | keyed kinds kvs => kinds.all (fun k => !k.isRefused) && serializablePairs kvs
  | other _ _ => false
  | _ => true

def serializableAll : List Value → Bool
  | [] => true
  | v :: vs => serializable v && serializableAll vs

def serializablePairs : List (String × Value) → Bool
  | [] => true
  | (_, v) :: kvs => serializable v && serializablePairs kvs

end

/-- A value JSON gives back unchanged. -/
def Stable (v : Value) : Prop := viaJson v = v

@[simp] theorem stable_none : Stable none := rfl
@[simp] theorem stable_bool (b : Bool) : Stable (bool b) := rfl
@[simp] theorem stable_int (i : Int) : Stable (int i) := rfl
@[simp] theorem stable_finite (q : ℚ) : Stable (float (.finite q)) := rfl
@[simp] theorem stable_str (s : String) : Stable (str s) := rfl

end Value

/-- `str(e)` -/
def excText [Runtime] : PyExc → String
  | .keyError key => Value.reprStr key
  | .valueError text => text
  | .typeError text => text
  | .attributeError text => text
  | .overflowError text => text
  | .runtimeError text => text
  | .indexError text => text
  | .checkpointFormatError text => text
  | .raised text => text

/-- `type(e).__name__` -/
def excTypeName : PyExc → String
  | .keyError _ => "KeyError"
  | .valueError _ => "ValueError"
  | .typeError _ => "TypeError"
  | .attributeError _ => "AttributeError"
  | .overflowError _ => "OverflowError"
  | .runtimeError _ => "RuntimeError"
  | .indexError _ => "IndexError"
  | .checkpointFormatError _ => "CheckpointFormatError"
  | .raised _ => "Exception"

/-- `dict[str, Any]` -/
abbrev Record := Dict String Value

namespace Record

/-- The JSON image of a record: the same keys, each value as it reads back. -/
def viaJson (r : Record) : Record := r.mapVals fun _ v => v.viaJson

def Stable (r : Record) : Prop := ∀ p ∈ r.entries, p.2.Stable

theorem viaJson_dict (r : Record) :
    (Value.dict r.entries).viaJson = Value.dict r.viaJson.entries := by
  rw [Value.viaJson, Value.viaJsonPairs_eq_map]
  rfl

end Record

end Py
