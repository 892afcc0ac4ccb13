import DotRunner.Py.Value

/-!
# An interpreter for ASCII texts

The tables of `Runtime` on ASCII, for evaluating the model.
-/

namespace Py
namespace Ascii

def isWord (c : Char) : Bool := c.isAlphanum || c == '_'

def decimal (c : Char) : Option Nat := if c.isDigit then some (c.toNat - 48) else none

/-- `repr` of a whole number as a float. -/
def reprFloat (q : ℚ) : String := toString q.num ++ ".0"

scoped instance runtime : Runtime where
  lower s := String.ofList (s.toList.map Char.toLower)
  upper s := String.ofList (s.toList.map Char.toUpper)
  isPrintable c := 32 ≤ c.toNat && c.toNat < 127
  isWord := isWord
  decimal := decimal
  floatOfStr s := if !s.toList.isEmpty && s.toList.all Char.isDigit then
    some (.finite (s.toList.foldl (fun n c => 10 * n + (c.toNat - 48)) 0 : Nat)) else none
  reprFloat := reprFloat
  fixed3 q := toString q.num ++ ".000"
  foldChar := Char.toLower
  -- the digest of the empty text
  sha256 _ := "e3b0c44298fc1c149afbf4c8996fb92427ae41e4649b934ca495991b7852b855"

/-- A reader that finds no document in any file. -/
scoped instance jsonReader : JsonReader where
  loads _ := .decodeError "Expecting value: line 1 column 1 (char 0)"

end Ascii
end Py
