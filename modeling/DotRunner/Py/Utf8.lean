import Mathlib.Data.List.Basic

/-!
# Decoding UTF-8

`bytes.decode("utf-8", errors)`.  A sequence that is cut short or broken off
counts as one error, and decoding goes on at the byte that broke it off.
-/

namespace Py

namespace Utf8

/-- What a first byte asks for: how many more, the range of the next one, and the
bits it gives itself. -/
structure Lead where
  more : Nat
  low : Nat
  high : Nat
  bits : Nat

def lead (b : Nat) : Option Lead :=
  if 0xC2 ≤ b ∧ b ≤ 0xDF then some ⟨1, 0x80, 0xBF, b - 0xC0⟩
  else if b = 0xE0 then some ⟨2, 0xA0, 0xBF, 0⟩
  else if b = 0xED then some ⟨2, 0x80, 0x9F, 0xD⟩
  else if 0xE1 ≤ b ∧ b ≤ 0xEF then some ⟨2, 0x80, 0xBF, b - 0xE0⟩
  else if b = 0xF0 then some ⟨3, 0x90, 0xBF, 0⟩
  else if 0xF1 ≤ b ∧ b ≤ 0xF3 then some ⟨3, 0x80, 0xBF, b - 0xF0⟩
  else if b = 0xF4 then some ⟨3, 0x80, 0x8F, 4⟩
  else none

/-- The character the bytes complete, with the rest of the bytes. -/
def continued : Nat → Nat → Nat → Nat → List UInt8 → Option Char × List UInt8
  | 0, _, _, bits, l => (some (Char.ofNat bits), l)
  | _ + 1, _, _, _, [] => (none, [])
  | more + 1, low, high, bits, b :: l =>
    if low ≤ b.toNat ∧ b.toNat ≤ high then
      continued more 0x80 0xBF (64 * bits + (b.toNat - 0x80)) l
    else (none, b :: l)

/-- The first character, or an error, with the rest of the bytes. -/
def first (b : UInt8) (l : List UInt8) : Option Char × List UInt8 :=
  if b.toNat < 0x80 then (some (Char.ofNat b.toNat), l)
  else match lead b.toNat with
    | none => (none, l)
    | some s => continued s.more s.low s.high s.bits l

/-- The characters and the errors, at most so many. -/
def decodeFuel : Nat → List UInt8 → List (Option Char)
  | 0, _ => []
  | _ + 1, [] => []
  | left + 1, b :: l => (first b l).1 :: decodeFuel left (first b l).2

/-- Each item takes a byte at least. -/
def items (l : List UInt8) : List (Option Char) := decodeFuel l.length l

end Utf8

/-- `bytes.decode("utf-8")`, where it does not raise. -/
def decodeUtf8 (l : List UInt8) : Option (List Char) := (Utf8.items l).mapM id

/-- `bytes.decode("utf-8", "replace")` -/
def decodeUtf8Replacing (l : List UInt8) : List Char :=
  (Utf8.items l).map fun c => c.getD (Char.ofNat 0xFFFD)

example : decodeUtf8 [0x68, 0xC3, 0xA9] = some ['h', 'é'] := by decide

end Py
