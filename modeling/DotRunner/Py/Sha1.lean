import Mathlib.Algebra.Group.Nat.Defs
import Mathlib.Data.List.Basic

/-!
# SHA-1

`hashlib.sha1(data).hexdigest()`: words are numbers below `2 ^ 32`.
-/

namespace Py

namespace Sha1

def word (n : Nat) : Nat := n % 2 ^ 32

/-- Rotate a word to the left. -/
def rotate (n x : Nat) : Nat := word (x <<< n ||| x >>> (32 - n))

/-- The big-endian number of some bytes. -/
def number (l : List UInt8) : Nat := l.foldl (fun n b => 256 * n + b.toNat) 0

/-- The message with its padding: a one bit, zeros, and its length in bits. -/
def padded (data : List UInt8) : List UInt8 :=
  let zeros := (119 - data.length % 64) % 64
  let bits := 8 * data.length
  data ++ 0x80 :: List.replicate zeros 0 ++
    (List.range 8).map fun i => UInt8.ofNat (bits / 256 ^ (7 - i))

def blocks : Nat → List UInt8 → List (List UInt8)
  | 0, _ => []
  | n + 1, l => l.take 64 :: blocks n (l.drop 64)

def words (block : List UInt8) : List Nat :=
  (List.range 16).map fun i => number ((block.drop (4 * i)).take 4)

/-- The sixteen words before it, the newest last, give the next word. -/
def nextWord (window : List Nat) : Nat :=
  let entry := fun i => window.getD i 0
  rotate 1 (entry 13 ^^^ entry 8 ^^^ entry 2 ^^^ entry 0)

structure Chain where
  a : Nat
  b : Nat
  c : Nat
  d : Nat
  e : Nat

def initial : Chain := ⟨0x67452301, 0xEFCDAB89, 0x98BADCFE, 0x10325476, 0xC3D2E1F0⟩

/-- The function and the constant of a round. -/
def mixing (t : Nat) (s : Chain) : Nat × Nat :=
  if t < 20 then ((s.b &&& s.c) ||| ((s.b ^^^ 0xFFFFFFFF) &&& s.d), 0x5A827999)
  else if t < 40 then (s.b ^^^ s.c ^^^ s.d, 0x6ED9EBA1)
  else if t < 60 then ((s.b &&& s.c) ||| (s.b &&& s.d) ||| (s.c &&& s.d), 0x8F1BBCDC)
  else (s.b ^^^ s.c ^^^ s.d, 0xCA62C1D6)

def round (t w : Nat) (s : Chain) : Chain :=
  let f := mixing t s
  ⟨word (rotate 5 s.a + f.1 + s.e + f.2 + w), s.a, rotate 30 s.b, s.c, s.d⟩

/-- The rounds from `t` on, `left` of them, with the words they begin with. -/
def rounds : Nat → Nat → List Nat → Chain → Chain
  | 0, _, _, s => s
  | left + 1, t, window, s =>
    rounds left (t + 1) (window.tail ++ [nextWord window]) (round t (window.headD 0) s)

def compress (s : Chain) (block : List UInt8) : Chain :=
  let r := rounds 80 0 (words block) s
  ⟨word (s.a + r.a), word (s.b + r.b), word (s.c + r.c), word (s.d + r.d), word (s.e + r.e)⟩

def hexDigits : List Char := "0123456789abcdef".toList

def hexWord (n : Nat) : List Char :=
  (List.range 8).map fun i => hexDigits.getD (n / 16 ^ (7 - i) % 16) '0'

end Sha1

/-- `hashlib.sha1(data).hexdigest()` -/
def sha1 (data : List UInt8) : String :=
  let message := Sha1.padded data
  let s := (Sha1.blocks (message.length / 64) message).foldl Sha1.compress Sha1.initial
  String.ofList ([s.a, s.b, s.c, s.d, s.e].flatMap Sha1.hexWord)

example : sha1 [] = "da39a3ee5e6b4b0d3255bfef95601890afd80709" := by decide +kernel

end Py
