import Mathlib.Data.List.Basic

/-!
# Base32 — bytes as text over 32 characters

The bits of the bytes in groups of five, most significant first, without padding characters; the last group is filled up with zeros.
-/

namespace Base32

/-- The letters, and the digits from 2 to 7. -/
def symbol (n : ℕ) : Char := if n < 26 then Char.ofNat (65 + n) else Char.ofNat (24 + n)

def bits (b : UInt8) : List Bool := [7, 6, 5, 4, 3, 2, 1, 0].map b.toNat.testBit

def value (l : List Bool) : ℕ := l.foldl (fun n b => 2 * n + b.toNat) 0

def groups : List Bool → List Char
  | [] => []
  | [a] => [symbol (value [a, false, false, false, false])]
  | [a, b] => [symbol (value [a, b, false, false, false])]
  | [a, b, c] => [symbol (value [a, b, c, false, false])]
  | [a, b, c, d] => [symbol (value [a, b, c, d, false])]
  | a :: b :: c :: d :: e :: l => symbol (value [a, b, c, d, e]) :: groups l

def encode (bytes : List UInt8) : List Char := groups (bytes.flatMap bits)

def isSymbol (c : Char) : Bool := ('A' ≤ c && c ≤ 'Z') || ('2' ≤ c && c ≤ '7')

end Base32
