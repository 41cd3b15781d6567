import Literate.Bytes

/-!
# Reading whole numbers

A number is an optional sign and at least one decimal digit, and it has to fit 64 bits. Digits can
also be read into a word of 32 bits, which notices most numbers that do not fit, but not all.
-/

namespace Literate.Text

open Bytes

/-- The value of a list of decimal digits. -/
def digitsValue (s : Bytes) : Nat := s.foldl (fun n b => n * 10 + (b.toNat - 48)) 0

/-- The value of an unsigned decimal number, of any size. -/
def readNat? (s : Bytes) : Option Nat :=
  if s.isEmpty || !s.all isDigit then none else some (digitsValue s)

/-- The value of a signed decimal number, of any size. -/
def readInt? : Bytes → Option Int
  | 45 :: digits => (readNat? digits).map fun n => -(n : Int)
  | 43 :: digits => (readNat? digits).map Int.ofNat
  | digits => (readNat? digits).map Int.ofNat

/-- The value of a signed decimal number that fits 64 bits. -/
def readInt64? (s : Bytes) : Option Int :=
  match readInt? s with
  | some n => if -0x8000000000000000 ≤ n ∧ n < 0x8000000000000000 then some n else none
  | none => none

/-- A word of 32 bits with one more decimal digit. A word from `2 ^ 30` on takes no more digits, and
neither does one that the digit would carry over; but what exceeds 32 bits after multiplying by ten
is lost. -/
def pushDigit? (n : UInt32) (digit : UInt8) : Option UInt32 :=
  if 0x40000000 ≤ n then none
  else
    let tens := n * 10
    let sum := tens + (digit - 48).toUInt32
    if sum < tens then none else some sum

/-- The word that decimal digits make, unless one of them is not taken. -/
def readWord? (s : Bytes) : Option UInt32 :=
  if s.isEmpty || !s.all isDigit then none else s.foldlM pushDigit? 0

end Literate.Text
