import Literate.Bytes

/-!
# Durations

A duration is written as a sign and a sequence of numbers with units, as in `1h2m3.5s`. It is a
number of nanoseconds that fits 64 bits.
-/

namespace Literate.Duration

open Bytes

/-- The nanoseconds of a unit. -/
def unit? (name : Bytes) : Option Nat :=
  if name = utf8 "ns" then some 1
  else if name = utf8 "us" ∨ name = utf8 "µs" ∨ name = utf8 "μs" then some 1000
  else if name = utf8 "ms" then some 1000000
  else if name = utf8 "s" then some 1000000000
  else if name = utf8 "m" then some 60000000000
  else if name = utf8 "h" then some 3600000000000
  else none

/-- No number of nanoseconds exceeds `2 ^ 63`. -/
abbrev limit : Nat := 0x8000000000000000

/-- The value of the digits before the point, unless it exceeds the limit. -/
def whole? (digits : Bytes) : Option Nat :=
  digits.foldl (fun acc b =>
    acc.bind fun n =>
      if n ≤ limit / 10 ∧ n * 10 + (b.toNat - 48) ≤ limit then some (n * 10 + (b.toNat - 48))
      else none) (some 0)

/-- The digits behind the point as a number and the power of ten below it. Digits that would
exceed the limit are ignored. -/
structure Fraction where
  value : Nat := 0
  scale : Float := 1
  full : Bool := false

/-- One more digit behind the point. -/
def Fraction.push (f : Fraction) (b : UInt8) : Fraction :=
  if f.full then f
  else
    let value := f.value * 10 + (b.toNat - 48)
    if f.value ≤ (limit - 1) / 10 ∧ value ≤ limit then
      { value, scale := f.scale * 10 }
    else { f with full := true }

/-- The nanoseconds of a fraction of a unit, rounded down. -/
def Fraction.nanoseconds (f : Fraction) (unit : Nat) : Nat :=
  (f.value.toUInt64.toFloat * (unit.toUInt64.toFloat / f.scale)).toUInt64.toNat

/-- Does this byte belong to a number? -/
def isNumeric (b : UInt8) : Bool := isDigit b || b == 46

/-- Read one number with its unit at the front of a text: its nanoseconds and the rest. -/
def term? (s : Bytes) : Option (Nat × Bytes) := do
  let digits := s.takeWhile isDigit
  let afterDigits := s.dropWhile isDigit
  let hasPoint := afterDigits.head? = some 46
  let afterPoint := if hasPoint then afterDigits.drop 1 else afterDigits
  let places := if hasPoint then afterPoint.takeWhile isDigit else []
  let rest := if hasPoint then afterPoint.dropWhile isDigit else afterPoint
  if digits.isEmpty && places.isEmpty then none
  let value ← whole? digits
  let unit ← unit? (rest.takeWhile (!isNumeric ·))
  if limit / unit < value then none
  let fraction := places.foldl Fraction.push {}
  let total := value * unit + if 0 < fraction.value then fraction.nanoseconds unit else 0
  if limit < total then none
  some (total, rest.dropWhile (!isNumeric ·))

/-- Sum up the numbers of a text; every one takes at least a byte, so `fuel` need not exceed the
length. No sum may exceed the limit, but it is kept in 64 bits, so two times the limit is nothing. -/
def sum? : Nat → Nat → Bytes → Option Nat
  | 0, total, _ => some total
  | fuel + 1, total, s =>
    if s.isEmpty then some total
    else do
      let (n, rest) ← term? s
      let total := (total + n) % 0x10000000000000000
      if limit < total then none
      sum? fuel total rest

/-- The magnitude of a duration without its sign. -/
def magnitude? (s : Bytes) : Option Nat :=
  if s = utf8 "0" then some 0
  else if s.isEmpty then none
  else sum? s.length 0 s

/-- The nanoseconds of a duration. -/
def read? : Bytes → Option Int
  | 45 :: s => (magnitude? s).map fun n => -(n : Int)
  | 43 :: s => positive s
  | s => positive s
where
  /-- A positive duration has to be below the limit. -/
  positive (s : Bytes) : Option Int := do
    let n ← magnitude? s
    if n < limit then some (n : Int) else none

end Literate.Duration
