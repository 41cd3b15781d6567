import Literate.Bytes

/-!
# The shortest decimal of a floating-point number

A double stands for all reals that round to it. `shortest` finds the fewest decimal digits that
lie among those reals and, of the candidates with that many digits, the one nearest to the
number. All comparisons are exact, between fractions of natural numbers.
-/

namespace Literate.Decimal

open Bytes

/-- A non-negative fraction. -/
structure Fraction where
  num : Nat
  den : Nat

/-- `n * base ^ e` as a fraction. -/
def Fraction.scaled (n base : Nat) (e : Int) : Fraction :=
  if 0 ≤ e then ⟨n * base.pow e.toNat, 1⟩ else ⟨n, base.pow (-e).toNat⟩

/-- `a ≤ b`, exactly. -/
def Fraction.le (a b : Fraction) : Bool := a.num * b.den ≤ b.num * a.den

/-- `a < b`, exactly. -/
def Fraction.lt (a b : Fraction) : Bool := a.num * b.den < b.num * a.den

/-- The reals that round to one positive double: those between `low` and `high`, with the ends
themselves when `closed`. -/
structure Span where
  value : Fraction
  low : Fraction
  high : Fraction
  closed : Bool

/-- The span of the positive finite double with the given bits, sign aside. The gap below a power
of two is half as wide as the gap above it. -/
def Span.ofBits (bits : UInt64) : Span :=
  let biased := ((bits >>> 52) &&& 0x7FF).toNat
  let low52 := (bits &&& 0xFFFFFFFFFFFFF).toNat
  let m := if biased = 0 then low52 else 0x10000000000000 + low52
  let e : Int := (if biased = 0 then 1 else (biased : Int)) - 1075
  let below := if low52 = 0 ∧ 1 < biased then 4 * m - 1 else 4 * m - 2
  { value := .scaled (4 * m) 2 (e - 2)
    low := .scaled below 2 (e - 2)
    high := .scaled (4 * m + 2) 2 (e - 2)
    closed := m % 2 = 0 }

/-- Does a decimal round to the double? -/
def Span.holds (s : Span) (d : Fraction) : Bool :=
  if s.closed then s.low.le d && d.le s.high else s.low.lt d && d.lt s.high

/-- A decimal number: the digits `digits` followed by `exponent` zeros, or with that many places
behind the point when the exponent is negative. -/
structure Dec where
  digits : Nat
  exponent : Int

/-- The decimal as a fraction. -/
def Dec.toFraction (d : Dec) : Fraction := .scaled d.digits 10 d.exponent

/-- The least `k` with `value < 10 ^ k`. -/
def magnitude (value : Fraction) : Int :=
  let whole := value.num / value.den
  if 0 < whole then (decimal whole).length
  else
    let zeros := (List.range 400).find? fun z => value.den ≤ value.num * Nat.pow 10 (z + 1)
    (0 : Int) - zeros.getD 0

/-- The nearest decimal of the span on the grid `10 ^ exponent`, if one of the two grid points
around the value lies in the span. -/
def Span.onGrid? (s : Span) (exponent : Int) : Option Dec :=
  let unit := Fraction.scaled 1 10 exponent
  let scaledNum := s.value.num * unit.den
  let scaledDen := s.value.den * unit.num
  let floor := scaledNum / scaledDen
  let twice := 2 * scaledNum
  let middle := (2 * floor + 1) * scaledDen
  let downHit := s.holds (Dec.toFraction ⟨floor, exponent⟩)
  let upHit := s.holds (Dec.toFraction ⟨floor + 1, exponent⟩)
  let preferDown := twice < middle || (twice = middle && floor % 2 = 0)
  if downHit && (preferDown || !upHit) then some ⟨floor, exponent⟩
  else if upHit then some ⟨floor + 1, exponent⟩
  else none

/-- Trailing zeros of the digits moved into the exponent. -/
def Dec.strip (d : Dec) : Dec :=
  if d.digits ≠ 0 ∧ d.digits % 10 = 0 then strip ⟨d.digits / 10, d.exponent + 1⟩ else d
termination_by d.digits
decreasing_by omega

/-- The shortest decimal that rounds to the positive finite double with the given bits. Seventeen
digits always suffice; the whole part is the answer for a span that none of them meets. -/
def shortest (bits : UInt64) : Dec :=
  let span := Span.ofBits bits
  let k := magnitude span.value
  match (List.range 17).findSome? fun n => span.onGrid? (k - (n + 1 : Nat)) with
  | some d => d.strip
  | none => ⟨span.value.num / span.value.den, 0⟩

/-! ### Layout -/

/-- How decimals are laid out: numbers whose leading digit has an exponent from `plainFrom` up to
and without `plainBelow` are written positionally, all others with an exponent. -/
structure Layout where
  plainFrom : Int
  plainBelow : Int

/-- The digits with the point in its place. -/
def Dec.positional (d : Dec) : Bytes :=
  let digits := decimal d.digits
  if 0 ≤ d.exponent then digits ++ List.replicate d.exponent.toNat 48
  else
    let places := (-d.exponent).toNat
    if digits.length ≤ places then
      utf8 "0." ++ List.replicate (places - digits.length) 48 ++ digits
    else
      digits.take (digits.length - places) ++ 46 :: digits.drop (digits.length - places)

/-- One digit, the point, the other digits, and a signed exponent. -/
def Dec.scientific (d : Dec) : Bytes :=
  let digits := decimal d.digits
  let e := d.exponent + digits.length - 1
  let fraction := if digits.length = 1 then [] else 46 :: digits.drop 1
  digits.take 1 ++ fraction ++ [101, if e < 0 then 45 else 43] ++ decimal e.natAbs

/-- A finite double in the given layout, with the fewest digits that read back. -/
def render (layout : Layout) (x : Float) : Bytes :=
  let bits := x.toBits
  let sign := if bits >>> 63 = 1 then [45] else []
  if bits <<< 1 = 0 then sign ++ [48]
  else
    let d := shortest (bits &&& 0x7FFFFFFFFFFFFFFF)
    let e := d.exponent + (decimal d.digits).length - 1
    sign ++ if layout.plainFrom ≤ e ∧ e < layout.plainBelow then d.positional else d.scientific

end Literate.Decimal
