import Literate.Decimal.Shortest
import Literate.Json

/-!
# Latency over a rolling window

A `Window` remembers how long each of the recent conversions took and how many diagnostics it
had. Whatever is older than the window's age is dropped, for good, whenever the window is looked
at or added to; only the total keeps counting it.

Times are whole nanoseconds on any clock. Sums are kept in 64 bits and wrap around.
-/

namespace Literate

open Bytes

/-- One conversion. -/
structure Sample where
  /-- When it was recorded. -/
  time : Int
  /-- How many microseconds it took. -/
  micros : Int
  /-- How many diagnostics it had. -/
  diagnostics : Int
deriving DecidableEq, Repr

/-- A rolling window of conversions. -/
structure Window where
  /-- How old a sample may be. -/
  maxAge : Int
  /-- How many conversions were ever recorded. -/
  total : Nat := 0
  /-- The samples, in the order they were recorded. -/
  samples : Array Sample := #[]
deriving DecidableEq, Repr

/-! ### Pruning in place -/

/-- Move the elements that `keep` accepts to the front of the array, in order. Those before
`read` have been looked at, and `write` of them are kept. -/
def compactFrom {α : Type} (keep : α → Bool) (read write : Nat) (a : Array α) : Array α :=
  if h : read < a.size then
    if keep a[read] then compactFrom keep (read + 1) (write + 1) (a.setIfInBounds write a[read])
    else compactFrom keep (read + 1) write a
  else a.take write
termination_by a.size - read
decreasing_by
  · simp only [Array.size_setIfInBounds]; omega
  · omega

/-- The elements that `keep` accepts, in order, in the same array. -/
def compact {α : Type} (keep : α → Bool) (a : Array α) : Array α := compactFrom keep 0 0 a

namespace Window

/-- One hour, in nanoseconds. -/
def hour : Int := 3600000000000

/-- An empty window. An age that is not positive stands for an hour. -/
def ofMaxAge (maxAge : Int) : Window := { maxAge := if maxAge ≤ 0 then hour else maxAge }

/-- Drop the samples that are too old at the time `now`. -/
def prune (w : Window) (now : Int) : Window :=
  { w with samples := compact (fun s => now - w.maxAge ≤ s.time) w.samples }

/-- Record a conversion that took `duration` nanoseconds. -/
def record (w : Window) (now duration diagnostics : Int) : Window :=
  let w := w.prune now
  { w with
    total := w.total + 1
    samples := w.samples.push ⟨now, max 0 (duration.tdiv 1000), diagnostics⟩ }

end Window

/-! ### Summaries -/

/-- A sum in 64 bits, with sign. -/
def wrap64 (n : Int) : Int := n.bmod 0x10000000000000000

/-- The sum of numbers, kept in 64 bits. -/
def sum64 (ns : List Int) : Int := wrap64 (ns.foldl (· + ·) 0)

/-- A 64-bit number as a floating-point number. -/
def toFloat64 (n : Int) : Float := (Int64.ofInt n).toFloat

/-- The value below which `pct` percent of ascending values lie, interpolated between the two
nearest ranks. -/
def percentile (sorted : Array Int) (pct : Float) : Float :=
  if sorted.isEmpty then 0
  else if pct ≤ 0 then toFloat64 (sorted.getD 0 0)
  else if 100 ≤ pct then toFloat64 (sorted.getD (sorted.size - 1) 0)
  else
    let index := (toFloat64 (sorted.size - 1 : Nat) * pct) / 100
    let lower := index.toUInt64.toNat
    let low := toFloat64 (sorted.getD lower 0)
    if sorted.size ≤ lower + 1 then low
    else low + (toFloat64 (sorted.getD (lower + 1) 0) - low) * (index - toFloat64 lower)

/-- What a window shows of its recent conversions. -/
structure Summary where
  count : Nat := 0
  total : Nat
  diagnostics : Int := 0
  minMicros : Int := 0
  maxMicros : Int := 0
  average : Float := 0
  p50 : Float := 0
  p95 : Float := 0
  p99 : Float := 0

namespace Window

/-- The summary of the samples as they are. -/
def summary (w : Window) : Summary :=
  let sorted := ((w.samples.toList.map Sample.micros).mergeSort (· ≤ ·)).toArray
  if sorted.isEmpty then { total := w.total }
  else
    { count := sorted.size
      total := w.total
      diagnostics := sum64 (w.samples.toList.map Sample.diagnostics)
      minMicros := sorted.getD 0 0
      maxMicros := sorted.getD (sorted.size - 1) 0
      average :=
        toFloat64 (sum64 (w.samples.toList.map Sample.micros)) / toFloat64 sorted.size
      p50 := percentile sorted 50
      p95 := percentile sorted 95
      p99 := percentile sorted 99 }

/-- The summary at the time `now`, and the window without what is too old. -/
def snapshot (w : Window) (now : Int) : Window × Summary :=
  let w := w.prune now
  (w, w.summary)

end Window

/-- Figures are written with a point from a millionth up to below `10 ^ 21`. -/
def Summary.layout : Decimal.Layout := { plainFrom := -6, plainBelow := 21 }

/-- The summary as a JSON object. -/
def Summary.toJson (s : Summary) : Json :=
  let float (x : Float) : Json := .number (Decimal.render Summary.layout x)
  .object [(utf8 "count", .int s.count), (utf8 "total", .int s.total),
    (utf8 "diagnostics", .int s.diagnostics), (utf8 "min_us", .int s.minMicros),
    (utf8 "max_us", .int s.maxMicros), (utf8 "avg_us", float s.average),
    (utf8 "p50_us", float s.p50), (utf8 "p95_us", float s.p95), (utf8 "p99_us", float s.p99)]

end Literate
