import Literate.Session.Run
import Literate.Writer.Buffered

/-!
# Reading the file that is being written

A tagged stream may be read from the very file that its conversion is written to. The reader takes
up to 64 KiB at a time of what has reached the file by then, and it takes the next portion only
when no whole line is left, so what a line writes may be read again further on.
-/

namespace Literate

open Bytes

namespace Run

/-- The most that is taken at a time, together with the unfinished line that is held. -/
def portionSize : Nat := 65536

/-- The whole lines of a text, without their terminators, and the unfinished line at its end. -/
def wholeLines (s : Bytes) : List Bytes × Bytes :=
  let all := rawLines s
  if s.getLast? = some lf ∨ all.isEmpty then (all.map trimCr, [])
  else (all.dropLast.map trimCr, all.getLastD [])

/-- Read on at `offset`, with the unfinished line `tail`. -/
def liveFrom : Nat → Nat → Bytes → Run Buffered → Run Buffered
  | 0, _, _, r => r
  | fuel + 1, offset, tail, r =>
    let portion :=
      (r.out.sink.contents.drop offset).take (portionSize - tail.length % portionSize)
    if portion.isEmpty then if tail.isEmpty then r else r.feed (trimCr tail)
    else
      match wholeLines (tail ++ portion) with
      | (lines, tail) =>
        let r := r.feedAll lines
        if r.failure.isSome then r else liveFrom fuel (offset + portion.length) tail r

/-- A bound on the number of portions. Each directive that is read back was written as the
argument of another one and is shorter than it, so the file cannot grow beyond a square. -/
def liveFuel (out : Buffered) : Nat :=
  let side := out.sink.contents.length + out.size + 64
  4 * (side * side)

end Run

/-- Run a fresh session over the file that `out` is written to. -/
def Session.runLive (out : Buffered) : Outcome Buffered :=
  let run := Run.liveFrom (Run.liveFuel out) 0 [] { out }
  { run, error := run.error? none }

end Literate
