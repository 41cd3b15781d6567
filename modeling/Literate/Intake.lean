import Literate.Failure

/-!
# Input that may break off

What a reader delivers: some bytes, and then either the end of the input or a failure. It is read
line by line (`Intake.forLines`).
-/

namespace Literate

open Bytes

/-- The bytes a reader delivers and the failure that follows them, if any. -/
structure Intake where
  bytes : Bytes
  failure : Option Failure := none
deriving DecidableEq, Repr

namespace Intake

/-- The first `n` bytes at most, then a broken connection. -/
def breakingAfter (n : Nat) (bytes : Bytes) : Intake := ⟨bytes.take n, some .connectionReset⟩

/-- The same input under a limit: if more than `limit` bytes would be delivered, the first
`limit` of them and then the complaint that there is more. -/
def limited (limit : Nat) (i : Intake) : Intake :=
  if i.bytes.length ≤ limit then i else ⟨i.bytes.take limit, some .bodyTooLarge⟩

/-! ### Reading lines -/

/-- Read up to and including the next line feed. Without one, that is all there is, and nothing is
left to be read on from. -/
def readLine (i : Intake) : Bytes × Option Intake :=
  let line := i.bytes.takeWhile (· ≠ lf)
  match i.bytes.dropWhile (· ≠ lf) with
  | [] => (line, none)
  | terminator :: rest => (line ++ [terminator], some { i with bytes := rest })

theorem length_lt_of_readLine {i next : Intake} (h : i.readLine.2 = some next) :
    next.bytes.length < i.bytes.length := by
  unfold readLine at h
  dsimp only at h
  split at h
  · cases h
  · next hrest =>
    cases h
    have hle := (List.dropWhile_sublist (p := (· ≠ lf)) (l := i.bytes)).length_le
    rw [hrest] at hle
    exact hle

/-- Read line by line, and take in every line without its terminator, also one that nothing ends or
that the input breaks off in. After the first line that leads to where it `stops`, nothing more is
read. Was there such a line? -/
def forLines {α : Type} (step : α → Bytes → α) (stops : α → Bool) (a : α) (i : Intake) : α × Bool :=
  let line := i.readLine.1
  let fed := if line.isEmpty then a else step a (trimEol line)
  if !line.isEmpty && stops fed then (fed, true)
  else
    match _ : i.readLine.2 with
    | none => (fed, false)
    | some next => forLines step stops fed next
termination_by i.bytes.length
decreasing_by exact length_lt_of_readLine ‹_›

end Intake

/-- Take in the lines of a list up to and including the first one that leads to where it `stops`. Was
there such a line? -/
def foldUntil {α : Type} (step : α → Bytes → α) (stops : α → Bool) : α → List Bytes → α × Bool
  | a, [] => (a, false)
  | a, line :: lines =>
    let fed := step a line
    if stops fed then (fed, true) else foldUntil step stops fed lines

end Literate
