import Literate.Session
import Literate.Writer
import Literate.Intake

/-!
# Running a session

A `Run` is a session together with the writer that its text goes to. The first failed write is
kept, and nothing is written after it, but the session itself goes on as if nothing had happened.
A run stops at the end of the line that failed.
-/

namespace Literate

/-- A session that writes to `out`. -/
structure Run (σ : Type) where
  session : Session := {}
  out : σ
  /-- The remarks so far, newest first. -/
  remarks : List Remark := []
  /-- The first failed write. -/
  failure : Option Failure := none

/-- Why a run over a tagged stream ended early. -/
inductive RunError where
  | write (why : Failure)
  | read (why : Failure)
deriving DecidableEq, Repr

/-- The text of the error. -/
def RunError.text : RunError → Bytes
  | .write why => utf8 "write output: " ++ why.text
  | .read why => utf8 "read input: " ++ why.text

/-- The failure behind the error. -/
def RunError.failure : RunError → Failure
  | .write why => why
  | .read why => why

namespace Run

variable {σ : Type} [Writer σ]

/-- Take in one line and write its pieces, unless an earlier write failed. -/
def feed (r : Run σ) (line : Bytes) : Run σ :=
  match r.session.feed line with
  | (session, effect) =>
    let remarks := effect.remark.toList ++ r.remarks
    match r.failure with
    | some _ => { r with session, remarks }
    | none =>
      match Writer.writeAll r.out effect.pieces with
      | (out, failure) => { session, out, remarks, failure }

/-- Did a write fail? -/
def failed (r : Run σ) : Bool := r.failure.isSome

/-- Take in lines up to and including the first one that cannot be written. -/
def feedAll (r : Run σ) (lines : List Bytes) : Run σ := (foldUntil feed failed r lines).1

/-- Why the run ended early, given how its input ended. A failed write comes first. -/
def error? (r : Run σ) (ending : Option Failure) : Option RunError :=
  match r.failure with
  | some why => some (.write why)
  | none => ending.map .read

/-- The diagnostics of the run, in order. -/
def diagnostics (r : Run σ) : List Diagnostic := r.remarks.reverse.filterMap Remark.diagnostic?

end Run

/-- The outcome of reading a tagged stream: the run at its end and why it ended early. -/
structure Outcome (σ : Type) where
  run : Run σ
  error : Option RunError := none

/-- Run a fresh session over a tagged stream. The last line counts even if it is not terminated
or the input breaks off in it. -/
def Session.run {σ : Type} [Writer σ] (out : σ) (input : Intake) : Outcome σ :=
  let run := (input.forLines Run.feed Run.failed { out }).1
  { run, error := run.error? input.failure }

end Literate
