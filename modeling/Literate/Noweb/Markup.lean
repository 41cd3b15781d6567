import Literate.Noweb
import Literate.Writer
import Literate.Intake

/-!
# Marking up noweb source

`directives` is the tagged stream of a source, as a list. `markup` writes it, one directive a
piece, to a writer that may fail. A failed write is noticed at the end of the source line it
belongs to, and one before the first line or after the last one at the end of the source.
-/

namespace Literate.Noweb

open Bytes

/-- The directives of source lines, from the marker `m` on; those before are in `done`, by line,
latest first. -/
def directivesFrom (m : Marker) (done : List (List Directive)) :
    List Bytes → List (List Directive) × Marker
  | [] => (done.reverse, m)
  | line :: lines =>
    match m.line line with
    | (m, ds) => directivesFrom m (ds :: done) lines

/-- The whole stream for a source of the given name and lines. -/
def directives (name : Bytes) (lines : List Bytes) : List Directive :=
  match directivesFrom {} [] lines with
  | (byLine, m) => preamble name ++ byLine.flatten ++ [m.closing]

/-- Why marking up ended early. -/
inductive MarkupError where
  /-- A source line could not be written. -/
  | write (why : Failure)
  /-- The source could not be read. -/
  | read (why : Failure)
  /-- The directives around the source lines could not be written. -/
  | frame (why : Failure)
deriving DecidableEq, Repr

/-- The text of the error. -/
def MarkupError.text : MarkupError → Bytes
  | .write why => utf8 "write directives: " ++ why.text
  | .read why => utf8 "read noweb source: " ++ why.text
  | .frame why => why.text

/-- The failure behind the error. -/
def MarkupError.failure : MarkupError → Failure
  | .write why => why
  | .read why => why
  | .frame why => why

section

variable {σ : Type} [Writer σ]

/-- Write directives, one a piece, unless an earlier write failed. -/
def emit (out : σ) (failure : Option Failure) (ds : List Directive) : σ × Option Failure :=
  match failure with
  | some why => (out, some why)
  | none => Writer.writeAll out (ds.map fun d => d.print ++ [lf])

/-- Marking up between two source lines. -/
structure Marking (σ : Type) where
  marker : Marker := {}
  out : σ
  /-- The first failed write. -/
  failure : Option Failure := none

/-- Mark up one source line. -/
def Marking.line (k : Marking σ) (line : Bytes) : Marking σ :=
  match k.marker.line line with
  | (marker, ds) =>
    match emit k.out k.failure ds with
    | (out, failure) => { marker, out, failure }

/-- Did a write fail? -/
def Marking.failed (k : Marking σ) : Bool := k.failure.isSome

/-- Write the tagged stream of a source. -/
def markup (out : σ) (name : Bytes) (source : Intake) : σ × Option MarkupError :=
  match emit out none (preamble name) with
  | (out, failure) =>
    match source.forLines Marking.line Marking.failed { out, failure } with
    | (k, true) => (k.out, k.failure.map .write)
    | (k, false) =>
      match source.failure with
      | some why => (k.out, some (.read why))
      | none =>
        match emit k.out k.failure [k.marker.closing] with
        | (out, failure) => (out, failure.map .frame)

end

end Literate.Noweb
