import Literate.Bytes

/-!
# Diagnostics

A diagnostic is a problem on one line of the input that does not stop the run. It is shown as
`<line>: <message>`, and a list of them one a line.
-/

namespace Literate

open Bytes

/-- What is wrong with a line. -/
inductive Fault where
  /-- The line is empty or does not start with `@`. -/
  | malformedLine
  /-- An end of a chunk that is not open. -/
  | mismatchedEnd
  /-- A fault met in some context. -/
  | within (context : Bytes) (fault : Fault)
deriving DecidableEq, Repr

namespace Fault

/-- The fault itself, without the contexts around it. -/
def root : Fault → Fault
  | .within _ fault => fault.root
  | fault => fault

/-- The name of a fault, contexts first. -/
def text : Fault → Bytes
  | .malformedLine => utf8 "malformed directive line"
  | .mismatchedEnd => utf8 "mismatched chunk end"
  | .within context fault => context ++ utf8 ": " ++ fault.text

end Fault

/-- A problem on one line. -/
structure Diagnostic where
  /-- The number of the line, from 1. -/
  line : Int
  /-- What is wrong, if that is known. -/
  fault : Option Fault
  /-- The kind that the end directive names, for a mismatch. -/
  found : Bytes := []
  /-- The kind of the open chunk, or `none`, for a mismatch. -/
  expected : Bytes := []
deriving DecidableEq, Repr

namespace Diagnostic

/-- Is this a mismatch, in whatever context? -/
def isMismatch (d : Diagnostic) : Bool := d.fault.map Fault.root = some .mismatchedEnd

/-- The message without the number of the line. -/
def message (d : Diagnostic) : Bytes :=
  if d.isMismatch then
    utf8 "Mismatched endchunk (" ++ d.found ++ utf8 ", expected " ++ d.expected ++ utf8 ")"
  else
    utf8 "Line too short or does not start with @"

/-- The diagnostic as `<line>: <message>`. -/
def text (d : Diagnostic) : Bytes := decimalInt d.line ++ utf8 ": " ++ d.message

/-- Diagnostics one a line. -/
def listing (ds : List Diagnostic) : Bytes := ds.flatMap fun d => d.text ++ [lf]

end Diagnostic

end Literate
