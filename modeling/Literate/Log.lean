import Literate.Json
import Literate.Text.Blank
import Literate.Text.Quoted
import Literate.Session

/-!
# Log records

A log record has a level, a message and attributes in order. It is written as one line, either of
`key=value` pairs or of JSON. How long something took, and what time it is, is known only to
whoever measures it: a record says just where such a figure stands.
-/

namespace Literate

open Bytes Text

/-- How important a record is. -/
inductive Level where
  | debug
  | info
  | warn
  | error
deriving DecidableEq, Repr

namespace Level

/-- Levels in ascending order. -/
def rank : Level → Nat
  | .debug => 0
  | .info => 1
  | .warn => 2
  | .error => 3

/-- The name of a level in a log line. -/
def label : Level → Bytes
  | .debug => utf8 "DEBUG"
  | .info => utf8 "INFO"
  | .warn => utf8 "WARN"
  | .error => utf8 "ERROR"

end Level

namespace Log

/-- The value of an attribute. -/
inductive Value where
  | text (s : Bytes)
  | int (n : Int)
  | bool (b : Bool)
  /-- How many milliseconds something took. -/
  | elapsed
deriving DecidableEq, Repr

/-- One record. -/
structure Record where
  level : Level
  message : Bytes
  attributes : List (Bytes × Value) := []
deriving DecidableEq, Repr

/-- A record with attributes put before its own. -/
def Record.under (attributes : List (Bytes × Value)) (r : Record) : Record :=
  { r with attributes := attributes ++ r.attributes }

/-- The figures that are measured when a record is written. -/
structure Stamp where
  /-- The time of day, if it is to be written. -/
  time : Option Bytes := none
  /-- The milliseconds that `Value.elapsed` stands for. -/
  elapsed : Bytes

/-- The form of the log. -/
inductive Form where
  | text
  | json
deriving DecidableEq, Repr

/-! ### Lines of `key=value` pairs -/

/-- Can this glyph stand in an unquoted value? -/
def isPlain : Glyph → Bool
  | .stray _ => false
  | .char c =>
    if c.toNat < 0x80 then 0x20 < c.toNat && c != '=' && c.toNat != 34
    else c != replacement && !isBlank c && isPrintable c

/-- A text, in quotes if it is empty or holds anything that is not plain. -/
def plainOrQuoted (s : Bytes) : Bytes :=
  if !s.isEmpty && (decode s).all isPlain then s else quoted s

/-- The text of a value. -/
def Value.shown (stamp : Stamp) : Value → Bytes
  | .text s => s
  | .int n => decimalInt n
  | .bool b => if b then utf8 "true" else utf8 "false"
  | .elapsed => stamp.elapsed

/-- One pair. -/
def pair (key value : Bytes) : Bytes := key ++ 61 :: plainOrQuoted value

/-- Pairs with spaces between them. -/
def joinSpaces : List Bytes → Bytes
  | [] => []
  | piece :: others => piece ++ others.flatMap (space :: ·)

/-- The record as a line of pairs. -/
def Record.textLine (r : Record) (stamp : Stamp) : Bytes :=
  let time := (stamp.time.map fun t => utf8 "time=" ++ t).toList
  joinSpaces (time ++ pair (utf8 "level") r.level.label :: pair (utf8 "msg") r.message ::
    r.attributes.map fun (key, value) => pair key (value.shown stamp)) ++ [lf]

/-! ### Lines of JSON -/

/-- Log lines escape only what they have to. -/
def escapes : Json.Escapes := { markup := false, letters := false }

/-- A value in JSON. -/
def Value.toJson (stamp : Stamp) : Value → Json
  | .text s => .string s
  | .int n => .int n
  | .bool b => .bool b
  | .elapsed => .number stamp.elapsed

/-- The record as a line of JSON. -/
def Record.jsonLine (r : Record) (stamp : Stamp) : Bytes :=
  let time := (stamp.time.map fun t => (utf8 "time", Json.string t)).toList
  Json.render escapes (.object (time ++ (utf8 "level", .string r.level.label) ::
    (utf8 "msg", .string r.message) ::
    r.attributes.map fun (key, value) => (key, value.toJson stamp))) ++ [lf]

/-- The record as a line in the given form. -/
def Record.line (r : Record) (form : Form) (stamp : Stamp) : Bytes :=
  match form with
  | .text => r.textLine stamp
  | .json => r.jsonLine stamp

end Log

/-- The log record of a remark. -/
def Remark.record : Remark → Log.Record
  | .diagnostic d =>
    { level := .debug
      message := utf8 "diagnostic"
      attributes := [(utf8 "line", .int d.line),
        (utf8 "error", .text ((d.fault.map Fault.text).getD []))] }
  | .ignored line keyword =>
    { level := .debug
      message := utf8 "ignoring directive"
      attributes := [(utf8 "line", .int line), (utf8 "keyword", .text keyword)] }
  | .undefinedBlock line =>
    { level := .debug
      message := utf8 "code block opened before any definition"
      attributes := [(utf8 "line", .int line)] }

end Literate
