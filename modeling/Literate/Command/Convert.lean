import Literate.Command.Console
import Literate.FileTree
import Literate.Session.Live

/-!
# Converting named inputs

`convertInput` converts one input and puts the notices of its session in order: the record of each
remark, followed by the line of the diagnostic it carries. `convertAll` converts inputs one after
the other to the same output, as sessions of their own, and stops at the first that fails.
-/

namespace Literate.Command

open Bytes

/-- The name of the standard input on a command line. -/
def stdinName : Bytes := utf8 "-"

/-- The name of an input in its tagged stream; the standard input has none. -/
def streamName (name : Bytes) : Bytes := if name = stdinName then [] else name

/-- What an input is read from. -/
inductive Origin where
  | intake (i : Intake)
  /-- The file that the output goes to. -/
  | output

/-- Convert an input of the given format from its origin. -/
def Origin.convert (origin : Origin) (format : Format) (name : Bytes) (out : Buffered) :
    Conversion Buffered :=
  match origin, format with
  | .intake i, _ => format.convert name i out
  | .output, .noweb => format.convert name ⟨out.sink.contents, none⟩ out
  | .output, .tagged =>
    match Session.runLive out with
    | ⟨run, error⟩ =>
      { out := run.out, remarks := run.remarks.reverse, error := error.map .run }

/-- The outcome of converting one or more inputs. -/
structure Converted where
  out : Buffered
  notices : List Notice := []
  error : Option Error := none

/-- The notices of a remark on the named input. Diagnostics of files carry the file's name. -/
def remarkNotices (log : Logger) (name : Bytes) (r : Remark) : List Notice :=
  let start := if name = stdinName then [] else name ++ utf8 ":"
  log.note (r.record.under [(utf8 "file", .text name)]) ++
    (r.diagnostic?.map fun d => Notice.line (start ++ d.text)).toList

/-- Convert one input that has been opened. -/
def convertInput (log : Logger) (name : Bytes) (origin : Origin) (out : Buffered) : Converted :=
  let file : List (Bytes × Log.Value) := [(utf8 "file", .text name)]
  let c := origin.convert (.ofFileName name) (streamName name) out
  let before := log.note { level := .debug, message := utf8 "translating", attributes := file }
  let notices := before ++ c.remarks.flatMap (remarkNotices log name)
  match c.error with
  | some why => { out := c.out, notices, error := some (.conversion name why) }
  | none =>
    let count : Bytes × Log.Value := (utf8 "diagnostics", .int c.diagnostics.length)
    { out := c.out
      notices := notices ++
        log.note { level := .debug, message := utf8 "translated", attributes := file ++ [count] } }

/-- Where the inputs of a command come from. -/
structure Inputs where
  cwd : Place
  files : FileTree
  /-- What is left of the standard input. -/
  stdin : Intake
  /-- The file the output goes to, if it goes to a file. -/
  output : Option Place := none

/-- Open the named input. -/
def Inputs.open? (inputs : Inputs) (name : Bytes) : Except Failure Origin :=
  if name = stdinName then .ok (.intake inputs.stdin)
  else
    match inputs.files.openAt inputs.cwd name with
    | .error why => .error why
    | .ok o => .ok (if inputs.output = some o.place then .output else .intake (o.intake name))

/-- What is left of the inputs after the named one was read. The standard input is read to its
end. -/
def Inputs.after (inputs : Inputs) (name : Bytes) : Inputs :=
  if name = stdinName then { inputs with stdin := { inputs.stdin with bytes := [] } } else inputs

/-- Convert inputs in order, going on after the notices `done`. -/
def convertAllFrom (log : Logger) (inputs : Inputs) (done : List (List Notice)) (out : Buffered) :
    List Bytes → Converted
  | [] => { out, notices := done.reverse.flatten }
  | name :: names =>
    match inputs.open? name with
    | .error why =>
      { out, notices := done.reverse.flatten, error := some (.openInput why) }
    | .ok origin =>
      let c := convertInput log name origin out
      let done := c.notices :: done
      match c.error with
      | some why => { out := c.out, notices := done.reverse.flatten, error := some why }
      | none => convertAllFrom log (inputs.after name) done c.out names

/-- Convert inputs in order to one output, which still has to be flushed. -/
def convertAll (log : Logger) (inputs : Inputs) (out : Buffered) (names : List Bytes) : Converted :=
  convertAllFrom log inputs [] out names

end Literate.Command
