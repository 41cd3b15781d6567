import Literate.Command.Flags
import Literate.Format
import Literate.Settings

/-!
# What commands say

A command speaks in notices, which go to the error output in order: the diagnostics of its inputs
and, as far as the settings ask for them, its log records. If it fails, it does so with a
`Command.Error`.
-/

namespace Literate.Command

open Bytes

/-- One notice. -/
inductive Notice where
  /-- A line of text. -/
  | line (text : Bytes)
  /-- A log record. -/
  | record (r : Log.Record)
deriving DecidableEq, Repr

/-- The text of a notice. -/
def Notice.text (form : Log.Form) (stamp : Log.Stamp) : Notice → Bytes
  | .line text => text ++ [lf]
  | .record r => r.line form stamp

/-- The least important level that is logged. -/
structure Logger where
  level : Level
deriving DecidableEq, Repr

/-- The record as a notice, unless it is not important enough. -/
def Logger.note (log : Logger) (r : Log.Record) : List Notice :=
  if log.level.rank ≤ r.level.rank then [.record r] else []

/-- Why a command failed. -/
inductive Error where
  | usage (why : UsageError)
  /-- An input could not be opened. -/
  | openInput (why : Failure)
  /-- The output file could not be created. -/
  | createOutput (why : Failure)
  /-- An input could not be converted. -/
  | conversion (name : Bytes) (why : ConversionError)
  /-- The last of the output could not be written. -/
  | flush (why : Failure)
  /-- The tagged stream could not be shown. -/
  | markup (why : Noweb.MarkupError)
  /-- The temporary file could not be created. -/
  | createTemp (why : Failure)
  /-- The temporary file could not be filled. -/
  | fill (why : Failure)
  /-- The temporary file could not be closed. -/
  | close (why : Failure)
  /-- The temporary file could not take the place of the output. -/
  | replace (why : Failure)
  /-- A file cannot be converted to itself. -/
  | sameFile (path : Bytes)
  /-- A directory cannot be watched. -/
  | unwatchable (dir : Bytes) (why : Refusal)
  /-- The service cannot run with these settings. -/
  | settings (why : SettingsError)
  /-- The service cannot listen there. -/
  | listen (tcpPort : Bytes)
deriving DecidableEq, Repr

/-- The text of the error. -/
def Error.text : Error → Bytes
  | .usage why => why.text
  | .openInput why => utf8 "open input: " ++ why.text
  | .createOutput why => utf8 "create output: " ++ why.text
  | .conversion name why => name ++ utf8 ": " ++ why.text
  | .flush why => utf8 "write output: " ++ why.text
  | .markup why => why.text
  | .createTemp why => utf8 "create temp output: " ++ why.text
  | .fill why => why.text
  | .close why => utf8 "close output: " ++ why.text
  | .replace why => utf8 "replace output: " ++ why.text
  | .sameFile path => utf8 "input and output are the same file: " ++ path
  | .unwatchable dir why => utf8 "watch " ++ dir ++ utf8 ": " ++ why.text
  | .settings why => utf8 "invalid configuration: " ++ why.text
  | .listen tcpPort => utf8 "listen tcp: address " ++ tcpPort ++ utf8 ": invalid port"

end Literate.Command
