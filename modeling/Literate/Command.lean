import Literate.Noweb.Markup
import Literate.Watch

/-!
# Commands

`Invocation.run` is what the program does with its arguments, its input, its environment and the
files it finds: a value in, a value out. Two commands go on after that, the service and the
watcher; for these it says what they start with and how.
-/

namespace Literate.Command

open Bytes

/-- All that a command can see. -/
structure Invocation where
  arguments : List Bytes := []
  stdin : Intake := ⟨[], none⟩
  environment : Environment := []
  /-- The absolute path of the working directory. -/
  cwd : Bytes
  files : FileTree
  /-- How much the standard output takes; there is no limit if absent. -/
  stdoutRoom : Option Nat := none
  /-- Was the command told to stop before it began? -/
  cancelled : Bool := false
  /-- What the names of temporary files are made with. -/
  tokens : Nat → Bytes

/-- How a command ends. -/
inductive Ending where
  | done
  | failed (why : Error)
  /-- It shows how to use the program. -/
  | help
  /-- It goes on as a service. -/
  | serving (settings : Settings)
  /-- It goes on watching. -/
  | watching (w : Watcher) (log : Logger)

/-- What a command leaves behind. -/
structure Completion where
  stdout : Bytes := []
  notices : List Notice := []
  /-- The form of the log records among the notices. -/
  form : Log.Form := .text
  files : FileTree
  ending : Ending := .done

/-- The error a command ends with, if any. -/
def Completion.error? (c : Completion) : Option Error :=
  match c.ending with
  | .failed why => some why
  | _ => none

/-- All that the command writes to the error output. -/
def Completion.stderr (c : Completion) (stamp : Log.Stamp) : Bytes :=
  c.notices.flatMap (Notice.text c.form stamp)

/-- The exit code of the program. -/
def Completion.exitCode (c : Completion) : Nat := if c.error?.isSome then 1 else 0

/-- What the program writes last to the error output if the command failed. -/
def Completion.complaint (c : Completion) : Bytes :=
  match c.error? with
  | some why => utf8 "noweb2rst: " ++ why.text ++ [lf]
  | none => []

/-- An ending for a command that may have failed. -/
def Ending.ofError? : Option Error → Ending
  | none => .done
  | some why => .failed why

/-! ### Outputs -/

/-- Where the output of a conversion goes. -/
inductive Destination where
  | stdout
  | file (place : Place)
  | device
deriving DecidableEq, Repr

/-- The file that the output goes to, if it goes to a file. -/
def Destination.place? : Destination → Option Place
  | .file place => some place
  | _ => none

/-- An output that is open. -/
structure Outlet where
  sink : Sink
  destination : Destination
  /-- The files once the output is open. -/
  files : FileTree

namespace Invocation

/-- The working directory. -/
def place (i : Invocation) : Place := Path.components i.cwd

/-- The standard output. -/
def stdoutSink (i : Invocation) : Sink := { room := i.stdoutRoom }

/-- Open the output with the given name; the standard output has none, or is called `-`. -/
def openOutput (i : Invocation) (name : Bytes) : Except Error Outlet :=
  if name.isEmpty ∨ name = stdinName then
    .ok { sink := i.stdoutSink, destination := .stdout, files := i.files }
  else
    match i.files.create i.place name with
    | .error why => .error (.createOutput why)
    | .ok (files, ⟨_, .device .full⟩) =>
      .ok
        { sink := { room := some 0, failure := .file (utf8 "write") name .noSpace }
          destination := .device
          files }
    | .ok (files, ⟨_, .device .null⟩) => .ok { sink := {}, destination := .device, files }
    | .ok (files, ⟨place, _⟩) => .ok { sink := {}, destination := .file place, files }

end Invocation

/-- The files once the output is closed. -/
def Outlet.close (o : Outlet) (contents : Bytes) : FileTree :=
  match o.destination.place? with
  | none => o.files
  | some place => o.files.put place (.file contents)

/-- What the standard output holds once the output is closed. -/
def Outlet.shown (o : Outlet) (contents : Bytes) : Bytes :=
  if o.destination = .stdout then contents else []

/-! ### The commands -/

/-- What a command works with once its flags and settings are read. -/
structure Context extends Invocation where
  settings : Settings
  log : Logger
  /-- The value of `--output`. -/
  output : Bytes
  /-- The arguments that are not flags. -/
  words : List Bytes

/-- The file that settings may be in. -/
def settingsFile : Bytes := utf8 ".env"

/-- The output of the watcher: the one given, or else next to the input. -/
def watchOutput (output input : Bytes) : Bytes :=
  if output.isEmpty then dropSuffix (Path.ext input) input ++ utf8 ".rst" else output

namespace Context

/-- Convert the named inputs, or the standard input if none is named, to one output. -/
def convert (c : Context) : Completion :=
  match c.openOutput c.output with
  | .error why => { files := c.files, ending := .failed why }
  | .ok outlet =>
    let names := if c.words.isEmpty then [stdinName] else c.words
    let inputs : Inputs :=
      { cwd := c.place, files := outlet.files, stdin := c.stdin, output := outlet.destination.place? }
    let converted := convertAll c.log inputs { sink := outlet.sink } names
    let (out, error) : Buffered × Option Error :=
      match converted.error with
      | some why => (converted.out, some why)
      | none =>
        match converted.out.flush with
        | (out, failure) => (out, failure.map .flush)
    { stdout := outlet.shown out.sink.contents
      notices := converted.notices
      files := outlet.close out.sink.contents
      ending := .ofError? error }

/-- The source to mark up and its name in the stream. -/
def source (c : Context) : Except Failure (Intake × Bytes) :=
  match c.words.head? with
  | none => .ok (c.stdin, [])
  | some name =>
    if name = stdinName then .ok (c.stdin, [])
    else
      match c.files.openAt c.place name with
      | .error why => .error why
      | .ok opened => .ok (opened.intake name, name)

/-- Show the tagged stream of a source. -/
def markup (c : Context) : Completion :=
  match c.source with
  | .error why => { files := c.files, ending := .failed (.openInput why) }
  | .ok (source, name) =>
    match Noweb.markup ({ sink := c.stdoutSink } : Buffered) name source with
    | (out, some why) =>
      { stdout := out.sink.contents, files := c.files, ending := .failed (.markup why) }
    | (out, none) =>
      match out.flush with
      | (out, failure) =>
        { stdout := out.sink.contents
          files := c.files
          ending := .ofError? (failure.map .flush) }

/-- Can a service listen at the numeric value of this setting? The digits are read into 32 bits, and
a minus sign may only stand before zero. -/
def isTcpPort : Bytes → Bool
  | 45 :: digits => Text.readWord? digits = some 0
  | 43 :: digits => inRange digits
  | digits => inRange digits
where
  /-- Do the digits make a number of 16 bits? -/
  inRange (digits : Bytes) : Bool := (Text.readWord? digits).any (· ≤ 65535)

/-- Start the service. -/
def serve (c : Context) : Completion :=
  match c.settings.check? with
  | some why => { files := c.files, ending := .failed (.settings why) }
  | none =>
    let starting := c.log.note
      { level := .info
        message := utf8 "starting noweb2rst"
        attributes := [(utf8 "port", .text c.settings.tcpPort),
          (utf8 "auth", .bool !c.settings.apiKey.isEmpty)] }
    if !isTcpPort c.settings.tcpPort then
      { notices := starting, files := c.files, ending := .failed (.listen c.settings.tcpPort) }
    else if c.cancelled then
      let stopping := c.log.note { level := .info, message := utf8 "shutting down..." }
      { notices := starting ++ stopping, files := c.files }
    else { notices := starting, files := c.files, ending := .serving c.settings }

/-- Convert a file once and go on watching it. -/
def watch (c : Context) : Completion :=
  let input := c.words.headD []
  match Watcher.create c.cwd input (watchOutput c.output input) c.settings.watchDebounce with
  | .error why => { files := c.files, ending := .failed why }
  | .ok w =>
    match w.unwatchable? c.files with
    | some why => { files := c.files, ending := .failed why }
    | none =>
      let attempt := w.convert c.log c.tokens c.files
      { notices := attempt.notices ++ c.log.note attempt.record
        files := attempt.files
        ending := if c.cancelled then .done else .watching w c.log }

/-- Carry out a command. -/
def perform (c : Context) : Verb → Completion
  | .convert => c.convert
  | .markup => c.markup
  | .serve => c.serve
  | .watch => c.watch
  | .help => { files := c.files, ending := .help }

end Context

namespace Invocation

/-- Read the settings and carry out a command. A level that makes no sense is replaced by the
default, with a warning. -/
def perform (i : Invocation) (verb : Verb) (parsed : Parsed) : Completion :=
  let settings := Settings.load i.environment (i.files.contents? i.place settingsFile)
  let (log, warning) : Logger × List Notice :=
    match settings.level with
    | .ok level => (⟨level⟩, [])
    | .error why =>
      let log : Logger := ⟨.warn⟩
      (log, log.note
        { level := .warn
          message := utf8 "using default log level"
          attributes := [(utf8 "error", .text why.text)] })
  let context : Context :=
    { toInvocation := i, settings, log, output := parsed.output, words := parsed.arguments }
  let completion := context.perform verb
  { completion with notices := warning ++ completion.notices, form := settings.form }

/-- Run the program. The command line is read first; the settings matter only if it makes
sense. -/
def run (i : Invocation) : Completion :=
  match Verb.select i.arguments with
  | (verb, arguments) =>
    match verb.parse arguments with
    | .error why => { files := i.files, ending := .failed (.usage why) }
    | .ok parsed =>
      if parsed.help then { files := i.files, ending := .help }
      else
        match verb.checkWords? parsed.arguments with
        | some why => { files := i.files, ending := .failed (.usage why) }
        | none => i.perform verb parsed

end Invocation

/-! ### What a command line leads to -/

/-- The paths that a command line may lead to. -/
def pathsOf (arguments : List Bytes) : List Bytes :=
  match Verb.select arguments with
  | (verb, arguments) =>
    match verb.parse arguments with
    | .error _ => []
    | .ok parsed =>
      let output :=
        match verb with
        | .watch => [watchOutput parsed.output (parsed.arguments.headD [])]
        | _ => [parsed.output]
      settingsFile :: parsed.arguments ++ output

/-- May the command line lead to the standard input? -/
def readsStdin (arguments : List Bytes) : Bool :=
  match Verb.select arguments with
  | (verb, arguments) =>
    match verb, verb.parse arguments with
    | .convert, .ok parsed | .markup, .ok parsed =>
      !parsed.help && (parsed.words.isEmpty || parsed.words.contains stdinName)
    | _, _ => false

end Literate.Command
