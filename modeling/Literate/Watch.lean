import Literate.Command.Replace

/-!
# Watching a file

A watcher converts its input once and then again after every change. Changes come as events; an
event that concerns the input starts a timer, or starts it anew, and the conversion runs when the
timer expires, so that a burst of events leads to one conversion only.
-/

namespace Literate

open Bytes Command

/-- A watcher: absolute paths of its input and output, and how long it waits after a change. -/
structure Watcher where
  input : Bytes
  output : Bytes
  /-- In nanoseconds. -/
  debounce : Int
deriving DecidableEq, Repr

namespace Watch

/-- What happened to a file. -/
inductive Op where
  | create
  | write
  | remove
  | rename
  | chmod
deriving DecidableEq, Repr

/-- A change of some kind to the file at a path. -/
structure Event where
  path : Bytes
  ops : List Op
deriving DecidableEq, Repr

/-- Where the watcher stands between two steps. -/
structure State where
  /-- Is the timer running? -/
  armed : Bool := false
  /-- How many conversions there were; the first precedes all steps. -/
  conversions : Nat := 1
  /-- Was the watcher told to stop? -/
  stopped : Bool := false
deriving DecidableEq, Repr

/-- What makes the watcher move. -/
inductive Step where
  /-- An event arrives. -/
  | event (e : Event)
  /-- The timer expires, which runs the conversion. -/
  | expiry
  /-- The source of events reports an error, which is logged. -/
  | error
  /-- The watcher is told to stop. -/
  | cancel
deriving DecidableEq, Repr

/-- What somebody does to a file. -/
inductive Change where
  /-- A finished file takes this place. -/
  | put (contents : Bytes)
  /-- Something is written to the end of the file. -/
  | append (contents : Bytes)
  | remove
  | chmod
deriving DecidableEq, Repr

/-- Does the change go to what a link leads to, and not to the link itself? -/
def Change.followsLink : Change → Bool
  | .put _ => false
  | .append _ => true
  | .remove => false
  | .chmod => true

/-- The files after a change at a path, seen from the directory `cwd`, and the place that changed,
unless the change cannot be made: a finished file takes the place of a file, a link or of nothing,
only a file that exists can be written to, and a directory is removed only by its name and if it is
empty. -/
def Change.apply? (files : FileTree) (cwd : Place) (path : Bytes) (c : Change) :
    Option (FileTree × Place) :=
  match files.resolveTo (c.followsLink || FileTree.asksDirectory path) cwd path with
  | .error _ => none
  | .ok ⟨place, entry⟩ =>
    if FileTree.asksDirectory path ∧ entry ≠ some .directory then none
    else
      match c, entry with
      | .put contents, none =>
        if FileTree.endsInName path then some (files.put place (.file contents), place) else none
      | .put contents, some (.file _) => some (files.put place (.file contents), place)
      | .put contents, some (.link _) => some (files.put place (.file contents), place)
      | .append contents, some (.file before) =>
        some (files.put place (.file (before ++ contents)), place)
      | .remove, some _ =>
        if FileTree.endsInName path ∧ !files.hasWithin place then some (files.erase place, place)
        else none
      | .chmod, some _ => some (files, place)
      | _, _ => none

/-- The kind of event that a change leads to. -/
def Change.op : Change → Op
  | .put _ => .create
  | .append _ => .write
  | .remove => .remove
  | .chmod => .chmod

end Watch

namespace Watcher

open Watch

/-- A tenth of a second. -/
def defaultDebounce : Int := 100000000

/-- A watcher for paths as seen from the directory `cwd`. A file cannot be converted to itself, but
only the paths are compared: by way of a link they may still lead to one file. -/
def create (cwd input output : Bytes) (debounce : Int) : Except Error Watcher :=
  let input := Path.absolute cwd input
  let output := Path.absolute cwd output
  if input = output then .error (.sameFile input)
  else .ok { input, output, debounce := if debounce ≤ 0 then defaultDebounce else debounce }

/-- Does an event call for a conversion? -/
def concerns (w : Watcher) (e : Event) : Bool :=
  Path.clean e.path = w.input && e.ops.any fun op => op == .write || op == .create

/-- One step of the watcher, if it can be taken: the timer expires only while it is running, and
nothing happens after the watcher has stopped. -/
def step (w : Watcher) (s : State) (step : Step) : Option State :=
  if s.stopped then none
  else
    match step with
    | .event e => some { s with armed := s.armed || w.concerns e }
    | .expiry =>
      if s.armed then some { s with armed := false, conversions := s.conversions + 1 } else none
    | .error => some s
    | .cancel => some { s with stopped := true }

/-- The directory that is watched. -/
def directory (w : Watcher) : Bytes := Path.dir w.input

/-- What the watcher hears of a change that was made at a place: of what is in its directory only,
which goes by the path that the watcher has for it. Nothing is reported if nothing is written. -/
def event? (w : Watcher) (files : FileTree) (place : Place) (c : Change) : Option Event :=
  match files.resolve [] w.directory, place.getLast? with
  | .ok ⟨directory, _⟩, some name =>
    if place.dropLast = directory ∧ c ≠ .append [] then
      some { path := inDirectory w.directory name, ops := [c.op] }
    else none
  | _, _ => none

/-- Why the directory of the input cannot be watched, if it cannot. One whose path holds a zero
byte is not there either, but that goes unnoticed. -/
def unwatchable? (w : Watcher) (files : FileTree) : Option Error :=
  if w.directory.contains 0 then none
  else match files.resolve [] w.directory with
  | .error why => some (.unwatchable w.directory why)
  | .ok ⟨_, none⟩ => some (.unwatchable w.directory .notFound)
  | .ok ⟨_, some _⟩ => none

/-- One conversion of the input. -/
structure Attempt where
  files : FileTree
  /-- The notices of the conversion itself. -/
  notices : List Notice
  error : Option Error
  /-- What the watcher logs about it. -/
  record : Log.Record

/-- The log record of a conversion. -/
def attemptRecord (w : Watcher) (error : Option Error) : Log.Record :=
  let paths : List (Bytes × Log.Value) :=
    [(utf8 "input", .text w.input), (utf8 "output", .text w.output)]
  match error with
  | some why =>
    { level := .error
      message := utf8 "translation failed"
      attributes := paths ++ [(utf8 "error", .text why.text)] }
  | none =>
    { level := .info
      message := utf8 "translated"
      attributes := paths ++ [(utf8 "duration_ms", .elapsed)] }

/-- Open the input. -/
def openInput (w : Watcher) (faults : Faults) (files : FileTree) :
    Except Failure FileTree.Opened :=
  match faults.opening with
  | some why => .error (.file (utf8 "open") w.input why)
  | none => files.openAt [] w.input

/-- Fill the new output with the conversion of the input. -/
def fill (w : Watcher) (log : Logger) (faults : Faults) (files : FileTree) (out : Buffered) :
    Filled :=
  match w.openInput faults files with
  | .error why => { out, error := some (.openInput why) }
  | .ok opened =>
    let input := faults.intake w.input (opened.intake w.input)
    let c := convertInput log w.input (.intake input) out
    { out := c.out, notices := c.notices, error := c.error }

/-- Convert the input, replacing the output as a whole or leaving it as it was. -/
def convert (w : Watcher) (log : Logger) (tokens : Nat → Bytes) (files : FileTree)
    (faults : Faults := {}) : Attempt :=
  match replaceFile { cwd := [], files, tokens, faults } w.output (w.fill log faults) with
  | (files, notices, error) => { files, notices, error, record := w.attemptRecord error }

/-- Take a step, and convert the input if that is what it calls for. A step that cannot be taken
changes nothing. -/
def act (w : Watcher) (log : Logger) (tokens : Nat → Bytes) (s : State) (files : FileTree)
    (step : Step) (faults : Faults := {}) : State × FileTree × Option Attempt :=
  match w.step s step with
  | none => (s, files, none)
  | some s' =>
    if s'.conversions = s.conversions then (s', files, none)
    else
      let attempt := w.convert log tokens files faults
      (s', attempt.files, some attempt)

end Watcher

end Literate
