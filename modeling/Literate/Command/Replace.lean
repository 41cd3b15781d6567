import Literate.Command.Convert

/-!
# Replacing a file as a whole

A new output is written to a temporary file next to the old one and then moved into its place, so
that a run that fails leaves the old output as it was.
-/

namespace Literate.Command

open Bytes

/-- What goes wrong while a file is replaced, besides what comes of the files themselves. -/
structure Faults where
  /-- Why no temporary file can be created. -/
  creating : Option Refusal := none
  /-- Why the input cannot be opened. -/
  opening : Option Refusal := none
  /-- After how many bytes reading the input breaks off, and why. -/
  reading : Option (Nat × Refusal) := none
  /-- How many bytes the temporary file takes; there is no limit if absent. -/
  room : Option Nat := none
  /-- Why it takes no more. -/
  writing : Refusal := .noSpace
  /-- Why the temporary file cannot be closed. -/
  closing : Option Refusal := none
  /-- Why the temporary file cannot be moved. -/
  moving : Option Refusal := none
deriving DecidableEq, Repr

/-- What is read of an input from the given path. -/
def Faults.intake (faults : Faults) (path : Bytes) (i : Intake) : Intake :=
  match faults.reading with
  | none => i
  | some (n, why) => ⟨i.bytes.take n, some (.file (utf8 "read") path why)⟩

/-- The files as they are seen from a directory, what temporary names are made with, and what goes
wrong. -/
structure Workplace where
  cwd : Place
  files : FileTree
  /-- What stands in the temporary name of each attempt. -/
  tokens : Nat → Bytes
  faults : Faults := {}

/-- What filling a file comes to. -/
structure Filled where
  out : Buffered
  notices : List Notice := []
  error : Option Error := none

/-- A name in a directory. -/
def inDirectory (dir name : Bytes) : Bytes :=
  if dir.getLast? = some Path.slash then dir ++ name else dir ++ Path.slash :: name

/-- The temporary name for a file name. -/
def tempName (name token : Bytes) : Bytes :=
  Path.dot :: name ++ Path.dot :: token ++ utf8 ".tmp"

/-- The path of a temporary file for the file at `path`. -/
def tempPath (path token : Bytes) : Bytes :=
  inDirectory (Path.dir path) (tempName (Path.base path) token)

/-- What stands for any token. -/
def anyToken : Bytes := utf8 "*"

/-- How many temporary names are tried. -/
def tempAttempts : Nat := 10000

/-- Create a temporary file under the first name that is not in use, trying the given number of
names from the `n`-th on. -/
def createTempFrom (w : Workplace) (path : Bytes) :
    Nat → Nat → Except Failure (FileTree × Place × Bytes)
  | 0, _ => .error (.file (utf8 "createtemp") (tempPath path anyToken) .alreadyExists)
  | tries + 1, n =>
    let temp := tempPath path (w.tokens n)
    match w.files.locate w.cwd temp with
    | .error why => .error (.file (utf8 "open") temp why)
    | .ok ⟨_, some _⟩ => createTempFrom w path tries (n + 1)
    | .ok ⟨place, none⟩ =>
      match w.faults.creating with
      | some why => .error (.file (utf8 "open") temp why)
      | none => .ok (w.files.put place (.file []), place, temp)

/-- Create a temporary file next to the file at `path`. -/
def createTemp (w : Workplace) (path : Bytes) : Except Failure (FileTree × Place × Bytes) :=
  let pattern := tempName (Path.base path) anyToken
  if pattern.contains Path.slash then
    .error (.file (utf8 "createtemp") pattern .separatorInPattern)
  else createTempFrom w path tempAttempts 0

/-- The writer of a temporary file. -/
def Faults.writer (faults : Faults) (tempPath : Bytes) : Buffered :=
  { sink := { room := faults.room, failure := .file (utf8 "write") tempPath faults.writing } }

/-- Move a finished temporary file to `path`, where no directory may be. A link that is there is
replaced, not followed. -/
def moveTo (w : Workplace) (files : FileTree) (temp : Place) (tempPath path contents : Bytes) :
    Except Failure FileTree :=
  match w.faults.moving with
  | some why => .error (.rename tempPath path why)
  | none =>
    match files.locate w.cwd path with
    | .error why => .error (.rename tempPath path why)
    | .ok ⟨_, some .directory⟩ => .error (.rename tempPath path .alreadyExists)
    | .ok ⟨place, _⟩ => .ok ((files.erase temp).put place (.file contents))

/-- Fill a temporary file and move it to `path`. If something fails, it is still there. -/
def fillAndMove (w : Workplace) (files : FileTree) (temp : Place) (tempPath path : Bytes)
    (fill : FileTree → Buffered → Filled) : FileTree × List Notice × Option Error :=
  let filled := fill files (w.faults.writer tempPath)
  match filled.error with
  | some why => (files, filled.notices, some why)
  | none =>
    match filled.out.flush with
    | (_, some why) => (files, filled.notices, some (.flush why))
    | (out, none) =>
      match w.faults.closing with
      | some why => (files, filled.notices, some (.close (.file (utf8 "close") tempPath why)))
      | none =>
        match moveTo w files temp tempPath path out.sink.contents with
        | .error why => (files, filled.notices, some (.replace why))
        | .ok files => (files, filled.notices, none)

/-- Replace the file at `path` by what `fill` writes, or leave all files as they are. Whatever
comes of it, the file with the temporary name is removed in the end, if there still is one. -/
def replaceFile (w : Workplace) (path : Bytes) (fill : FileTree → Buffered → Filled) :
    FileTree × List Notice × Option Error :=
  match createTemp w path with
  | .error why => (w.files, [], some (.createTemp why))
  | .ok (files, temp, tempPath) =>
    match fillAndMove w files temp tempPath path fill with
    | (files, notices, error) => (files.remove w.cwd tempPath, notices, error)

end Literate.Command
