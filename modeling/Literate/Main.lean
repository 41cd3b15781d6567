import Std.Time.Format
import Literate.Command

/-!
# The program

Reads what a command can see, runs it, and carries out what it leaves behind. All decisions are
made by `Command.Invocation.run` and `Watcher.act`; what is here only looks at the world and
changes it.
-/

namespace Literate.Program

open Bytes Command

/-- A text of the world. -/
def toText (s : Bytes) : String :=
  (String.fromUTF8? ⟨(Text.repair s).toArray⟩).getD ""

/-- The absolute path of a place. -/
def pathOf (place : Place) : String := toText (Path.slash :: Path.join place)

/-! ### Looking at files -/

/-- What is at a place that no link is on the way to. A link is taken to lead to where it leads in
the end. -/
def look (place : Place) : IO (Option Entry) := do
  try
    let path ← IO.FS.realPath (pathOf place)
    if path.toString ≠ pathOf place then return some (.link (utf8 path.toString))
    if path.toString = "/dev/null" then return some (.device .null)
    if path.toString = "/dev/full" then return some (.device .full)
    match (← path.metadata).type with
    | .dir => return some .directory
    | _ => return some (.file (← IO.FS.readBinFile path).toList)
  catch _ => return none

/-- Add what is at a place to a tree. -/
def loadPlace (tree : FileTree) (place : Place) : IO FileTree := do
  if (tree.at? place).isSome then return tree
  match ← look place with
  | some entry => return tree.put place entry
  | none => return tree

/-- Add what a path leads past to a tree. -/
def loadPath (cwd : Place) (tree : FileTree) (path : Bytes) : IO FileTree := do
  let mut place := if Path.isAbsolute path then [] else cwd
  let mut tree := tree
  for name in Path.components path do
    if name = Path.above then place := place.dropLast
    else if name ≠ Path.here then place := place ++ [name]
    tree ← loadPlace tree place
    if let some (.link target) := tree.at? place then
      place := Path.components target
      for n in List.range place.length do
        tree ← loadPlace tree (place.take (n + 1))
  return tree

/-- The files that some paths lead to. -/
def loadFiles (cwd : Place) (paths : List Bytes) : IO FileTree :=
  paths.foldlM (loadPath cwd) (FileTree.putDirectory {} cwd)

/-! ### Changing files -/

/-- Write a file as a whole: next to its place first, then moved there. -/
def replace (place : Place) (contents : Bytes) (token : Bytes) : IO Unit := do
  let path := pathOf place
  let temp := toText (tempPath (utf8 path) token)
  IO.FS.writeBinFile temp ⟨contents.toArray⟩
  IO.FS.rename temp path

/-- Bring the files from one state to another. -/
def install (before after : FileTree) (write : Place → Bytes → IO Unit) : IO Unit := do
  for (place, entry) in after.entries do
    if before.at? place ≠ some entry then
      if let .file contents := entry then write place contents

/-- Write a file where it is. -/
def overwrite (place : Place) (contents : Bytes) : IO Unit :=
  IO.FS.writeBinFile (pathOf place) ⟨contents.toArray⟩

/-! ### Speaking -/

/-- The figures of the moment, for something that began at `start` milliseconds. -/
def stampSince (start : Nat) : IO Log.Stamp := do
  let time ← Std.Time.DateTime.now
  let now ← IO.monoMsNow
  return { time := some (utf8 (time.format "uuuu-MM-dd'T'HH:mm:ss.SSSXXX"))
           elapsed := decimal (now - start) }

/-- Write bytes to a stream. -/
def say (stream : IO.FS.Stream) (bytes : Bytes) : IO Unit := do
  stream.write ⟨bytes.toArray⟩
  stream.flush

/-- Names for temporary files. -/
def randomTokens : IO (Nat → Bytes) := do
  let seed := (← IO.getRandomBytes 4).toList.foldl (fun n b => 256 * n + b.toNat) 0
  return fun n => decimal ((seed + n) % 0x100000000)

/-! ### Watching -/

/-- How often the watcher looks, in milliseconds. -/
def pause : UInt32 := 20

/-- What a file shows of its last change. -/
def lastChange (path : Bytes) : IO (Option (IO.FS.SystemTime × UInt64)) := do
  try
    let data ← (← IO.FS.realPath (toText path)).metadata
    return some (data.modified, data.byteSize)
  catch _ => return none

/-- Watch until interrupted. The timer, while it runs, is due at `due` milliseconds. -/
partial def watchFrom (w : Watcher) (log : Logger) (form : Log.Form) (state : Watch.State)
    (seen : Option (IO.FS.SystemTime × UInt64)) (due : Nat) : IO Unit := do
  IO.sleep pause
  let now ← IO.monoMsNow
  let change ← lastChange w.input
  if change.isSome ∧ change != seen then
    let event : Watch.Event := { path := w.input, ops := [.write] }
    let state := (w.step state (.event event)).getD state
    watchFrom w log form state change (now + (w.debounce / 1000000).toNat)
  else if state.armed ∧ due ≤ now then
    let files ← loadFiles [] [w.input, w.output]
    let tokens ← randomTokens
    match w.act log tokens state files .expiry with
    | (state, after, attempt) =>
      install files after fun place contents => replace place contents (tokens 0)
      let notices := attempt.toList.flatMap fun a => a.notices ++ log.note a.record
      let stamp ← stampSince now
      say (← IO.getStderr) (notices.flatMap (Notice.text form stamp))
      watchFrom w log form state change due
  else watchFrom w log form state change due

/-! ### Running -/

/-- How to use the program. -/
def usage : Bytes :=
  utf8 "Usage:\n  noweb2rst [-o output] [file...]\n  noweb2rst markup [file]\n" ++
    utf8 "  noweb2rst serve\n  noweb2rst watch [-o output] file\n"

/-- All that a command can see. -/
def invocation (arguments : List Bytes) : IO Invocation := do
  let cwd := utf8 (← IO.currentDir).toString
  let mut environment : Environment := []
  for name in Settings.names do
    if let some value ← IO.getEnv (toText name) then
      environment := (name, utf8 value) :: environment
  let stdin ←
    if readsStdin arguments then (← IO.getStdin).readBinToEnd else pure ByteArray.empty
  return { arguments, environment, cwd
           stdin := ⟨stdin.toList, none⟩
           files := ← loadFiles (Path.components cwd) (pathsOf arguments)
           tokens := ← randomTokens }

/-- Run a command and give its exit code. -/
def run (arguments : List Bytes) : IO UInt32 := do
  let start ← IO.monoMsNow
  let i ← invocation arguments
  let c := i.run
  match c.ending with
  | .watching .. => install i.files c.files fun place contents => replace place contents (i.tokens 0)
  | _ => install i.files c.files overwrite
  say (← IO.getStdout) c.stdout
  say (← IO.getStderr) (c.stderr (← stampSince start) ++ c.complaint)
  match c.ending with
  | .help => say (← IO.getStdout) usage
  | .watching w log => watchFrom w log c.form {} (← lastChange w.input) 0
  | .serving _ =>
    say (← IO.getStderr) (utf8 "noweb2rst: listening for connections is not available\n")
    return 1
  | _ => pure ()
  return UInt32.ofNat c.exitCode

end Literate.Program

/-- The command line. -/
def main (arguments : List String) : IO UInt32 := do
  try
    Literate.Program.run (arguments.map Literate.utf8)
  catch e =>
    IO.eprintln s!"noweb2rst: {e}"
    return 1
