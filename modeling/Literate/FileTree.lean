import Literate.Intake
import Literate.Path

/-!
# File trees

The files a command sees, as a value. Paths are resolved name by name, as the system does it: every
name on the way has to be a directory, so `missing/../x` leads nowhere even if `x` exists. A symbolic
link on the way is followed, and so two paths may lead to one place. What is at a place is there
only: hard links, by which a file is at several places, are left out.
-/

namespace Literate

open Bytes

/-- Where something is: the names on the way to it from the root. -/
abbrev Place := List Bytes

/-- The devices that commands may be pointed at. -/
inductive Device where
  /-- Takes everything and keeps nothing. To a reader it is empty. -/
  | null
  /-- Has no room. To a reader it has no end. -/
  | full
deriving DecidableEq, Repr

/-- What is at a place. -/
inductive Entry where
  | file (contents : Bytes)
  | directory
  | device (d : Device)
  /-- A symbolic link: who comes here goes on to the target. -/
  | link (target : Bytes)
deriving DecidableEq, Repr

def Entry.isLink : Entry → Bool
  | .link _ => true
  | _ => false

/-- What is at each place. The root is a directory and not listed. -/
structure FileTree where
  entries : List (Place × Entry) := []
deriving DecidableEq, Repr

/-- Where a path leads. There may be nothing there, in a directory that exists. -/
structure Spot where
  place : Place
  entry : Option Entry
deriving DecidableEq, Repr

namespace FileTree

/-- What is at a place, if anything. -/
def at? (t : FileTree) (place : Place) : Option Entry :=
  if place.isEmpty then some .directory else t.entries.lookup place

/-- Put something at a place, in place of what is there. -/
def put (t : FileTree) (place : Place) (entry : Entry) : FileTree :=
  if t.entries.any fun e => e.1 = place then
    ⟨t.entries.map fun e => if e.1 = place then (place, entry) else e⟩
  else ⟨t.entries ++ [(place, entry)]⟩

/-- Remove what is at a place. -/
def erase (t : FileTree) (place : Place) : FileTree :=
  ⟨t.entries.filter fun e => e.1 ≠ place⟩

/-- Is there anything below a place? -/
def hasWithin (t : FileTree) (place : Place) : Bool :=
  t.entries.any fun e => place.isPrefixOf e.1 && place.length < e.1.length

/-- Put a directory at a place, and at all places on the way to it. -/
def putDirectory (t : FileTree) (place : Place) : FileTree :=
  (List.range place.length).foldl (fun t n =>
    let here := place.take (n + 1)
    if (t.at? here).isSome then t else t.put here .directory) t

/-- Put a file at a place, with all directories on the way to it. -/
def putFile (t : FileTree) (place : Place) (contents : Bytes) : FileTree :=
  (t.putDirectory place.dropLast).put place (.file contents)

/-! ### Resolving paths -/

/-- The longest name. -/
def nameLimit : Nat := 255

/-- The length that a path has to stay below. -/
def pathLimit : Nat := 4096

/-- How many links are followed on one way. -/
def linkLimit : Nat := 40

/-- Does the path end in a slash, and so ask for a directory? -/
def asksDirectory (path : Bytes) : Bool := path.getLast? = some Path.slash

/-- Where a link in a directory leads: a place to start at, and the names from there. -/
def linkWay (directory : Place) (target : Bytes) : Place × List Bytes :=
  (if Path.isAbsolute target then [] else directory,
    Path.components target ++ if asksDirectory target then [Path.here] else [])

/-- Follow names from a place. What `onward` does is to follow the way on from a link. A link at the
very end is followed only if `last` is true. Nothing is inside of a link, so no way ends at one
otherwise. -/
def walkWith (t : FileTree) (last : Bool) (onward : Place → List Bytes → Except Refusal Spot) :
    Place → List Bytes → Except Refusal Spot
  | place, [] =>
    if (t.at? place).any Entry.isLink then .error .notFound else .ok ⟨place, t.at? place⟩
  | place, name :: names =>
    if t.at? place ≠ some .directory then .error .notDirectory
    else if name = Path.here then t.walkWith last onward place names
    else if name = Path.above then t.walkWith last onward place.dropLast names
    else if nameLimit < name.length then .error .nameTooLong
    else
      match t.at? (place ++ [name]) with
      | none => if names.isEmpty then .ok ⟨place ++ [name], none⟩ else .error .notFound
      | some (.link target) =>
        if names.isEmpty && !last then .ok ⟨place ++ [name], some (.link target)⟩
        else onward (linkWay place target).1 ((linkWay place target).2 ++ names)
      | some _ => t.walkWith last onward (place ++ [name]) names

/-- Follow names from a place, and so many links on the way. -/
def walk (t : FileTree) (last : Bool) : Nat → Place → List Bytes → Except Refusal Spot
  | 0 => t.walkWith last fun _ _ => .error .tooManyLinks
  | links + 1 => t.walkWith last (t.walk last links)

/-- Go up from a place as far as the names ask for it. The way up needs no look at the files, so it
is open even from a directory that was removed. -/
def climb : Place → List Bytes → Place × List Bytes
  | place, [] => (place, [])
  | place, name :: names =>
    if name = Path.here then climb place names
    else if name = Path.above then climb place.dropLast names
    else (place, name :: names)

/-- Where a path leads from the directory `cwd`; a link at its end is followed if `last` is true. -/
def resolveTo (t : FileTree) (last : Bool) (cwd : Place) (path : Bytes) : Except Refusal Spot :=
  if path.contains 0 then .error .invalidArgument
  else if path.isEmpty then .error .notFound
  else if pathLimit ≤ path.length then .error .nameTooLong
  else
    let (start, names) := climb (if Path.isAbsolute path then [] else cwd) (Path.components path)
    t.walk last linkLimit start names

/-- Where a path leads from the directory `cwd`. -/
def resolve (t : FileTree) (cwd : Place) (path : Bytes) : Except Refusal Spot :=
  t.resolveTo true cwd path

/-- What a path names from the directory `cwd`, be it a link. A slash at its end asks for what the
link leads to. -/
def locate (t : FileTree) (cwd : Place) (path : Bytes) : Except Refusal Spot :=
  t.resolveTo (asksDirectory path) cwd path

/-- Does the path end in the name of something, and not in a way to say here or above? Only what is
named can be removed or replaced. -/
def endsInName (path : Bytes) : Bool := Path.base path ≠ Path.here && Path.base path ≠ Path.above

/-- Remove the file, the link or the empty directory that a path names, if there is one. -/
def remove (t : FileTree) (cwd : Place) (path : Bytes) : FileTree :=
  match t.resolveTo false cwd path with
  | .ok ⟨place, some .directory⟩ =>
    if endsInName path ∧ !t.hasWithin place then t.erase place else t
  | .ok ⟨place, some _⟩ => if endsInName path ∧ !asksDirectory path then t.erase place else t
  | _ => t

/-! ### Opening files -/

/-- What an open file or directory is read from. -/
structure Opened where
  place : Place
  entry : Entry
deriving DecidableEq, Repr

/-- Open what is at a path, for reading. -/
def openAt (t : FileTree) (cwd : Place) (path : Bytes) : Except Failure Opened :=
  match t.resolve cwd path with
  | .error why => .error (.file (utf8 "open") path why)
  | .ok ⟨_, none⟩ => .error (.file (utf8 "open") path .notFound)
  | .ok ⟨place, some entry⟩ =>
    if asksDirectory path ∧ entry ≠ .directory then
      .error (.file (utf8 "open") path .notDirectory)
    else .ok ⟨place, entry⟩

/-- What is read from a file that was opened by the given path. A directory can be opened, but not
read, and reading what has no end fails in the end. A link is never opened itself. -/
def Opened.intake (o : Opened) (path : Bytes) : Intake :=
  match o.entry with
  | .file contents => ⟨contents, none⟩
  | .directory => ⟨[], some (.file (utf8 "read") path .isDirectory)⟩
  | .device .null => ⟨[], none⟩
  | .device .full => ⟨[], some (.file (utf8 "read") path .noMemory)⟩
  | .link _ => ⟨[], some (.file (utf8 "read") path .invalidArgument)⟩

/-- The contents of the file at a path, if it can be read. -/
def contents? (t : FileTree) (cwd : Place) (path : Bytes) : Option Bytes :=
  match t.openAt cwd path with
  | .ok ⟨_, .file contents⟩ => some contents
  | _ => none

/-- Where a file can be created at a path. A path that asks for a directory is refused as soon as
the way to its last name is clear, whatever that name is. -/
def resolveNew (t : FileTree) (cwd : Place) (path : Bytes) : Except Refusal Spot :=
  if asksDirectory path ∧ path.length < pathLimit ∧ !path.contains 0 then
    let start := if Path.isAbsolute path then [] else cwd
    match t.walk true linkLimit start (Path.components path).dropLast with
    | .error why => .error why
    | .ok ⟨_, some .directory⟩ => .error .isDirectory
    | .ok ⟨_, some _⟩ => .error .notDirectory
    | .ok ⟨_, none⟩ => .error .notFound
  else
    match t.resolve cwd path with
    | .ok ⟨_, some .directory⟩ => .error .isDirectory
    | found => found

/-- Create an empty file at a path, or empty the one that is there. Devices stay what they are. -/
def create (t : FileTree) (cwd : Place) (path : Bytes) : Except Failure (FileTree × Opened) :=
  match t.resolveNew cwd path with
  | .error why => .error (.file (utf8 "open") path why)
  | .ok ⟨place, some (.device d)⟩ => .ok (t, ⟨place, .device d⟩)
  | .ok ⟨place, _⟩ => .ok (t.put place (.file []), ⟨place, .file []⟩)

end FileTree

end Literate
