import Literate.Bytes

/-!
# Paths

File names as texts with `/` between their components. Everything here works on the text alone
and never asks whether a file exists.
-/

namespace Literate.Path

open Bytes

/-- The slash between the components of a path. -/
abbrev slash : UInt8 := 47

/-- The dot that starts an extension. -/
abbrev dot : UInt8 := 46

/-- The current directory. -/
def here : Bytes := utf8 "."

/-- The directory above. -/
def above : Bytes := utf8 ".."

/-- Does the path start at the root? -/
def isAbsolute (path : Bytes) : Bool := path.head? = some slash

/-- The components of a path, without the empty ones. -/
def components (path : Bytes) : List Bytes := (splitOn slash path).filter (!·.isEmpty)

/-- Components with slashes between them. -/
def join : List Bytes → Bytes
  | [] => []
  | c :: cs => c ++ cs.flatMap (slash :: ·)

/-- Add a component to a clean path whose components are listed last one first. -/
def cleanStep (rooted : Bool) (kept : List Bytes) (c : Bytes) : List Bytes :=
  if c = here then kept
  else if c = above then
    match kept with
    | last :: others => if last = above then above :: kept else others
    | [] => if rooted then [] else [above]
  else c :: kept

/-- The shortest path that means the same, as text: no empty components, no `.`, and `..` only at
the front of a relative path. The empty path is `.`. -/
def clean (path : Bytes) : Bytes :=
  let rooted := isAbsolute path
  let kept := ((components path).foldl (cleanStep rooted) []).reverse
  if rooted then slash :: join kept
  else if kept.isEmpty then here
  else join kept

/-- The last component of a path; `.` for the empty path and `/` for one of slashes only. -/
def base (path : Bytes) : Bytes :=
  if path.isEmpty then here
  else
    let last := ((path.reverse.dropWhile (· == slash)).takeWhile (· != slash)).reverse
    if last.isEmpty then [slash] else last

/-- All but the last component of a path, cleaned. -/
def dir (path : Bytes) : Bytes := clean (path.reverse.dropWhile (· != slash)).reverse

/-- The extension of a path: its last component from the last dot on. -/
def ext (path : Bytes) : Bytes :=
  let last := path.reverse.takeWhile (· != slash)
  if last.contains dot then (last.takeWhile (· != dot) ++ [dot]).reverse else []

/-- The path as seen from the root, for the working directory `cwd`. -/
def absolute (cwd path : Bytes) : Bytes :=
  if isAbsolute path then clean path else clean (cwd ++ slash :: path)

/-- A safe base name for a name that came from outside: no separators and no `..`. An empty name,
or one that only means the current directory, gives the empty name. -/
def sanitize (name : Bytes) : Bytes :=
  if name.isEmpty then []
  else
    let name := replaceAll above [95] (replaceByte 92 95 (replaceByte slash 95 (base name)))
    if name = here then [] else name

end Literate.Path
