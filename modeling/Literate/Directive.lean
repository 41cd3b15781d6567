import Literate.Text.Blank

/-!
# Directives

The tagged stream between the two halves of the program has one directive a line: a keyword that
starts with `@`, and after the first space its argument.

    @begin code 1
    @defn hello.c
    @nl
    @text puts("hi");
    @nl
    @end code 1

`Directive.parse?` reads a line and `Directive.print` writes one. A line that does not start with
`@` is no directive at all; one with an unknown keyword is a directive of its own.
-/

namespace Literate

open Bytes Text

/-- One line of the tagged stream. -/
inductive Directive where
  /-- A piece of text. -/
  | text (s : Bytes)
  /-- The end of a source line. -/
  | newline
  /-- The name of the source file. -/
  | file (name : Bytes)
  /-- The name of the chunk that is defined here. -/
  | defn (name : Bytes)
  /-- The start of quoted code. -/
  | quote
  /-- The end of quoted code. -/
  | endquote
  /-- A use of the chunk of this name. -/
  | use (name : Bytes)
  /-- The start of a chunk; the first field of the argument is its kind. -/
  | beginChunk (arg : Bytes)
  /-- The end of a chunk; the first field of the argument is its kind. -/
  | endChunk (arg : Bytes)
  /-- A directive with a keyword that has no meaning here. -/
  | unknown (keyword : Bytes)
deriving DecidableEq, Repr

namespace Directive

/-- The directive with the given keyword and argument. -/
def ofKeyword (keyword arg : Bytes) : Directive :=
  if keyword = utf8 "@text" then .text arg
  else if keyword = utf8 "@nl" then .newline
  else if keyword = utf8 "@file" then .file arg
  else if keyword = utf8 "@defn" then .defn arg
  else if keyword = utf8 "@quote" then .quote
  else if keyword = utf8 "@endquote" then .endquote
  else if keyword = utf8 "@use" then .use arg
  else if keyword = utf8 "@begin" then .beginChunk arg
  else if keyword = utf8 "@end" then .endChunk arg
  else .unknown keyword

/-- Read a line; there is no directive if it is empty or does not start with `@`. -/
def parse? (line : Bytes) : Option Directive :=
  if line.head? = some atSign then some (ofKeyword (cut space line).1 (cut space line).2)
  else none

/-- The line that stands for a directive. -/
def print : Directive → Bytes
  | .text s => utf8 "@text " ++ s
  | .newline => utf8 "@nl"
  | .file name => utf8 "@file " ++ name
  | .defn name => utf8 "@defn " ++ name
  | .quote => utf8 "@quote"
  | .endquote => utf8 "@endquote"
  | .use name => utf8 "@use " ++ name
  | .beginChunk arg => utf8 "@begin " ++ arg
  | .endChunk arg => utf8 "@end " ++ arg
  | .unknown keyword => keyword

/-- Directives as a stream, one a line. -/
def stream (ds : List Directive) : Bytes := ds.flatMap fun d => d.print ++ [lf]

end Directive

end Literate
