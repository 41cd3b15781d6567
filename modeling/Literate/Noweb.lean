import Literate.Directive

/-!
# Noweb source

The source form of a literate program: documentation and named code chunks, one after the other.

* `<<name>>=` on a line of its own starts a code chunk, `@` or `@ text` starts documentation.
* In code, `<<name>>` uses another chunk, and `@<<` stands for a plain `<<`.
* In documentation, `[[code]]` quotes code, and a line that starts with `@@` starts with `@`.

`Marker.line` turns each line into directives. The scanners of code and documentation lines never
lose a byte: what is no use and no quote is text.
-/

namespace Literate.Noweb

open Bytes

/-! ### What a line is -/

/-- Is this byte a blank at the end of a definition line? -/
def isTrailingBlank (b : UInt8) : Bool := b == space || b == tab

/-- The name of the chunk that the line `<<name>>=` starts; blanks may follow, and the name is not
empty. -/
def definitionName? (line : Bytes) : Option Bytes :=
  let line := trimRight isTrailingBlank line
  if (utf8 "<<").isPrefixOf line && (utf8 ">>=").isSuffixOf line && 6 ≤ line.length then
    some ((line.drop 2).take (line.length - 5))
  else none

/-- Does the line start a documentation chunk? It is `@`, or starts with `@` and a blank. -/
def isDocsStart : Bytes → Bool
  | [b] => b == atSign
  | b :: c :: _ => b == atSign && (c == space || c == tab)
  | [] => false

/-! ### Code lines -/

/-- Add a text, unless it is empty, to directives listed last one first. -/
def pushText (text : Bytes) (done : List Directive) : List Directive :=
  if text.isEmpty then done else .text text :: done

theorem length_of_breakOnFrom {pattern passed s before after : Bytes}
    (h : breakOnFrom pattern passed s = some (before, after)) :
    after.length + pattern.length ≤ s.length := by
  induction s generalizing passed with
  | nil =>
    unfold breakOnFrom at h
    split at h
    · next he => cases h; simp [List.isEmpty_iff.mp he]
    · exact absurd h (by simp)
  | cons b rest ih =>
    unfold breakOnFrom at h
    split at h
    · next hp =>
      cases h
      have := (List.isPrefixOf_iff_prefix.mp hp).length_le
      simp only [List.length_drop]
      omega
    · have := ih h
      simp only [List.length_cons]
      omega

/-- What follows the first occurrence of a pattern is shorter than the whole by at least the
pattern. -/
theorem length_of_breakOn {pattern s before after : Bytes}
    (h : breakOn pattern s = some (before, after)) : after.length + pattern.length ≤ s.length :=
  length_of_breakOnFrom h

/-- Scan a code line. The text since the last use is in `text`, last byte first, and the
directives before it are in `done`, last one first. -/
def codeFrom (done : List Directive) (text : Bytes) : Bytes → List Directive
  | [] => (pushText text.reverse done).reverse
  | 64 :: 60 :: 60 :: rest => codeFrom done (60 :: 60 :: text) rest
  | 60 :: 60 :: rest =>
    match _h : breakOn (utf8 ">>") rest with
    | some (name, after) => codeFrom (.use name :: pushText text.reverse done) [] after
    | none => (pushText (text.reverse ++ 60 :: 60 :: rest) done).reverse
  | b :: rest => codeFrom done (b :: text) rest
termination_by s => s.length
decreasing_by
  · simp only [List.length_cons]; omega
  · have := length_of_breakOn ‹breakOn (utf8 ">>") _ = _›
    simp only [List.length_cons]
    omega
  · simp only [List.length_cons]; omega

/-- The directives of a code line: texts and uses, in order. A `<<` without a later `>>` is
text, and so is everything after it. -/
def codeLine (line : Bytes) : List Directive := codeFrom [] [] line

/-! ### Documentation lines -/

/-- Scan a documentation line; the directives before it are in `done`, last one first. -/
def docsFrom (done : List Directive) (line : Bytes) : List Directive :=
  match _h₁ : breakOn (utf8 "[[") line with
  | none => (pushText line done).reverse
  | some (before, inner) =>
    match _h₂ : breakOn (utf8 "]]") inner with
    | none => (pushText line done).reverse
    | some (quoted, after) =>
      docsFrom (.endquote :: pushText quoted (.quote :: pushText before done)) after
termination_by line.length
decreasing_by
  have := length_of_breakOn ‹breakOn (utf8 "[[") _ = _›
  have := length_of_breakOn ‹breakOn (utf8 "]]") _ = _›
  have : (utf8 "[[").length = 2 := by decide
  omega

/-- The directives of a documentation line: texts and quotes, in order. A `[[` without a later
`]]` is text. -/
def docsLine (line : Bytes) : List Directive := docsFrom [] line

/-! ### Chunks -/

/-- What a chunk holds. -/
inductive Kind where
  | docs
  | code
deriving DecidableEq, Repr

/-- The name of a kind in a directive. -/
def Kind.name : Kind → Bytes
  | .docs => utf8 "docs"
  | .code => utf8 "code"

/-- The chunk that is being read. -/
structure Marker where
  kind : Kind := .docs
  /-- Its number, from 0. -/
  number : Nat := 0
deriving DecidableEq, Repr

namespace Marker

/-- The kind and number of the chunk, as its directives give them. -/
def tag (m : Marker) : Bytes := m.kind.name ++ space :: decimal m.number

/-- The directive that begins the chunk. -/
def opening (m : Marker) : Directive := .beginChunk m.tag

/-- The directive that ends the chunk. -/
def closing (m : Marker) : Directive := .endChunk m.tag

/-- The chunk after this one. -/
def next (m : Marker) (kind : Kind) : Marker := ⟨kind, m.number + 1⟩

/-- The text of a line that starts with `@` and a blank, after these two bytes. -/
def docsStartText (line : Bytes) : List Directive :=
  if 1 < line.length then docsLine (line.drop 2) else []

/-- A documentation line without the `@` that protects another one. -/
def unescapeDocs (line : Bytes) : Bytes :=
  if (utf8 "@@").isPrefixOf line then line.drop 1 else line

/-- The directives of one source line, without its terminator, and the chunk after it. -/
def line (m : Marker) (line : Bytes) : Marker × List Directive :=
  match definitionName? line with
  | some name =>
    let m' := m.next .code
    (m', [m.closing, m'.opening, .defn name, .newline])
  | none =>
    if isDocsStart line then
      let m' := m.next .docs
      (m', m.closing :: m'.opening :: docsStartText line ++ [.newline])
    else
      match m.kind with
      | .code => (m, codeLine line ++ [.newline])
      | .docs => (m, docsLine (unescapeDocs line) ++ [.newline])

end Marker

/-- The directives before the first source line: the name of the source, if it has one, and the
beginning of the first chunk. -/
def preamble (name : Bytes) : List Directive :=
  (if name.isEmpty then [] else [.file name]) ++ [({} : Marker).opening]

end Literate.Noweb
