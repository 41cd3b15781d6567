import Literate.Directive
import Literate.Diagnostic

/-!
# Sessions

A session turns the lines of a tagged stream into reStructuredText. It is a state machine whose
step, `Session.feed`, gives for each line the pieces of text to write and at most one remark:

    line ──Directive.parse?──▶ directive ──Session.obey──▶ session × pieces × remark

The session knows nothing of writers: whether the pieces arrive anywhere is settled by whoever
runs it.
-/

namespace Literate

open Bytes Text

/-- The definition that the next code block belongs to. -/
structure Definition where
  /-- The name of the chunk. -/
  name : Bytes
  /-- Was there an earlier definition of the same name? -/
  continued : Bool
deriving DecidableEq, Repr

/-- Where a session stands between two lines. -/
structure Session where
  /-- The number of lines so far. -/
  lineNumber : Nat := 0
  /-- The kind of the open chunk, if one is open. -/
  chunk : Option Bytes := none
  /-- A code chunk was begun and its first line has not ended yet. -/
  headerDue : Bool := false
  /-- The names defined so far, newest first. -/
  defined : List Bytes := []
  /-- The latest definition. -/
  current : Option Definition := none
deriving DecidableEq, Repr

/-- What a session has to say about a line. -/
inductive Remark where
  /-- Something is wrong with it. -/
  | diagnostic (d : Diagnostic)
  /-- Its keyword has no meaning. -/
  | ignored (line : Nat) (keyword : Bytes)
  /-- It starts the text of a code block that no definition precedes. -/
  | undefinedBlock (line : Nat)
deriving DecidableEq, Repr

/-- The diagnostic of a remark, if it is one. -/
def Remark.diagnostic? : Remark → Option Diagnostic
  | .diagnostic d => some d
  | _ => none

/-- What one line brings about: pieces of text, each written by itself, and perhaps a remark. -/
structure Effect where
  pieces : List Bytes := []
  remark : Option Remark := none
deriving DecidableEq, Repr

/-- The kind of chunk whose lines are code. -/
def codeKind : Bytes := utf8 "code"

/-- The kind of chunk whose lines are documentation. -/
def docsKind : Bytes := utf8 "docs"

/-- The language in which a chunk of this name is highlighted. -/
def highlightLanguage (name : Bytes) : Bytes :=
  if (utf8 ".s").isSuffixOf name then utf8 "gas"
  else if (utf8 ".simple").isSuffixOf name then utf8 "none"
  else utf8 "c"

/-- The label of the target that a chunk of this name declares: spaces become underscores. -/
def anchorLabel (name : Bytes) : Bytes := replaceByte space 95 name

/-- The line that declares the target of a chunk. -/
def anchorLine (name : Bytes) : Bytes := utf8 ".. _" ++ anchorLabel name ++ utf8 ":\n"

/-- The line that introduces a code block, with a plus sign if it continues an earlier one. -/
def blockHeader (name : Bytes) (continued : Bool) : Bytes :=
  utf8 "``⟨" ++ name ++ utf8 "⟩" ++ (if continued then utf8 "+" else []) ++ utf8 "≡`` ::\n"

namespace Session

/-- The name that code blocks are headed with. -/
def currentName (s : Session) : Bytes := (s.current.map Definition.name).getD []

/-- Does the latest definition continue an earlier one? -/
def isContinued (s : Session) : Bool := (s.current.map Definition.continued).getD false

/-- The pieces that head a code block. -/
def header (s : Session) : List Bytes :=
  [utf8 ".. highlight:: " ++ highlightLanguage s.currentName ++ utf8 "\n\n",
    blockHeader s.currentName s.isContinued, utf8 "\t\n", utf8 "\t"]

/-- End a line. The first line of a code chunk is followed by the head of its block, and every
line of one by the indentation of the next. -/
def newline (s : Session) : Session × Effect :=
  if s.headerDue then
    ({ s with headerDue := false },
      { pieces := utf8 "\n" :: s.header
        remark := if s.current.isNone then some (.undefinedBlock s.lineNumber) else none })
  else if s.chunk = some codeKind then
    (s, { pieces := [utf8 "\n", utf8 "\t"] })
  else
    (s, { pieces := [utf8 "\n"] })

/-- Define a chunk. Its first definition declares a target. -/
def define (s : Session) (name : Bytes) : Session × Effect :=
  if name ∈ s.defined then
    ({ s with current := some ⟨name, true⟩ }, {})
  else
    ({ s with defined := name :: s.defined, current := some ⟨name, false⟩ },
      { pieces := [anchorLine name] })

/-- Open a chunk, whatever was open before. -/
def openChunk (s : Session) (kind : Bytes) : Session :=
  { s with chunk := some kind, headerDue := s.headerDue || kind = codeKind }

/-- The diagnostic for the end of a chunk of the given kind, unless just that kind is open. -/
def mismatch? (s : Session) (kind : Bytes) : Option Diagnostic :=
  if s.chunk = some kind then none
  else some {
    line := s.lineNumber
    fault := some .mismatchedEnd
    found := kind
    expected := s.chunk.getD (utf8 "none") }

/-- Close the chunk. A documentation chunk ends with an empty line. -/
def closeChunk (s : Session) (kind : Bytes) : Session × Effect :=
  ({ s with chunk := none },
    { pieces := if kind = docsKind then [utf8 "\n"] else []
      remark := (s.mismatch? kind).map .diagnostic })

/-- Carry out a directive that stands on the current line. -/
def obey (s : Session) : Directive → Session × Effect
  | .text arg => (s, { pieces := [arg] })
  | .newline => s.newline
  | .file _ => (s, {})
  | .defn name => s.define name
  | .quote => (s, { pieces := [utf8 "``"] })
  | .endquote => (s, { pieces := [utf8 "``"] })
  | .use name => (s, { pieces := [utf8 "<<" ++ name ++ utf8 ">>"] })
  | .beginChunk arg => (s.openChunk (firstField arg), {})
  | .endChunk arg => s.closeChunk (firstField arg)
  | .unknown keyword => (s, { remark := some (.ignored s.lineNumber keyword) })

/-- The diagnostic for a line that is no directive. -/
def malformed (s : Session) : Diagnostic := { line := s.lineNumber, fault := some .malformedLine }

/-- Take in one line, without its terminator. -/
def feed (s : Session) (line : Bytes) : Session × Effect :=
  let s := { s with lineNumber := s.lineNumber + 1 }
  match Directive.parse? line with
  | none => (s, { remark := some (.diagnostic s.malformed) })
  | some d => s.obey d

end Session

end Literate
