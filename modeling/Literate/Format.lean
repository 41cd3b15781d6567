import Literate.Noweb.Markup
import Literate.Session.Run
import Literate.Path
import Literate.Text.Lower

/-!
# Input formats

An input is either a tagged stream already, or noweb source that is marked up first. `convert`
takes either to reStructuredText:

    noweb source ──markup──▶ tagged stream ──Session.run──▶ reStructuredText

Noweb source is read to its end before the first byte is written, so a source that breaks off
writes nothing; a tagged stream is converted as far as it goes.
-/

namespace Literate

open Bytes Text

/-- The form an input comes in. -/
inductive Format where
  | tagged
  | noweb
deriving DecidableEq, Repr

/-- A format that nobody knows. -/
structure UnsupportedFormat where
  name : Bytes
deriving DecidableEq, Repr

/-- The text of the error. -/
def UnsupportedFormat.text (e : UnsupportedFormat) : Bytes :=
  utf8 "unsupported input format: " ++ e.name

/-- Why a conversion ended early. -/
inductive ConversionError where
  /-- The source of the given name could not be marked up. -/
  | markup (name : Bytes) (why : Noweb.MarkupError)
  /-- The tagged stream could not be run to its end. -/
  | run (why : RunError)
deriving DecidableEq, Repr

/-- The text of the error. -/
def ConversionError.text : ConversionError → Bytes
  | .markup name why => utf8 "markup " ++ name ++ utf8 ": " ++ why.text
  | .run why => why.text

/-- The failure behind the error. -/
def ConversionError.failure : ConversionError → Failure
  | .markup _ why => why.failure
  | .run why => why.failure

/-- What a conversion leaves behind. -/
structure Conversion (σ : Type) where
  out : σ
  /-- The remarks, in order. -/
  remarks : List Remark := []
  error : Option ConversionError := none

/-- The diagnostics of a conversion, in order. -/
def Conversion.diagnostics {σ : Type} (c : Conversion σ) : List Diagnostic :=
  c.remarks.filterMap Remark.diagnostic?

namespace Format

/-- Does the file name say that the file is noweb source? -/
def isNowebName (name : Bytes) : Bool :=
  let ext := lower (Path.ext name)
  ext = utf8 ".nw" || ext = utf8 ".noweb"

/-- The format of a file, by its name. Everything that is not noweb source is a tagged stream. -/
def ofFileName (name : Bytes) : Format := if isNowebName name then .noweb else .tagged

/-- The format of the given name, in any case; the empty name is a tagged stream. -/
def ofName (name : Bytes) : Except UnsupportedFormat Format :=
  let key := lower name
  if key = [] ∨ key = utf8 "tagged" then .ok .tagged
  else if key = utf8 "nw" ∨ key = utf8 "noweb" then .ok .noweb
  else .error ⟨name⟩

/-- The tagged stream of an input called `name`. -/
def prepare (format : Format) (name : Bytes) (input : Intake) : Except ConversionError Intake :=
  match format with
  | .tagged => .ok input
  | .noweb =>
    match Noweb.markup ({} : Sink) name input with
    | (_, some why) => .error (.markup name why)
    | (sink, none) => .ok ⟨sink.contents, none⟩

/-- Convert an input called `name`, writing to `out`. -/
def convert {σ : Type} [Writer σ] (format : Format) (name : Bytes) (input : Intake) (out : σ) :
    Conversion σ :=
  match format.prepare name input with
  | .error e => { out, error := some e }
  | .ok stream =>
    match Session.run out stream with
    | ⟨run, error⟩ =>
      { out := run.out, remarks := run.remarks.reverse, error := error.map .run }

end Format

end Literate
