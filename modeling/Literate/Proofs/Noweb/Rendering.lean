import Mathlib.Data.Finset.Insert
import Literate.Proofs.Noweb.Line
import Literate.Proofs.Noweb.Scan
import Literate.Proofs.Session.History

/-!
# Rendering noweb source directly

How noweb source reads as reStructuredText, without a tagged stream in between:

    Renders kind defined lines out

says that the lines, met in a chunk of that kind after the names `defined`, read as `out`. Nothing
else is kept from line to line. `CodeText` and `DocsText` do the same for the text on one line, and
agree with what is shown of the directives that the line is split into (`codeText_iff`,
`docsText_iff`).
-/

namespace Literate.Noweb

open Bytes

/-! ### The text on a line -/

/-- What a line of code reads as: uses stay, and outside of them `@<<` becomes `<<`. -/
inductive CodeText : Bytes → Bytes → Prop
  | nil : CodeText [] []
  | escape {s t} : CodeText s t → CodeText (utf8 "@<<" ++ s) (utf8 "<<" ++ t)
  | use {name s t} : ¬ utf8 ">>" <:+: name ++ utf8 ">" → CodeText s t →
      CodeText (utf8 "<<" ++ name ++ utf8 ">>" ++ s) (utf8 "<<" ++ name ++ utf8 ">>" ++ t)
  | unclosed {s} : ¬ utf8 ">>" <:+: s → CodeText (utf8 "<<" ++ s) (utf8 "<<" ++ s)
  | byte {b s t} : ¬ utf8 "@<<" <+: b :: s → ¬ utf8 "<<" <+: b :: s → CodeText s t →
      CodeText (b :: s) (b :: t)

/-- What a line of documentation reads as: the first `[[` and the first `]]` after it become
literal marks, and so on after them. -/
inductive DocsText : Bytes → Bytes → Prop
  | plain {line} : ¬ HasQuote line → DocsText line line
  | quote {before quoted rest t} :
      ¬ utf8 "[[" <:+: before ++ utf8 "[" → ¬ utf8 "]]" <:+: quoted ++ utf8 "]" →
      DocsText rest t →
      DocsText (before ++ utf8 "[[" ++ quoted ++ utf8 "]]" ++ rest)
        (before ++ utf8 "``" ++ quoted ++ utf8 "``" ++ t)

/-- The text that a directive stands for inside of a line. -/
def inline? : Directive → Option Bytes
  | .text s => some s
  | .use name => some (utf8 "<<" ++ name ++ utf8 ">>")
  | .quote | .endquote => some (utf8 "``")
  | _ => none

/-- What is shown of the directives of a line. -/
def shown (ds : List Directive) : Bytes := ds.flatMap fun d => (inline? d).getD []

@[simp] theorem shown_nil : shown [] = [] := rfl

@[simp] theorem shown_cons (d : Directive) (ds : List Directive) :
    shown (d :: ds) = (inline? d).getD [] ++ shown ds := rfl

@[simp] theorem shown_append (ds ds' : List Directive) :
    shown (ds ++ ds') = shown ds ++ shown ds' := List.flatMap_append

@[simp] theorem shown_piece (text : Bytes) : shown (piece text) = text := by
  unfold piece
  split
  · next h => rw [h, shown_nil]
  · exact List.append_nil text

/-- What a line of code reads as is what is shown of a derivation of it. -/
theorem CodeText.exists_codeScan {s t : Bytes} (h : CodeText s t) (text : Bytes) :
    ∃ ds, CodeScan text s ds ∧ shown ds = text ++ t := by
  -- for any pending text, since every rule changes it
  induction h generalizing text with
  | nil => exact ⟨_, .stop, by simp⟩
  | escape _ ih =>
      obtain ⟨ds, hscan, hshown⟩ := ih (text ++ utf8 "<<")
      exact ⟨ds, .escape hscan, by rw [hshown, List.append_assoc]⟩
  | use hname _ ih =>
      obtain ⟨ds, hscan, hshown⟩ := ih []
      exact ⟨_, .use hname hscan, by simp [inline?, hshown]⟩
  | unclosed hs => exact ⟨_, .unclosed hs, shown_piece _⟩
  | byte hescape hopen _ ih =>
      obtain ⟨ds, hscan, hshown⟩ := ih (text ++ [_])
      exact ⟨ds, .byte hescape hopen hscan, by simp [hshown]⟩

theorem exists_codeText (s : Bytes) : ∃ t, CodeText s t := by
  have hscan := codeScan_codeLine s
  generalize codeLine s = ds, ([] : Bytes) = text at hscan
  induction hscan with
  | stop => exact ⟨[], .nil⟩
  | escape _ ih =>
      obtain ⟨t, ht⟩ := ih
      exact ⟨_, ht.escape⟩
  | use hname _ ih =>
      obtain ⟨t, ht⟩ := ih
      exact ⟨_, ht.use hname⟩
  | unclosed hrest => exact ⟨_, .unclosed hrest⟩
  | byte hescape hopen _ ih =>
      obtain ⟨t, ht⟩ := ih
      exact ⟨_, ht.byte hescape hopen⟩

/-- The text of a code line is what is shown of its directives. -/
theorem codeText_iff {s t : Bytes} : CodeText s t ↔ shown (codeLine s) = t := by
  have hmp {t : Bytes} (h : CodeText s t) : shown (codeLine s) = t := by
    obtain ⟨ds, hscan, hshown⟩ := h.exists_codeScan []
    rw [hscan.codeLine_eq, hshown, List.nil_append]
  refine ⟨hmp, ?_⟩
  rintro rfl
  -- the line reads as something, and that can only be what is shown
  obtain ⟨t, ht⟩ := exists_codeText s
  rwa [hmp ht]

theorem DocsText.exists_docsScan {line t : Bytes} (h : DocsText line t) :
    ∃ ds, DocsScan line ds ∧ shown ds = t := by
  induction h with
  | plain hplain => exact ⟨_, .plain hplain, shown_piece _⟩
  | quote hbefore hquoted _ ih =>
      obtain ⟨ds, hscan, hshown⟩ := ih
      exact ⟨_, .quote hbefore hquoted hscan, by simp [inline?, hshown]⟩

theorem exists_docsText (line : Bytes) : ∃ t, DocsText line t := by
  have hscan := docsScan_docsLine line
  generalize docsLine line = ds at hscan
  induction hscan with
  | plain hplain => exact ⟨_, .plain hplain⟩
  | quote hbefore hquoted _ ih =>
      obtain ⟨t, ht⟩ := ih
      exact ⟨_, ht.quote hbefore hquoted⟩

theorem docsText_iff {line t : Bytes} : DocsText line t ↔ shown (docsLine line) = t := by
  have hmp {t : Bytes} (h : DocsText line t) : shown (docsLine line) = t := by
    obtain ⟨ds, hscan, hshown⟩ := h.exists_docsScan
    rw [hscan.docsLine_eq, hshown]
  refine ⟨hmp, ?_⟩
  rintro rfl
  obtain ⟨t, ht⟩ := exists_docsText line
  rwa [hmp ht]

/-! ### The whole source -/

/-- What ends a chunk: documentation is followed by an empty line. -/
def gap : Kind → Bytes
  | .docs => utf8 "\n"
  | .code => []

/-- What one line reads as, and the kind of chunk and the defined names after it. -/
inductive RendersLine : Kind → Finset Bytes → Bytes → Bytes → Kind → Finset Bytes → Prop
  | definition {kind defined line name} : IsDefinition line name →
      RendersLine kind defined line
        (gap kind ++ (if name ∈ defined then [] else History.targetLine name) ++ utf8 "\n" ++
          History.blockHead name (name ∈ defined))
        .code (insert name defined)
  | docsStart {kind defined line rest t} : IsDocsStart line rest → DocsText rest t →
      RendersLine kind defined line (gap kind ++ t ++ utf8 "\n") .docs defined
  | code {defined line t} : ¬ IsHeading line → CodeText line t →
      RendersLine .code defined line (t ++ utf8 "\n\t") .code defined
  | docs {defined line t} : ¬ IsHeading line → ¬ utf8 "@@" <+: line → DocsText line t →
      RendersLine .docs defined line (t ++ utf8 "\n") .docs defined
  | escaped {defined rest t} : DocsText (utf8 "@" ++ rest) t →
      RendersLine .docs defined (utf8 "@@" ++ rest) (t ++ utf8 "\n") .docs defined

/-- What lines read as, from a kind of chunk and the names defined before. -/
inductive Renders : Kind → Finset Bytes → List Bytes → Bytes → Prop
  | nil {kind defined} : Renders kind defined [] (gap kind)
  | cons {kind defined line out kind' defined' ls out'} :
      RendersLine kind defined line out kind' defined' → Renders kind' defined' ls out' →
      Renders kind defined (line :: ls) (out ++ out')

theorem exists_rendersLine (kind : Kind) (defined : Finset Bytes) (line : Bytes) :
    ∃ out kind' defined', RendersLine kind defined line out kind' defined' := by
  by_cases hheading : IsHeading line
  · rcases hheading with ⟨name, hname⟩ | ⟨rest, hrest⟩
    · exact ⟨_, _, _, .definition hname⟩
    · obtain ⟨t, ht⟩ := exists_docsText rest
      exact ⟨_, _, _, .docsStart hrest ht⟩
  · cases kind with
    | code =>
        obtain ⟨t, ht⟩ := exists_codeText line
        exact ⟨_, _, _, .code hheading ht⟩
    | docs =>
        by_cases hat : utf8 "@@" <+: line
        · obtain ⟨rest, rfl⟩ := hat
          obtain ⟨t, ht⟩ := exists_docsText (utf8 "@" ++ rest)
          exact ⟨_, _, _, .escaped ht⟩
        · obtain ⟨t, ht⟩ := exists_docsText line
          exact ⟨_, _, _, .docs hheading hat ht⟩

theorem exists_renders (kind : Kind) (defined : Finset Bytes) (ls : List Bytes) :
    ∃ out, Renders kind defined ls out := by
  induction ls generalizing kind defined with
  | nil => exact ⟨gap kind, .nil⟩
  | cons line ls ih =>
      obtain ⟨out, kind', defined', hline⟩ := exists_rendersLine kind defined line
      obtain ⟨out', hrest⟩ := ih kind' defined'
      exact ⟨out ++ out', .cons hline hrest⟩

end Literate.Noweb
