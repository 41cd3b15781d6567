import Mathlib.Data.List.Chain
import Literate.Proofs.Noweb.Markup

/-!
# The shape of the stream

The stream of a source is a list of chunks, numbered from 0, each between its beginning and its end.
A `Chunk` can only hold lines of its own kind: texts and uses in code, texts and quotes in
documentation.

    source                   sections                     chunks
    intro                    lead       intro             docs 0   intro
    <<a>>=                   <<a>>=     x                 code 1   defn a, x
    x
    @ y                      @ y        z                 docs 2   y, z
    z

`sections` cuts the source lines at the headings, and each section makes one chunk: its lines are
the scans of the lines of the section, in order (`MarksUp`). Marking up line by line comes to the
same (`Marker.body_eq_numbered`), by an induction over the source lines in which the lines of the
chunk still open stand apart. So a source has just one stream (`IsStreamOf.unique`), and
`markup_isStreamOf` says that it is written.
-/

namespace Literate

/-- The name that a directive defines. -/
def Directive.definition? : Directive → Option Bytes
  | .defn name => some name
  | _ => none

def Directive.isText : Directive → Bool
  | .text _ => true
  | _ => false

namespace Noweb

open Bytes

/-! ### Lines -/

/-- A line of code: texts, none of them empty and no two of them adjacent, and uses. -/
structure IsCodeLine (ds : List Directive) : Prop where
  item : ∀ d ∈ ds, (∃ s, s ≠ [] ∧ d = .text s) ∨ ∃ name, d = .use name
  apart : ds.IsChain fun d e => ¬ (d.isText ∧ e.isText)

/-- A line of documentation: texts, none of them empty, and quotes of at most one text. -/
inductive IsDocsLine : List Directive → Prop
  | nil : IsDocsLine []
  | text {s ds} : s ≠ [] → IsDocsLine ds → IsDocsLine (.text s :: ds)
  | quote {quoted ds} : quoted = [] ∨ (∃ s, s ≠ [] ∧ quoted = [.text s]) → IsDocsLine ds →
      IsDocsLine (.quote :: quoted ++ .endquote :: ds)

theorem piece_cases (text : Bytes) :
    piece text = [] ∨ ∃ s, s ≠ [] ∧ piece text = [.text s] := by
  by_cases htext : text = []
  · exact .inl (if_pos htext)
  · exact .inr ⟨text, htext, if_neg htext⟩

theorem isCodeLine_piece (text : Bytes) : IsCodeLine (piece text) := by
  rcases piece_cases text with h | ⟨s, hs, h⟩
  · rw [h]
    exact ⟨by simp, .nil⟩
  · rw [h]
    exact ⟨by simp [hs], .singleton _⟩

/-- A use keeps the texts on its two sides apart. -/
theorem IsCodeLine.append_use {ds ds' : List Directive} (h : IsCodeLine ds) (h' : IsCodeLine ds')
    (name : Bytes) : IsCodeLine (ds ++ .use name :: ds') := by
  constructor
  · intro d hd
    rcases List.mem_append.mp hd with hd | hd
    · exact h.item d hd
    · rcases List.mem_cons.mp hd with rfl | hd
      · exact .inr ⟨name, rfl⟩
      · exact h'.item d hd
  · rw [List.isChain_append, List.isChain_cons]
    refine ⟨h.apart, ⟨?_, h'.apart⟩, ?_⟩
    · rintro e - ⟨huse, -⟩
      cases huse
    · intro d _ e he
      cases he
      rintro ⟨-, huse⟩
      cases huse

theorem isCodeLine_codeLine (line : Bytes) : IsCodeLine (codeLine line) := by
  have hscan := codeScan_codeLine line
  generalize codeLine line = ds, ([] : Bytes) = text at hscan
  induction hscan with
  | stop => exact isCodeLine_piece _
  | escape _ ih => exact ih
  | use _ _ ih => exact (isCodeLine_piece _).append_use ih _
  | unclosed _ => exact isCodeLine_piece _
  | byte _ _ _ ih => exact ih

theorem IsDocsLine.piece_append {ds : List Directive} (h : IsDocsLine ds) (text : Bytes) :
    IsDocsLine (piece text ++ ds) := by
  rcases piece_cases text with htext | ⟨s, hs, htext⟩
  · rw [htext]
    exact h
  · rw [htext]
    exact .text hs h

theorem isDocsLine_docsLine (line : Bytes) : IsDocsLine (docsLine line) := by
  have hscan := docsScan_docsLine line
  generalize docsLine line = ds at hscan
  induction hscan with
  | @plain line _ =>
      have h := IsDocsLine.nil.piece_append line
      rwa [List.append_nil] at h
  | @quote before quoted rest ds _ _ _ ih =>
      have h := (IsDocsLine.quote (piece_cases quoted) ih).piece_append before
      rwa [← List.append_assoc] at h

theorem IsDocsLine.item {ds : List Directive} (h : IsDocsLine ds) :
    ∀ d ∈ ds, (∃ s, s ≠ [] ∧ d = .text s) ∨ d = .quote ∨ d = .endquote := by
  induction h with
  | nil => simp
  | @text s ds hs _ ih =>
      intro d hd
      rcases List.mem_cons.mp hd with rfl | hd
      · exact .inl ⟨s, hs, rfl⟩
      · exact ih d hd
  | @quote quoted ds hquoted _ ih =>
      intro d hd
      simp only [List.cons_append, List.mem_cons, List.mem_append] at hd
      rcases hd with rfl | hd | rfl | hd
      · exact .inr (.inl rfl)
      · rcases hquoted with rfl | ⟨s, hs, rfl⟩
        · cases hd
        · exact .inl ⟨s, hs, List.mem_singleton.mp hd⟩
      · exact .inr (.inr rfl)
      · exact ih d hd

/-! ### Plain lines

A line that is no heading is scanned as the chunk it is in asks for. -/

/-- The lines that a chunk of the given kind can have. -/
def Kind.Fits : Kind → List Directive → Prop
  | .docs => IsDocsLine
  | .code => IsCodeLine

/-- The directives of a plain line in a chunk of the given kind. -/
inductive Scans : Kind → Bytes → List Directive → Prop
  | code {line ds} : CodeScan [] line ds → Scans .code line ds
  | docs {line ds} : ¬ utf8 "@@" <+: line → DocsScan line ds → Scans .docs line ds
  /-- At the start of a line `@@` stands for `@`. -/
  | escaped {rest ds} : DocsScan (utf8 "@" ++ rest) ds → Scans .docs (utf8 "@@" ++ rest) ds

/-- Scan a plain line. -/
def Kind.scan : Kind → Bytes → List Directive
  | .docs, line => docsLine (Marker.unescapeDocs line)
  | .code, line => codeLine line

theorem unescapeDocs_of_not_prefix {line : Bytes} (h : ¬ utf8 "@@" <+: line) :
    Marker.unescapeDocs line = line := by
  rw [Marker.unescapeDocs, if_neg]
  rwa [List.isPrefixOf_iff_prefix]

theorem scans_iff {kind : Kind} {line : Bytes} {ds : List Directive} :
    Scans kind line ds ↔ kind.scan line = ds := by
  constructor
  · intro h
    cases h with
    | code hscan => exact hscan.codeLine_eq
    | docs hat hscan =>
        rw [Kind.scan, unescapeDocs_of_not_prefix hat]
        exact hscan.docsLine_eq
    | escaped hscan => exact hscan.docsLine_eq
  · rintro rfl
    cases kind with
    | code => exact .code (codeScan_codeLine line)
    | docs =>
        by_cases hat : utf8 "@@" <+: line
        · obtain ⟨rest, rfl⟩ := hat
          exact .escaped (docsScan_docsLine _)
        · rw [Kind.scan, unescapeDocs_of_not_prefix hat]
          exact .docs hat (docsScan_docsLine line)

theorem forall₂_scans_iff {kind : Kind} {plain : List Bytes} {lines : List (List Directive)} :
    List.Forall₂ (Scans kind) plain lines ↔ plain.map kind.scan = lines := by
  have hscans : Scans kind = fun line ds => kind.scan line = ds := by
    ext line ds
    exact scans_iff
  rw [hscans, ← List.forall₂_map_left_iff, List.forall₂_eq_eq_eq]

theorem Kind.fits_scan (kind : Kind) (line : Bytes) : kind.Fits (kind.scan line) := by
  cases kind with
  | code => exact isCodeLine_codeLine line
  | docs => exact isDocsLine_docsLine _

theorem Kind.fits_map_scan (kind : Kind) (plain : List Bytes) :
    ∀ ds ∈ plain.map kind.scan, kind.Fits ds := by
  intro ds hds
  obtain ⟨line, -, rfl⟩ := List.mem_map.mp hds
  exact kind.fits_scan line

theorem Marker.line_of_plain (m : Marker) {line : Bytes} (h : ¬ IsHeading line) :
    m.line line = (m, m.kind.scan line ++ [.newline]) := by
  rw [m.line_of_not_isHeading h]
  cases m.kind <;> rfl

/-! ### Chunks -/

/-- Lines of directives, each one closed by the end of a source line. -/
def closed (lines : List (List Directive)) : List Directive := lines.flatMap (· ++ [.newline])

@[simp] theorem closed_nil : closed [] = [] := rfl

@[simp] theorem closed_cons (ds : List Directive) (lines : List (List Directive)) :
    closed (ds :: lines) = ds ++ .newline :: closed lines := by
  simp [closed]

/-- A chunk of the stream, by its lines; a code chunk has a name. -/
inductive Chunk where
  | docs (lines : List (List Directive)) (fit : ∀ ds ∈ lines, IsDocsLine ds)
  | code (name : Bytes) (lines : List (List Directive)) (fit : ∀ ds ∈ lines, IsCodeLine ds)

namespace Chunk

def kind : Chunk → Kind
  | .docs .. => .docs
  | .code .. => .code

def name? : Chunk → Option Bytes
  | .docs .. => none
  | .code name .. => some name

def lines : Chunk → List (List Directive)
  | .docs lines _ => lines
  | .code _ lines _ => lines

/-- What stands between the beginning and the end of a chunk. -/
def body : Chunk → List Directive
  | .docs lines _ => closed lines
  | .code name lines _ => .defn name :: .newline :: closed lines

/-- The directives of the chunk with the given number. -/
def directives (c : Chunk) (number : Nat) : List Directive :=
  .beginChunk (c.kind.name ++ space :: decimal number) :: c.body ++
    [.endChunk (c.kind.name ++ space :: decimal number)]

theorem directives_eq (c : Chunk) (number : Nat) :
    c.directives number = (⟨c.kind, number⟩ : Marker).opening :: c.body ++
      [(⟨c.kind, number⟩ : Marker).closing] := rfl

end Chunk

/-- Chunks one after the other, numbered from `number` on. -/
def numbered (number : Nat) (chunks : List Chunk) : List Directive :=
  (chunks.zipIdx number).flatMap fun p => p.1.directives p.2

@[simp] theorem numbered_nil (number : Nat) : numbered number [] = [] := rfl

@[simp] theorem numbered_cons (number : Nat) (c : Chunk) (chunks : List Chunk) :
    numbered number (c :: chunks) = c.directives number ++ numbered (number + 1) chunks := by
  simp [numbered, List.zipIdx_cons]

/-! ### Sections -/

/-- The lines before the first heading, and each heading with the plain lines after it. -/
def sections : List Bytes → List Bytes × List (Bytes × List Bytes)
  | [] => ([], [])
  | line :: ls =>
    match sections ls with
    | (lead, others) => if IsHeading line then ([], (line, lead) :: others) else (line :: lead, others)

theorem sections_of_isHeading {line : Bytes} (h : IsHeading line) (ls : List Bytes) :
    sections (line :: ls) = ([], (line, (sections ls).1) :: (sections ls).2) := if_pos h

theorem sections_of_plain {line : Bytes} (h : ¬ IsHeading line) (ls : List Bytes) :
    sections (line :: ls) = (line :: (sections ls).1, (sections ls).2) := if_neg h

theorem map_fst_sections (ls : List Bytes) :
    (sections ls).2.map Prod.fst = ls.filter (IsHeading ·) := by
  induction ls with
  | nil => rfl
  | cons line ls ih =>
      by_cases hheading : IsHeading line
      · rw [sections_of_isHeading hheading, List.map_cons, ih,
          List.filter_cons_of_pos (by simpa using hheading)]
      · rw [sections_of_plain hheading, ih, List.filter_cons_of_neg (by simpa using hheading)]

/-- The chunk is what a heading and the plain lines after it are marked up as: the scans of the
lines, in order. Documentation may start on the line of its heading. -/
inductive MarksUp : Bytes × List Bytes → Chunk → Prop
  | code {heading name plain lines fit} : IsDefinition heading name →
      List.Forall₂ (Scans .code) plain lines → MarksUp (heading, plain) (.code name lines fit)
  | docs {heading rest plain ds lines fit} : IsDocsStart heading rest → DocsScan rest ds →
      List.Forall₂ (Scans .docs) plain lines → MarksUp (heading, plain) (.docs (ds :: lines) fit)

theorem isDocsLine_docsStartText (line : Bytes) : IsDocsLine (Marker.docsStartText line) := by
  rw [Marker.docsStartText]
  split
  · exact isDocsLine_docsLine _
  · exact .nil

namespace Chunk

/-- The chunk before the first heading. -/
def ofLead (plain : List Bytes) : Chunk :=
  .docs (plain.map (Kind.scan .docs)) (Kind.fits_map_scan .docs plain)

/-- The chunk that a section makes. -/
def ofSection (s : Bytes × List Bytes) : Chunk :=
  match definitionName? s.1 with
  | some name => .code name (s.2.map (Kind.scan .code)) (Kind.fits_map_scan .code s.2)
  | none =>
    .docs (Marker.docsStartText s.1 :: s.2.map (Kind.scan .docs))
      (List.forall_mem_cons.mpr ⟨isDocsLine_docsStartText s.1, Kind.fits_map_scan .docs s.2⟩)

theorem ofSection_of_isDefinition {heading name : Bytes} (h : IsDefinition heading name)
    (plain : List Bytes) : ofSection (heading, plain) =
      .code name (plain.map (Kind.scan .code)) (Kind.fits_map_scan .code plain) := by
  simp only [ofSection, definitionName?_of_isDefinition h]

theorem ofSection_of_isDocsStart {heading rest : Bytes} (h : IsDocsStart heading rest)
    (plain : List Bytes) : ∃ fit, ofSection (heading, plain) =
      .docs (docsLine rest :: plain.map (Kind.scan .docs)) fit := by
  have fit : ∀ ds ∈ docsLine rest :: plain.map (Kind.scan .docs), IsDocsLine ds :=
    List.forall_mem_cons.mpr ⟨isDocsLine_docsLine rest, Kind.fits_map_scan .docs plain⟩
  refine ⟨fit, ?_⟩
  simp only [ofSection, definitionName?_of_isDocsStart h, docsStartText_eq h]

end Chunk

theorem marksUp_ofSection {heading : Bytes} (h : IsHeading heading) (plain : List Bytes) :
    MarksUp (heading, plain) (.ofSection (heading, plain)) := by
  rcases h with ⟨name, hname⟩ | ⟨rest, hrest⟩
  · rw [Chunk.ofSection_of_isDefinition hname]
    exact .code hname (forall₂_scans_iff.mpr rfl)
  · obtain ⟨fit, heq⟩ := Chunk.ofSection_of_isDocsStart hrest plain
    rw [heq]
    exact .docs hrest (docsScan_docsLine rest) (forall₂_scans_iff.mpr rfl)

theorem MarksUp.eq_ofSection {s : Bytes × List Bytes} {c : Chunk} (h : MarksUp s c) :
    c = .ofSection s := by
  cases h with
  | code hname hlines =>
      obtain rfl := forall₂_scans_iff.mp hlines
      rw [Chunk.ofSection_of_isDefinition hname]
  | @docs _ _ plain _ _ _ hrest hfirst hlines =>
      obtain rfl := forall₂_scans_iff.mp hlines
      obtain rfl := hfirst.docsLine_eq
      obtain ⟨fit, heq⟩ := Chunk.ofSection_of_isDocsStart hrest plain
      rw [heq]

/-- The chunks of a source. -/
def chunks (ls : List Bytes) : List Chunk :=
  .ofLead (sections ls).1 :: (sections ls).2.map Chunk.ofSection

theorem forall₂_marksUp_iff {ss : List (Bytes × List Bytes)} (h : ∀ s ∈ ss, IsHeading s.1)
    {cs : List Chunk} : List.Forall₂ MarksUp ss cs ↔ ss.map Chunk.ofSection = cs := by
  constructor
  · intro hcs
    induction hcs with
    | nil => rfl
    | cons hc _ ih =>
        rw [List.map_cons, ih fun s hs => h s (List.mem_cons_of_mem _ hs), ← hc.eq_ofSection]
  · rintro rfl
    rw [List.forall₂_map_right_iff, List.forall₂_same]
    exact fun s hs => marksUp_ofSection (h s hs) s.2

theorem isHeading_of_mem_sections {ls : List Bytes} :
    ∀ s ∈ (sections ls).2, IsHeading s.1 := by
  intro s hs
  have hmem : s.1 ∈ (sections ls).2.map Prod.fst := List.mem_map_of_mem hs
  rw [map_fst_sections, List.mem_filter] at hmem
  exact of_decide_eq_true hmem.2

theorem Marker.body_eq_numbered (m : Marker) (ls : List Bytes) :
    m.body ls ++ [(m.after ls).closing] =
      closed ((sections ls).1.map m.kind.scan) ++ m.closing ::
        numbered (m.number + 1) ((sections ls).2.map Chunk.ofSection) := by
  -- The chunk open at `m` began before these lines, so all they give of it is their lead. A heading
  -- ends it, and the lead of the lines after the heading is the rest of the chunk it starts.
  induction ls generalizing m with
  | nil => simp [Marker.body, Marker.after, sections]
  | cons line ls ih =>
      rw [Marker.body_cons, Marker.after_cons, List.append_assoc, ih]
      by_cases hheading : IsHeading line
      · rw [sections_of_isHeading hheading]
        rcases hheading with ⟨name, hname⟩ | ⟨rest, hrest⟩
        · rw [m.line_of_isDefinition hname, List.map_cons,
            Chunk.ofSection_of_isDefinition hname]
          simp [Chunk.directives_eq, Chunk.body, Chunk.kind, Marker.next]
        · obtain ⟨fit, heq⟩ := Chunk.ofSection_of_isDocsStart hrest (sections ls).1
          rw [m.line_of_isDocsStart hrest, List.map_cons, heq]
          simp [Chunk.directives_eq, Chunk.body, Chunk.kind, Marker.next]
      · rw [m.line_of_plain hheading, sections_of_plain hheading]
        simp

theorem directives_eq_numbered (name : Bytes) (ls : List Bytes) :
    directives name ls =
      (if name = [] then [] else [.file name]) ++ numbered 0 (chunks ls) := by
  rw [directives_eq, preamble, List.append_assoc, Marker.body_eq_numbered]
  simp [chunks, Chunk.ofLead, Chunk.directives_eq, Chunk.body, Chunk.kind]

/-! ### What a chunk leaves out

A line of either kind has no line end and defines nothing, code has no quotes and documentation no
uses. -/

theorem mem_closed {d : Directive} {lines : List (List Directive)} :
    d ∈ closed lines ↔ ∃ ds ∈ lines, d ∈ ds ∨ d = .newline := by
  simp [closed]

theorem Kind.Fits.not_mem_newline {k : Kind} {ds : List Directive} (h : k.Fits ds) :
    .newline ∉ ds := by
  intro hmem
  cases k with
  | docs => rcases IsDocsLine.item h _ hmem with ⟨s, -, hd⟩ | hd | hd <;> cases hd
  | code => rcases IsCodeLine.item h _ hmem with ⟨s, -, hd⟩ | ⟨name, hd⟩ <;> cases hd

theorem Kind.Fits.definition?_eq_none {k : Kind} {ds : List Directive} (h : k.Fits ds) :
    ∀ d ∈ ds, d.definition? = none := by
  intro d hmem
  cases k with
  | docs => rcases IsDocsLine.item h d hmem with ⟨s, -, rfl⟩ | rfl | rfl <;> rfl
  | code => rcases IsCodeLine.item h d hmem with ⟨s, -, rfl⟩ | ⟨name, rfl⟩ <;> rfl

theorem definitions_closed {k : Kind} {lines : List (List Directive)}
    (h : ∀ ds ∈ lines, k.Fits ds) : (closed lines).filterMap Directive.definition? = [] := by
  rw [List.filterMap_eq_nil_iff]
  intro d hd
  obtain ⟨ds, hds, hd | rfl⟩ := mem_closed.mp hd
  · exact (h ds hds).definition?_eq_none d hd
  · rfl

namespace Chunk

theorem definitions_body (c : Chunk) :
    c.body.filterMap Directive.definition? = c.name?.toList := by
  cases c with
  | docs lines fit => exact @definitions_closed .docs lines fit
  | code name lines fit =>
      show name :: (closed lines).filterMap Directive.definition? = [name]
      rw [@definitions_closed .code lines fit]

theorem quote_not_mem_body {c : Chunk} (hc : c.kind = .code) :
    .quote ∉ c.body ∧ .endquote ∉ c.body := by
  cases c with
  | docs lines fit => cases hc
  | code name lines fit =>
      have hlines : .quote ∉ closed lines ∧ .endquote ∉ closed lines := by
        constructor <;> intro hmem <;> obtain ⟨ds, hds, hd | hd⟩ := mem_closed.mp hmem
        · rcases (fit ds hds).item _ hd with ⟨s, -, hd⟩ | ⟨name, hd⟩ <;> cases hd
        · cases hd
        · rcases (fit ds hds).item _ hd with ⟨s, -, hd⟩ | ⟨name, hd⟩ <;> cases hd
        · cases hd
      simpa [body] using hlines

theorem use_not_mem_body {c : Chunk} (hc : c.kind = .docs) (name : Bytes) :
    .use name ∉ c.body := by
  cases c with
  | code name lines fit => cases hc
  | docs lines fit =>
      intro hmem
      obtain ⟨ds, hds, hd | hd⟩ := mem_closed.mp hmem
      · rcases (fit ds hds).item _ hd with ⟨s, -, hd⟩ | hd | hd <;> cases hd
      · cases hd

end Chunk

theorem definitions_numbered (number : Nat) (chunks : List Chunk) :
    (numbered number chunks).filterMap Directive.definition? = chunks.filterMap Chunk.name? := by
  induction chunks generalizing number with
  | nil => rfl
  | cons c chunks ih =>
      have hc : (c.directives number).filterMap Directive.definition? = c.name?.toList := by
        show (c.body ++ [Directive.endChunk _]).filterMap Directive.definition? = _
        rw [List.filterMap_append, c.definitions_body]
        exact List.append_nil _
      rw [numbered_cons, List.filterMap_append, hc, ih]
      cases hname : c.name? with
      | none => simp [hname]
      | some name => simp [hname]

theorem Marker.count_newline_line (m : Marker) (line : Bytes) :
    (m.line line).2.count .newline = 1 := by
  have hdocs : ∀ l, (docsLine l).count .newline = 0 := fun l =>
    List.count_eq_zero.mpr (Kind.Fits.not_mem_newline (k := .docs) (isDocsLine_docsLine l))
  have hcode : (codeLine line).count .newline = 0 :=
    List.count_eq_zero.mpr (Kind.Fits.not_mem_newline (k := .code) (isCodeLine_codeLine line))
  rcases m.line_cases line with ⟨name, -, h⟩ | ⟨rest, -, h⟩ | ⟨-, -, h⟩ | ⟨-, -, h⟩
  · rw [h]
    rfl
  · rw [h, List.cons_append, List.cons_append]
    simp [Marker.closing, Marker.opening, hdocs]
  · rw [h]
    simp [hcode]
  · rw [h]
    simp [hdocs]

theorem Marker.count_newline_body (m : Marker) (ls : List Bytes) :
    (m.body ls).count .newline = ls.length := by
  induction ls generalizing m with
  | nil => rfl
  | cons line ls ih =>
      rw [Marker.body_cons, List.count_append, m.count_newline_line, ih, List.length_cons,
        Nat.add_comm]

theorem count_newline_directives (name : Bytes) (ls : List Bytes) :
    (directives name ls).count .newline = ls.length := by
  have hpreamble : (preamble name).count .newline = 0 := by
    rw [preamble]
    split <;> rfl
  rw [directives_eq, List.count_append, List.count_append, hpreamble, Marker.count_newline_body]
  simp [Marker.closing]

/-! ### The whole stream -/

/-- The directives are the stream of a source with the given name and lines, by its chunks. -/
structure IsStreamOf (name : Bytes) (ls : List Bytes) (ds : List Directive) (cs : List Chunk) :
    Prop where
  eq_numbered : ds = (if name = [] then [] else [.file name]) ++ numbered 0 cs
  /-- The first chunk is documentation and holds the lines before the first heading. -/
  first : ∃ lines fit, cs.head? = some (.docs lines fit) ∧
    List.Forall₂ (Scans .docs) (sections ls).1 lines
  /-- Each heading starts one of the others, which holds the lines up to the next heading. -/
  others : List.Forall₂ MarksUp (sections ls).2 cs.tail
  length_eq : cs.length = (ls.filter (IsHeading ·)).length + 1
  definitions : ds.filterMap Directive.definition? = cs.filterMap Chunk.name?
  quote_not_mem : ∀ c ∈ cs, c.kind = .code → .quote ∉ c.body ∧ .endquote ∉ c.body
  use_not_mem : ∀ c ∈ cs, c.kind = .docs → ∀ used, .use used ∉ c.body
  newlines : ds.count .newline = ls.length

theorem isStreamOf_directives (name : Bytes) (ls : List Bytes) :
    IsStreamOf name ls (directives name ls) (chunks ls) where
  eq_numbered := directives_eq_numbered name ls
  first := ⟨_, _, rfl, forall₂_scans_iff.mpr rfl⟩
  others := (forall₂_marksUp_iff isHeading_of_mem_sections).mpr rfl
  length_eq := by
    rw [← map_fst_sections, chunks, List.length_cons, List.length_map, List.length_map]
  definitions := by
    have hfile : (if name = [] then [] else [Directive.file name]).filterMap
        Directive.definition? = [] := by
      split <;> rfl
    rw [directives_eq_numbered, List.filterMap_append, hfile, definitions_numbered]
    rfl
  quote_not_mem := fun _ _ hc => Chunk.quote_not_mem_body hc
  use_not_mem := fun _ _ hc used => Chunk.use_not_mem_body hc used
  newlines := count_newline_directives name ls

/-- A source has no other stream, and it falls into no other chunks. -/
theorem IsStreamOf.unique {name : Bytes} {ls : List Bytes} {ds : List Directive}
    {cs : List Chunk} (h : IsStreamOf name ls ds cs) : ds = directives name ls ∧ cs = chunks ls := by
  obtain ⟨lines, fit, hhead, hlines⟩ := h.first
  obtain ⟨others, rfl⟩ := List.head?_eq_some_iff.mp hhead
  obtain rfl := forall₂_scans_iff.mp hlines
  have hothers := (forall₂_marksUp_iff isHeading_of_mem_sections).mp h.others
  rw [List.tail_cons] at hothers
  subst hothers
  exact ⟨h.eq_numbered.trans (directives_eq_numbered name ls).symm, rfl⟩

/-- **Marking up writes a well-formed stream.** Without a limit on the output nothing fails, each
directive is on a line of its own, and together they are the chunks that the source has headings
for, each with the scans of its source lines. Nothing else is a stream of that source. -/
theorem markup_isStreamOf (name source : Bytes) (hname : lf ∉ name) :
    ∃ ds cs, (markup ({} : Sink) name ⟨source, none⟩).2 = none ∧
      (markup ({} : Sink) name ⟨source, none⟩).1.contents = Directive.stream ds ∧
      (∀ d ∈ ds, lf ∉ d.print) ∧ IsStreamOf name (lines source) ds cs ∧
      ∀ ds' cs', IsStreamOf name (lines source) ds' cs' → ds' = ds ∧ cs' = cs := by
  refine ⟨directives name (lines source), chunks (lines source), ?_, contents_markup name source,
    ?_, isStreamOf_directives name (lines source), fun _ _ h => h.unique⟩
  · rw [@markup_of_room {} rfl name source]
  · exact not_mem_print_directives (by decide) hname fun line hline => lf_not_mem_of_mem_lines hline

/-- A definition in the middle, a use and an escape in its code, and a quote after it. -/
theorem markup_isStreamOf_demo :
    let source := utf8 "intro\n<<a b>>= \nx <<y>> @<<z\n@ see [[q]]\n@@ end\n"
    let ds : List Directive := [.file (utf8 "demo.nw"),
      .beginChunk (utf8 "docs 0"), .text (utf8 "intro"), .newline, .endChunk (utf8 "docs 0"),
      .beginChunk (utf8 "code 1"), .defn (utf8 "a b"), .newline, .text (utf8 "x "),
      .use (utf8 "y"), .text (utf8 " <<z"), .newline, .endChunk (utf8 "code 1"),
      .beginChunk (utf8 "docs 2"), .text (utf8 "see "), .quote, .text (utf8 "q"), .endquote,
      .newline, .text (utf8 "@ end"), .newline, .endChunk (utf8 "docs 2")]
    lf ∉ utf8 "demo.nw" ∧
      (markup ({} : Sink) (utf8 "demo.nw") ⟨source, none⟩).1.contents = Directive.stream ds ∧
      ∃ cs, IsStreamOf (utf8 "demo.nw") (lines source) ds cs ∧
        cs.map Chunk.name? = [none, some (utf8 "a b"), none] ∧
        cs.map Chunk.lines =
          [[[.text (utf8 "intro")]],
            [[.text (utf8 "x "), .use (utf8 "y"), .text (utf8 " <<z")]],
            [[.text (utf8 "see "), .quote, .text (utf8 "q"), .endquote],
              [.text (utf8 "@ end")]]] := by
  intro source ds
  have hname : lf ∉ utf8 "demo.nw" := by decide
  obtain ⟨ds', cs, -, hcontents, -, hstream, -⟩ := markup_isStreamOf (utf8 "demo.nw") source hname
  obtain ⟨rfl, rfl⟩ := hstream.unique
  have hds : directives (utf8 "demo.nw") (lines source) = ds := by decide +kernel
  rw [hds] at hcontents hstream
  exact ⟨hname, hcontents, _, hstream, by decide +kernel, by decide +kernel⟩

end Noweb

end Literate
