import Mathlib.Data.List.Induction
import Literate.Proofs.Directive
import Literate.Proofs.Session.Run

/-!
# The history of a session

A session remembers little, and all of it can be read off the lines it was fed. This module says
how, without running the session: `definitions`, `openKind` and `HeaderDue` look at a history of
lines, and `fragment` is the text that one more line writes after a history.

`Agrees history s` ties the two together. It holds of the fresh session and the empty history, and
every line keeps it (`Agrees.feed`), so it holds after any lines whatever.
-/

namespace Literate.History

open Bytes Text

/-! ### Reading a history -/

/-- The names that a history defines, in order. -/
def definitions (history : List Bytes) : List Bytes := history.filterMap (argument? .defn)

/-- The kind of the chunk that a line begins. -/
def begun? (line : Bytes) : Option Bytes := (argument? .beginChunk line).map firstField

/-- The kind of the chunk that a line ends. -/
def ended? (line : Bytes) : Option Bytes := (argument? .endChunk line).map firstField

/-- Does the line begin or end a chunk? -/
def isBoundary (line : Bytes) : Bool := (begun? line).isSome || (ended? line).isSome

/-- Does the line end a line of text? -/
def isNewline (line : Bytes) : Bool := (argument? .newline line).isSome

/-- The kind of the open chunk: that of the last boundary, if that one begins a chunk. -/
def openKind (history : List Bytes) : Option Bytes :=
  (history.filter isBoundary).getLast?.bind begun?

/-- Some line begins a code chunk and no line of text has ended after it. -/
def HeaderDue (history : List Bytes) : Prop :=
  ∃ before line after, history = before ++ line :: after ∧ begun? line = some (utf8 "code") ∧
    ∀ later ∈ after, isNewline later = false

/-! ### One more line -/

@[simp] theorem definitions_nil : definitions [] = [] := rfl

@[simp] theorem definitions_concat (history : List Bytes) (line : Bytes) :
    definitions (history ++ [line]) = definitions history ++ (argument? .defn line).toList := by
  rw [definitions, List.filterMap_append]
  cases h : argument? .defn line <;> simp [definitions, h]

@[simp] theorem openKind_nil : openKind [] = none := rfl

@[simp] theorem openKind_concat (history : List Bytes) (line : Bytes) :
    openKind (history ++ [line]) =
      if isBoundary line then begun? line else openKind history := by
  rw [openKind, List.filter_append]
  by_cases h : isBoundary line
  · simp [h]
  · simp [h, openKind]

@[simp] theorem not_headerDue_nil : ¬ HeaderDue [] := by
  rintro ⟨before, line, after, h, -⟩
  simp at h

/-- A line of a longer history is its last line, or one of the history before. -/
theorem concat_eq_append_cons_iff {history before after : List Bytes} {last line : Bytes} :
    history ++ [last] = before ++ line :: after ↔
      (history = before ∧ last = line ∧ after = []) ∨
        ∃ after', history = before ++ line :: after' ∧ after = after' ++ [last] := by
  -- whether anything follows the line decides which of the two it is
  rcases List.eq_nil_or_concat after with rfl | ⟨after, last', rfl⟩
  · constructor
    · intro h
      obtain ⟨rfl, hlast⟩ := List.append_inj' h rfl
      cases hlast
      exact .inl ⟨rfl, rfl, rfl⟩
    · rintro (⟨rfl, rfl, -⟩ | ⟨after', -, h⟩)
      · rfl
      · simp at h
  · rw [List.concat_eq_append, ← List.cons_append, ← List.append_assoc]
    constructor
    · intro h
      obtain ⟨rfl, hlast⟩ := List.append_inj' h rfl
      cases hlast
      exact .inr ⟨after, rfl, rfl⟩
    · rintro (⟨-, -, h⟩ | ⟨after', rfl, h⟩)
      · simp at h
      · obtain ⟨rfl, hlast⟩ := List.append_inj' h rfl
        cases hlast
        rfl

@[simp] theorem headerDue_concat (history : List Bytes) (line : Bytes) :
    HeaderDue (history ++ [line]) ↔
      begun? line = some (utf8 "code") ∨ HeaderDue history ∧ isNewline line = false := by
  constructor
  · rintro ⟨before, first, after, h, hfirst, hafter⟩
    rcases concat_eq_append_cons_iff.mp h with ⟨rfl, rfl, rfl⟩ | ⟨after, rfl, rfl⟩
    · exact .inl hfirst
    · refine .inr ⟨⟨before, first, after, rfl, hfirst, ?_⟩, hafter line (by simp)⟩
      intro later hlater
      exact hafter later (by simp [hlater])
  · rintro (h | ⟨⟨before, first, after, rfl, hfirst, hafter⟩, hline⟩)
    · exact ⟨history, line, [], rfl, h, by simp⟩
    · refine ⟨before, first, after ++ [line], by simp, hfirst, ?_⟩
      intro later hlater
      rcases List.mem_append.mp hlater with hlater | hlater
      · exact hafter later hlater
      · rw [List.mem_singleton.mp hlater]
        exact hline

/-- A due header can be followed along the history, line by line. -/
theorem headerDue_iff_foldl (history : List Bytes) :
    HeaderDue history ↔ history.foldl (fun due line =>
      decide (begun? line = some (utf8 "code")) || (due && !isNewline line)) false = true := by
  induction history using List.reverseRecOn with
  | nil => simp
  | append_singleton history line ih =>
      rw [headerDue_concat, List.foldl_append, ih]
      simp

instance : DecidablePred HeaderDue := fun history =>
  decidable_of_iff _ (headerDue_iff_foldl history).symm

/-! ### What is written -/

/-- The line that declares the target of a name: its spaces become underscores. -/
def targetLine (name : Bytes) : Bytes :=
  utf8 ".. _" ++ name.map (fun b => if b = space then 95 else b) ++ utf8 ":\n"

/-- The language of a code block, by the ending of its name. -/
def language (name : Bytes) : Bytes :=
  if utf8 ".s" <:+ name then utf8 "gas"
  else if utf8 ".simple" <:+ name then utf8 "none"
  else utf8 "c"

/-- The head of a code block, with a plus sign if there was an earlier one of the same name. -/
def blockHead (name : Bytes) (again : Bool) : Bytes :=
  utf8 ".. highlight:: " ++ language name ++ utf8 "\n\n``⟨" ++ name ++ utf8 "⟩" ++
    (if again then utf8 "+" else []) ++ utf8 "≡`` ::\n\t\n\t"

/-- The name in the head of the next code block: the last one defined. -/
def headName (history : List Bytes) : Bytes := (definitions history).getLastD []

/-- Was the last name defined also defined before? -/
def isRepeated (history : List Bytes) : Bool :=
  (definitions history).getLast?.any fun name => name ∈ (definitions history).dropLast

theorem isRepeated_iff {history : List Bytes} :
    isRepeated history ↔
      ∃ earlier name, definitions history = earlier ++ [name] ∧ name ∈ earlier := by
  rw [isRepeated]
  generalize definitions history = names
  rcases List.eq_nil_or_concat names with rfl | ⟨earlier, name, rfl⟩
  · simp
  · rw [List.concat_eq_append]
    simp only [List.getLast?_append, List.getLast?_singleton, Option.some_or, Option.any_some,
      List.dropLast_concat, decide_eq_true_eq]
    constructor
    · intro h
      exact ⟨earlier, name, rfl, h⟩
    · rintro ⟨earlier', name', heq, h⟩
      obtain ⟨rfl, hname⟩ := List.append_inj' heq rfl
      cases hname
      exact h

/-- What follows the line feed that ends a line of text after a history. -/
def lineStart (history : List Bytes) : Bytes :=
  if HeaderDue history then blockHead (headName history) (isRepeated history)
  else if openKind history = some (utf8 "code") then utf8 "\t"
  else []

/-- The text that a line writes after a history. -/
def fragment (history : List Bytes) (line : Bytes) : Bytes :=
  if let some arg := argument? .text line then arg
  else if let some name := argument? .use line then utf8 "<<" ++ name ++ utf8 ">>"
  else if (argument? .quote line).isSome || (argument? .endquote line).isSome then utf8 "``"
  else if let some name := argument? .defn line then
    if name ∈ definitions history then [] else targetLine name
  else if let some kind := ended? line then
    if kind = utf8 "docs" then utf8 "\n" else []
  else if isNewline line then utf8 "\n" ++ lineStart history
  else []

theorem anchorLine_eq (name : Bytes) : anchorLine name = targetLine name := rfl

theorem highlightLanguage_eq (name : Bytes) : highlightLanguage name = language name := by
  simp only [highlightLanguage, language, List.isSuffixOf_iff_suffix]

theorem header_flatten (s : Session) :
    s.header.flatten = blockHead s.currentName s.isContinued := by
  have hopen : utf8 "\n\n``⟨" = utf8 "\n\n" ++ utf8 "``⟨" := by decide
  have hclose : utf8 "≡`` ::\n\t\n\t" = utf8 "≡`` ::\n" ++ (utf8 "\t\n" ++ utf8 "\t") := by decide
  rw [blockHead, hopen, hclose, ← highlightLanguage_eq]
  simp [Session.header, blockHeader]

/-! ### What a line does -/

/-- How a line takes a session to the next one, by the readings of the line: a definition changes
the names, a boundary the chunk, a newline the due header, and every line is counted. -/
structure Advances (s : Session) (line : Bytes) (s' : Session) : Prop where
  lineNumber : s'.lineNumber = s.lineNumber + 1
  mem_defined : ∀ name, name ∈ s'.defined ↔ name ∈ s.defined ∨ argument? .defn line = some name
  current : s'.current =
    ((argument? .defn line).map fun name => ⟨name, decide (name ∈ s.defined)⟩).or s.current
  chunk : s'.chunk = if isBoundary line then begun? line else s.chunk
  headerDue : s'.headerDue =
    (decide (begun? line = some (utf8 "code")) || (s.headerDue && !isNewline line))

/-- A line on which no keyword finds an argument is only counted. -/
theorem advances_counted (s : Session) {line : Bytes} (hdefn : argument? .defn line = none)
    (hbegin : argument? .beginChunk line = none) (hend : argument? .endChunk line = none)
    (hnl : argument? .newline line = none) : Advances s line s.counted := by
  constructor <;> simp [hdefn, isBoundary, begun?, ended?, isNewline, hbegin, hend, hnl]

theorem advances_feed (s : Session) (line : Bytes) : Advances s line (s.feed line).1 := by
  rcases Directive.parse?_cases line with ⟨hp, hargs⟩ | ⟨k, arg, hp, hargs⟩ | ⟨word, hp, hargs⟩
  · rw [s.feed_of_parse?_none hp]
    exact advances_counted s (hargs _) (hargs _) (hargs _) (hargs _)
  · rw [s.feed_of_parse? hp]
    cases k with
    | text | file | quote | endquote | use =>
        exact advances_counted s (hargs _) (hargs _) (hargs _) (hargs _)
    | newline =>
        constructor <;>
          simp [Session.obey, Keyword.directive, isBoundary, begun?, ended?, isNewline, hargs]
    | defn =>
        constructor <;>
          simp [Session.obey, Keyword.directive, isBoundary, begun?, ended?, isNewline, hargs,
            eq_comm]
    | beginChunk =>
        constructor
        case headerDue =>
          have hnl : isNewline line = false := by simp [isNewline, hargs]
          have hbegun : begun? line = some (firstField arg) := by simp [begun?, hargs]
          rw [hnl, hbegun, Bool.not_false, Bool.and_true, Bool.or_comm]
          simp only [Option.some.injEq]
          rfl
        all_goals
          simp [Session.obey, Session.openChunk, Keyword.directive, isBoundary, begun?, ended?,
            hargs]
    | endChunk =>
        constructor <;>
          simp [Session.obey, Session.closeChunk, Keyword.directive, isBoundary, begun?, ended?,
            isNewline, hargs]
  · rw [s.feed_of_parse? hp]
    exact advances_counted s (hargs _) (hargs _) (hargs _) (hargs _)

/-! ### The session agrees with its history -/

/-- The session stands where its history says. -/
structure Agrees (history : List Bytes) (s : Session) : Prop where
  lineNumber : s.lineNumber = history.length
  mem_defined : ∀ name, name ∈ s.defined ↔ name ∈ definitions history
  current : s.current =
    (definitions history).getLast?.map fun name => ⟨name, isRepeated history⟩
  chunk : s.chunk = openKind history
  headerDue : s.headerDue = decide (HeaderDue history)

namespace Agrees

theorem fresh : Agrees [] {} where
  lineNumber := rfl
  mem_defined := by simp
  current := rfl
  chunk := rfl
  headerDue := by simp

variable {history : List Bytes} {s : Session}

theorem currentName_eq (h : Agrees history s) : s.currentName = headName history := by
  rw [Session.currentName, h.current, headName, Option.map_map, List.getLastD_eq_getLast?]
  cases (definitions history).getLast? <;> rfl

theorem isContinued_eq (h : Agrees history s) : s.isContinued = isRepeated history := by
  rw [Session.isContinued, h.current, Option.map_map]
  cases hlast : (definitions history).getLast? with
  | none => simp [isRepeated, hlast]
  | some name => rfl

/-- **A line keeps the agreement.** -/
theorem feed (h : Agrees history s) (line : Bytes) :
    Agrees (history ++ [line]) (s.feed line).1 := by
  have hstep := advances_feed s line
  constructor
  · rw [hstep.lineNumber, h.lineNumber, List.length_append, List.length_singleton]
  · intro name
    rw [hstep.mem_defined, h.mem_defined, definitions_concat, List.mem_append, Option.mem_toList]
  · rw [hstep.current, h.current]
    -- a new definition repeats a name if the session, and so the history, has it already
    cases hdefn : argument? .defn line with
    | none => simp [hdefn, isRepeated]
    | some name => simp [hdefn, isRepeated, h.mem_defined]
  · rw [hstep.chunk, h.chunk, openKind_concat]
  · rw [hstep.headerDue, h.headerDue]
    simp

/-- The session agrees with any history, however it came about. -/
theorem after (lines : List Bytes) : Agrees lines (Session.after {} lines) := by
  induction lines using List.reverseRecOn with
  | nil => exact fresh
  | append_singleton lines line ih =>
      rw [Session.after_append]
      exact ih.feed line

/-- What a newline writes is decided by the history. -/
theorem newline_flatten (h : Agrees history s) :
    s.counted.newline.2.pieces.flatten = utf8 "\n" ++ lineStart history := by
  have hheader : s.counted.header = s.header := rfl
  rw [Session.pieces_newline, List.flatten_cons, hheader, h.headerDue, h.chunk, lineStart]
  congr 1
  -- a due header comes before the indentation of an open code chunk
  by_cases hdue : HeaderDue history
  · simp [hdue, header_flatten, h.currentName_eq, h.isContinued_eq]
  · simp only [hdue, decide_false, Bool.false_eq_true, ↓reduceIte]
    change (if openKind history = some (utf8 "code") then _ else _ : List Bytes).flatten = _
    split <;> simp

/-- **A line writes the fragment that the history decides.** -/
theorem pieces_feed (h : Agrees history s) (line : Bytes) :
    (s.feed line).2.pieces.flatten = fragment history line := by
  rcases Directive.parse?_cases line with ⟨hp, hargs⟩ | ⟨k, arg, hp, hargs⟩ | ⟨word, hp, hargs⟩
  · rw [s.feed_of_parse?_none hp]
    simp [fragment, ended?, isNewline, hargs]
  · rw [s.feed_of_parse? hp]
    cases k with
    | newline =>
        have hfragment : fragment history line = utf8 "\n" ++ lineStart history := by
          simp [fragment, ended?, isNewline, hargs]
        rw [hfragment]
        exact h.newline_flatten
    | defn =>
        have hfragment : fragment history line =
            if arg ∈ definitions history then [] else targetLine arg := by
          simp [fragment, hargs]
        have hpieces := s.counted.pieces_define arg
        rw [hfragment, Keyword.directive, Session.obey, hpieces]
        simp only [h.mem_defined]
        split <;> simp [anchorLine_eq]
    | endChunk =>
        have hfragment : fragment history line =
            if firstField arg = utf8 "docs" then utf8 "\n" else [] := by
          simp [fragment, ended?, hargs]
        rw [hfragment, Keyword.directive, Session.obey, Session.closeChunk]
        change (if firstField arg = utf8 "docs" then _ else _ : List Bytes).flatten = _
        split <;> simp
    | text | file | quote | endquote | use | beginChunk =>
        simp [fragment, ended?, isNewline, hargs, Keyword.directive, Session.obey]
  · rw [s.feed_of_parse? hp]
    simp [fragment, ended?, isNewline, hargs, Session.obey]

end Agrees

/-- The text that a fresh session writes, line by line. -/
theorem output_eq_fragments (lines : List Bytes) :
    Session.output {} lines =
      (lines.mapIdx fun i line => fragment (lines.take i) line).flatten := by
  rw [Session.output, Session.effects_eq_mapIdx, List.flatMap_def, List.mapIdx_eq_zipIdx_map,
    List.map_map, List.mapIdx_eq_zipIdx_map]
  congr 2
  funext p
  exact (Agrees.after (lines.take p.2)).pieces_feed p.1

/-- **State and output of a session are a function of its history.** After any lines, each field of
the session is what the history says, and with a writer that cannot fail the text written is made up
of the fragments that the lines before each line decide. -/
theorem foldl_feed_fresh (lines : List Bytes) :
    let r := lines.foldl Run.feed { out := ({} : Sink) }
    r.session.lineNumber = lines.length ∧
      (∀ name, name ∈ r.session.defined ↔ name ∈ definitions lines) ∧
      (r.session.current.isSome ↔ definitions lines ≠ []) ∧
      r.session.currentName = (definitions lines).getLastD [] ∧
      (r.session.isContinued ↔
        ∃ earlier name, definitions lines = earlier ++ [name] ∧ name ∈ earlier) ∧
      r.session.chunk = openKind lines ∧
      (r.session.headerDue ↔ HeaderDue lines) ∧
      r.failure = none ∧
      r.out.contents = (lines.mapIdx fun i line => fragment (lines.take i) line).flatten := by
  intro r
  have hsession : r.session = Session.after {} lines := Run.session_foldl_feed _ lines
  have hagrees : Agrees lines r.session := hsession ▸ Agrees.after lines
  have hfresh : ({ out := {} } : Run Sink).Unlimited := ⟨rfl, rfl⟩
  obtain ⟨hend, hcontents⟩ := Run.foldl_feed_of_unlimited hfresh lines
  refine ⟨hagrees.lineNumber, hagrees.mem_defined, ?_, hagrees.currentName_eq, ?_, hagrees.chunk,
    ?_, hend.failure, ?_⟩
  · rw [hagrees.current, Option.isSome_map, List.getLast?_isSome]
  · rw [hagrees.isContinued_eq, isRepeated_iff]
  · rw [hagrees.headerDue, decide_eq_true_iff]
  · rw [← output_eq_fragments]
    exact hcontents

end Literate.History
