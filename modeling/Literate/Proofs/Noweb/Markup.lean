import Literate.Noweb.Markup
import Literate.Proofs.Intake
import Literate.Proofs.Noweb.Line
import Literate.Proofs.Noweb.Scan
import Literate.Proofs.Writer

/-!
# The stream that marking up writes

Marking up goes through the source line by line: `Marker.after` is the chunk after some lines, and
`Marker.body` are their directives. To a sink without a limit `markup` writes just these, one a line
(`markup_of_room`), and a control character is in one of them only if it is in the name of the
source or on one of its lines (`not_mem_print_directives`).
-/

namespace Literate.Noweb

open Bytes

namespace Marker

/-- The chunk after some source lines. -/
def after (m : Marker) (lines : List Bytes) : Marker :=
  lines.foldl (fun m line => (m.line line).1) m

/-- The directives of source lines. -/
def body : Marker → List Bytes → List Directive
  | _, [] => []
  | m, line :: lines => (m.line line).2 ++ body (m.line line).1 lines

@[simp] theorem after_cons (m : Marker) (line : Bytes) (lines : List Bytes) :
    m.after (line :: lines) = (m.line line).1.after lines := rfl

@[simp] theorem body_cons (m : Marker) (line : Bytes) (lines : List Bytes) :
    m.body (line :: lines) = (m.line line).2 ++ (m.line line).1.body lines := rfl

end Marker

theorem directivesFrom_eq (m : Marker) (done : List (List Directive)) (ls : List Bytes) :
    (directivesFrom m done ls).1.flatten = done.reverse.flatten ++ m.body ls ∧
      (directivesFrom m done ls).2 = m.after ls := by
  induction ls generalizing m done with
  | nil => simp [directivesFrom, Marker.body, Marker.after]
  | cons line ls ih =>
      rw [directivesFrom]
      obtain ⟨hbody, hafter⟩ := ih (m.line line).1 ((m.line line).2 :: done)
      refine ⟨?_, hafter⟩
      rw [hbody]
      simp

theorem directives_eq (name : Bytes) (ls : List Bytes) :
    directives name ls =
      preamble name ++ Marker.body {} ls ++ [(Marker.after {} ls).closing] := by
  obtain ⟨hbody, hafter⟩ := directivesFrom_eq {} [] ls
  have hdirectives : directives name ls = preamble name ++ (directivesFrom {} [] ls).1.flatten ++
      [(directivesFrom {} [] ls).2.closing] := rfl
  rw [hdirectives, hbody, hafter]
  rfl

/-! ### Writing without a limit -/

/-- The directives as they are written, one a piece. -/
def written (ds : List Directive) : List Bytes := ds.map fun d => d.print ++ [lf]

theorem written_append (ds ds' : List Directive) :
    written (ds ++ ds') = written ds ++ written ds' := List.map_append

theorem emit_of_room {w : Sink} (hw : w.room = none) (ds : List Directive) :
    emit w none ds = (w.taking (written ds), none) :=
  Sink.writeAll_of_room hw _

theorem foldUntil_line_of_room {w : Sink} (hw : w.room = none) (m : Marker) (ls : List Bytes) :
    foldUntil Marking.line Marking.failed { marker := m, out := w } ls =
      ({ marker := m.after ls, out := w.taking (written (m.body ls)) }, false) := by
  induction ls generalizing m w with
  | nil => rfl
  | cons line ls ih =>
      -- a sink without a limit has none after a line either
      have hrest := @ih (w.taking (written (m.line line).2)) hw (m.line line).1
      have hline : Marking.line { marker := m, out := w } line =
          { marker := (m.line line).1, out := w.taking (written (m.line line).2) } := by
        unfold Marking.line
        simp only [emit_of_room hw]
      rw [foldUntil, hline]
      show foldUntil Marking.line Marking.failed _ ls = _
      rw [hrest, Sink.taking_taking, ← written_append]
      rfl

/-- To a sink without a limit the directives before the end of the source are written. -/
theorem forLines_line_of_room {w : Sink} (hw : w.room = none) (name : Bytes) (source : Intake) :
    source.forLines Marking.line Marking.failed { out := w.taking (written (preamble name)) } =
      ({ marker := Marker.after {} (lines source.bytes),
         out := w.taking (written (preamble name ++ Marker.body {} (lines source.bytes))) },
        false) := by
  have hlines := @foldUntil_line_of_room (w.taking (written (preamble name))) hw {}
    (lines source.bytes)
  rw [Intake.forLines_eq, hlines, Sink.taking_taking, ← written_append]

/-- **Without a limit, all of the stream is written and nothing fails.** -/
theorem markup_of_room {w : Sink} (hw : w.room = none) (name source : Bytes) :
    markup w name ⟨source, none⟩ = (w.taking (written (directives name (lines source))), none) := by
  have hclose := @emit_of_room
    (w.taking (written (preamble name ++ Marker.body {} (lines source)))) hw
    [(Marker.after {} (lines source)).closing]
  rw [Sink.taking_taking, ← written_append, ← directives_eq] at hclose
  unfold markup
  rw [emit_of_room hw]
  simp only [forLines_line_of_room hw, hclose]
  rfl

theorem contents_markup (name source : Bytes) :
    (markup ({} : Sink) name ⟨source, none⟩).1.contents =
      Directive.stream (directives name (lines source)) := by
  rw [@markup_of_room {} rfl name source, Sink.contents_taking]
  rfl

/-! ### Control characters

A directive carries nothing but bytes of its source line, apart from the kind and number of a
chunk. So a control character that no line has in it is on no line of the stream either. -/

section Control

variable {P : UInt8 → Prop}

theorem forall_payload_piece {text : Bytes} (h : ∀ b ∈ text, P b) :
    ∀ d ∈ piece text, ∀ b ∈ d.payload, P b := by
  unfold piece
  split
  · simp
  · simpa [Directive.payload] using h

theorem CodeScan.forall_payload {text s : Bytes} {ds : List Directive} (hscan : CodeScan text s ds)
    (htext : ∀ b ∈ text, P b) (hs : ∀ b ∈ s, P b) : ∀ d ∈ ds, ∀ b ∈ d.payload, P b := by
  induction hscan with
  | stop => exact forall_payload_piece htext
  | @escape text rest ds _ ih =>
      -- the `<<` that becomes pending text is part of `@<<`
      have hopen : ∀ b ∈ utf8 "<<", P b := by
        intro b hb
        have hmem : b ∈ utf8 "@<<" := List.mem_cons_of_mem atSign hb
        exact hs b (List.mem_append_left _ hmem)
      refine ih ?_ fun b hb => hs b (List.mem_append_right _ hb)
      intro b hb
      exact (List.mem_append.mp hb).elim (htext b) (hopen b)
  | @use text name rest ds _ _ ih =>
      intro d hd
      rcases List.mem_append.mp hd with hd | hd
      · exact forall_payload_piece htext d hd
      · rcases List.mem_cons.mp hd with rfl | hd
        · intro b hb
          exact hs b (by simp [Directive.payload] at hb; simp [hb])
        · exact ih (by simp) (fun b hb => hs b (by simp [hb])) d hd
  | @unclosed text rest _ =>
      refine forall_payload_piece fun b hb => ?_
      exact (List.mem_append.mp hb).elim (htext b) (hs b)
  | @byte text b rest ds _ _ _ ih =>
      refine ih ?_ fun c hc => hs c (List.mem_cons_of_mem _ hc)
      intro c hc
      rcases List.mem_append.mp hc with hc | hc
      · exact htext c hc
      · exact hs c (by simp_all)

theorem DocsScan.forall_payload {line : Bytes} {ds : List Directive} (hscan : DocsScan line ds)
    (hline : ∀ b ∈ line, P b) : ∀ d ∈ ds, ∀ b ∈ d.payload, P b := by
  induction hscan with
  | plain _ => exact forall_payload_piece hline
  | @quote before quoted rest ds _ _ _ ih =>
      have hbefore : ∀ b ∈ before, P b := fun b hb => hline b (by simp [hb])
      have hquoted : ∀ b ∈ quoted, P b := fun b hb => hline b (by simp [hb])
      have hrest := ih fun b hb => hline b (by simp [hb])
      intro d hd
      simp only [List.append_assoc, List.cons_append, List.mem_append, List.mem_cons] at hd
      rcases hd with hd | rfl | hd | rfl | hd
      · exact forall_payload_piece hbefore d hd
      · simp [Directive.payload]
      · exact forall_payload_piece hquoted d hd
      · simp [Directive.payload]
      · exact hrest d hd

end Control

variable {c : UInt8}

theorem Marker.not_mem_tag (hc : c < space) (m : Marker) : c ∉ m.tag := by
  have hname : m.kind.name.all fun b => decide (space ≤ b) := by
    cases m.kind <;> decide
  intro hmem
  rcases List.mem_append.mp hmem with hmem | hmem
  · exact not_lt_space_of_mem hname hmem hc
  · rcases List.mem_cons.mp hmem with rfl | hmem
    · exact absurd hc (by decide)
    · have hdigit := isDigit_of_mem_decimal hmem
      grind [isDigit]

theorem not_mem_payload_codeLine {line : Bytes} (h : c ∉ line) :
    ∀ d ∈ codeLine line, c ∉ d.payload := by
  intro d hd hmem
  have hall := (codeScan_codeLine line).forall_payload (P := (· ≠ c)) (by simp)
    (fun b hb => ne_of_mem_of_not_mem hb h)
  exact hall d hd c hmem rfl

theorem not_mem_payload_docsLine {line : Bytes} (h : c ∉ line) :
    ∀ d ∈ docsLine line, c ∉ d.payload := by
  intro d hd hmem
  have hall := (docsScan_docsLine line).forall_payload (P := (· ≠ c))
    (fun b hb => ne_of_mem_of_not_mem hb h)
  exact hall d hd c hmem rfl

theorem unescapeDocs_subset (line : Bytes) : Marker.unescapeDocs line ⊆ line := by
  unfold Marker.unescapeDocs
  split
  · exact List.drop_subset 1 line
  · exact List.Subset.refl line

theorem IsDefinition.subset {line name : Bytes} (h : IsDefinition line name) : name ⊆ line := by
  obtain ⟨-, blanks, -, rfl⟩ := h
  intro b hb
  simp [hb]

theorem IsDocsStart.subset {line rest : Bytes} (h : IsDocsStart line rest) : rest ⊆ line := by
  rcases h with ⟨-, rfl⟩ | rfl | rfl
  · exact List.nil_subset line
  · exact List.subset_append_right _ _
  · exact List.subset_append_right _ _

theorem not_mem_payload_concat {ds : List Directive} (h : ∀ d ∈ ds, c ∉ d.payload) :
    ∀ d ∈ ds ++ [.newline], c ∉ d.payload := by
  intro d hd
  rcases List.mem_append.mp hd with hd | hd
  · exact h d hd
  · rw [List.mem_singleton.mp hd]
    exact List.not_mem_nil

theorem Marker.not_mem_payload_line (hc : c < space) {line : Bytes} (hline : c ∉ line)
    (m : Marker) : ∀ d ∈ (m.line line).2, c ∉ d.payload := by
  rcases m.line_cases line with ⟨name, hname, h⟩ | ⟨rest, hrest, h⟩ | ⟨-, -, h⟩ | ⟨-, -, h⟩
  · have hc' : c ∉ name := fun hmem => hline (hname.subset hmem)
    simp [h, Marker.opening, Marker.closing, Directive.payload, Marker.not_mem_tag hc, hc']
  · have hrest' := not_mem_payload_docsLine fun hmem => hline (hrest.subset hmem)
    rw [h, List.cons_append, List.cons_append, List.forall_mem_cons, List.forall_mem_cons]
    exact ⟨Marker.not_mem_tag hc _, Marker.not_mem_tag hc _, not_mem_payload_concat hrest'⟩
  · rw [h]
    exact not_mem_payload_concat (not_mem_payload_codeLine hline)
  · rw [h]
    refine not_mem_payload_concat (not_mem_payload_docsLine fun hmem => hline ?_)
    exact unescapeDocs_subset line hmem

theorem Marker.not_mem_payload_body (hc : c < space) {ls : List Bytes}
    (h : ∀ line ∈ ls, c ∉ line) (m : Marker) : ∀ d ∈ m.body ls, c ∉ d.payload := by
  induction ls generalizing m with
  | nil => simp [Marker.body]
  | cons line ls ih =>
      intro d hd
      rcases List.mem_append.mp hd with hd | hd
      · exact m.not_mem_payload_line hc (h line (by simp)) d hd
      · exact ih (fun l hl => h l (by simp [hl])) _ d hd

/-- A control character stands on a line of the stream only if it is in the name of the source or on
one of its lines. -/
theorem not_mem_print_directives (hc : c < space) {name : Bytes} (hname : c ∉ name)
    {ls : List Bytes} (h : ∀ line ∈ ls, c ∉ line) : ∀ d ∈ directives name ls, c ∉ d.print := by
  intro d hd hmem
  have hpayload := Directive.mem_payload_of_mem_print hc hmem
  rw [directives_eq, preamble, List.mem_append, List.mem_append, List.mem_append,
    List.mem_singleton, List.mem_singleton] at hd
  rcases hd with ((hd | rfl) | hd) | rfl
  · split at hd
    · cases hd
    · rw [List.mem_singleton.mp hd] at hpayload
      exact hname hpayload
  · exact Marker.not_mem_tag hc _ hpayload
  · exact Marker.not_mem_payload_body hc h _ d hd hpayload
  · exact Marker.not_mem_tag hc _ hpayload

theorem lf_not_mem_print {name : Bytes} (hname : lf ∉ name) (source : Bytes) :
    ∀ d ∈ directives name (lines source), lf ∉ d.print :=
  not_mem_print_directives (by decide) hname fun _ hline => lf_not_mem_of_mem_lines hline

end Literate.Noweb
