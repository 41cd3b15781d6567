import Literate.Proofs.Noweb.Conversion

/-!
# Between the two stages

Marking up ends every directive with a line feed. Whoever reads the stream takes off the line feed
and one carriage return before it, since a line may end in both. So a directive arrives as it was
written unless what it carries ends in a carriage return, which is then lost:

    a\r[[b]]   ──markup──▶   @text a\r   ──lines──▶   @text a

`lines_markup` says just this. Whatever is lost, the session still keeps step with the marker: no
source leads to a remark, and the name of the source, as long as it is one line, leads to nothing at
all (`exists_convert_noweb`).
-/

namespace Literate.Noweb

open Bytes Text

/-! ### What arrives -/

/-- **Only a carriage return at the end of a directive is lost between the two stages.** Marking up
writes the directives of the source, one at a time and each with a line feed. The lines that are read
are these directives again, each without the carriage return it may end in, so they are the same
exactly if no directive carries one at its end. -/
theorem lines_markup (name source : Bytes) (hname : lf ∉ name) :
    let sink := (markup ({} : Sink) name ⟨source, none⟩).1
    let ds := directives name (lines source)
    sink.pieces.reverse = ds.map (fun d => d.print ++ [lf]) ∧
      lines sink.contents = ds.map (fun d => (d.mapPayload trimCr).print) ∧
      (lines sink.contents = ds.map Directive.print ↔
        ∀ d ∈ ds, d.payload.getLast? ≠ some cr) := by
  intro sink ds
  have hcontents : sink.contents = Directive.stream ds := contents_markup name source
  have hlf := lf_not_mem_print hname source
  refine ⟨?_, ?_, ?_⟩
  · show (markup ({} : Sink) name ⟨source, none⟩).1.pieces.reverse = _
    rw [@markup_of_room {} rfl name source]
    show ((written ds).reverse ++ []).reverse = written ds
    rw [List.append_nil, List.reverse_reverse]
  · rw [hcontents, Directive.lines_stream hlf, List.map_map]
    rfl
  · rw [hcontents]
    exact Directive.lines_stream_eq_iff hlf

/-- A carriage return at the end of the name, before a quote, and before the end of a line. -/
theorem lines_markup_stray :
    let name := utf8 "demo.nw\r"
    let source := utf8 "a\r[[b]]\n<<c>>=\nd\r\r\n"
    lf ∉ name ∧
      let sink := (markup ({} : Sink) name ⟨source, none⟩).1
      let ds := directives name (lines source)
      sink.pieces.reverse = ds.map (fun d => d.print ++ [lf]) ∧
        lines sink.contents = ds.map (fun d => (d.mapPayload trimCr).print) ∧
        (lines sink.contents = ds.map Directive.print ↔
          ∀ d ∈ ds, d.payload.getLast? ≠ some cr) :=
  ⟨by decide, lines_markup _ _ (by decide)⟩

/-- The text before a quote ends in a carriage return and does not arrive as it was written. -/
theorem lines_markup_ne_print :
    let source := utf8 "a\r[[b]]\n"
    lines (markup ({} : Sink) [] ⟨source, none⟩).1.contents ≠
      (directives [] (lines source)).map Directive.print := by
  decide +kernel

/-! ### Sources of any name -/

/-- The directives as they arrive. -/
def arrived (ds : List Directive) : List Directive := ds.map (Directive.mapPayload trimCr)

@[simp] theorem arrived_cons (d : Directive) (ds : List Directive) :
    arrived (d :: ds) = d.mapPayload trimCr :: arrived ds := rfl

@[simp] theorem arrived_append (ds ds' : List Directive) :
    arrived (ds ++ ds') = arrived ds ++ arrived ds' := List.map_append

namespace Marker

theorem trimCr_tag (m : Marker) : trimCr m.tag = m.tag :=
  trimCr_of_not_mem (m.not_mem_tag (by decide))

@[simp] theorem mapPayload_closing (m : Marker) : m.closing.mapPayload trimCr = m.closing :=
  congrArg Directive.endChunk m.trimCr_tag

@[simp] theorem mapPayload_opening (m : Marker) : m.opening.mapPayload trimCr = m.opening :=
  congrArg Directive.beginChunk m.trimCr_tag

end Marker

theorem inline_arrived {ds : List Directive} (h : ∀ d ∈ ds, (inline? d).isSome) :
    ∀ d ∈ arrived ds, (inline? d).isSome := by
  intro d hd
  obtain ⟨d, hmem, rfl⟩ := List.mem_map.mp hd
  have hinline := h d hmem
  cases d <;> first | rfl | cases hinline

/-- A source line keeps the session in step with the marker. The text it writes depends on the chunk
and the names defined so far, and on nothing else. -/
theorem Marker.exists_writes_line (m : Marker) (defined : Finset Bytes) (line : Bytes) :
    ∃ out defined', ∀ s, Lockstep m.kind defined s →
      ∃ s', Writes s (arrived (m.line line).2) out s' ∧ Lockstep (m.line line).1.kind defined' s' := by
  rcases m.line_cases line with ⟨name, -, h⟩ | ⟨rest, -, h⟩ | ⟨-, hkind, h⟩ | ⟨-, hkind, h⟩
  · rw [h]
    simp only [arrived_cons, mapPayload_closing, mapPayload_opening]
    exact ⟨_, _, fun s hs => hs.writes_definition (trimCr name)⟩
  · rw [h]
    simp only [arrived_cons, arrived_append, List.cons_append, mapPayload_closing,
      mapPayload_opening]
    exact ⟨_, _, fun s hs => hs.writes_docsStart (inline_arrived (inline_docsLine rest))⟩
  · rw [h]
    simp only [arrived_append]
    exact ⟨_, _, fun s hs => hs.writes_line (inline_arrived (inline_codeLine line))⟩
  · rw [h]
    simp only [arrived_append]
    exact ⟨_, _, fun s hs => hs.writes_line (inline_arrived (inline_docsLine _))⟩

theorem Marker.exists_writes_body (m : Marker) (defined : Finset Bytes) (ls : List Bytes) :
    ∃ out, ∀ s, Lockstep m.kind defined s →
      ∃ s', Writes s (arrived (m.body ls ++ [(m.after ls).closing])) out s' := by
  induction ls generalizing m defined with
  | nil =>
      refine ⟨gap m.kind, fun s hs => ?_⟩
      have hclosing := hs.writes_closing
      rw [← m.mapPayload_closing] at hclosing
      exact ⟨_, hclosing⟩
  | cons line ls ih =>
      obtain ⟨first, defined', hfirst⟩ := m.exists_writes_line defined line
      obtain ⟨rest, hrest⟩ := ih (m.line line).1 defined'
      refine ⟨first ++ rest, fun s hs => ?_⟩
      obtain ⟨s₁, hwrites₁, hs₁⟩ := hfirst s hs
      obtain ⟨s₂, hwrites₂⟩ := hrest s₁ hs₁
      rw [Marker.body_cons, Marker.after_cons, List.append_assoc, arrived_append]
      exact ⟨s₂, hwrites₁.append hwrites₂⟩

/-- The session writes the same text for source lines of any name and remarks on nothing, however
many lines it has read before. -/
theorem exists_writes_arrived (ls : List Bytes) :
    ∃ out, ∀ n, ∃ s', Writes { lineNumber := n } (arrived (directives [] ls)) out s' := by
  obtain ⟨out, hbody⟩ := Marker.exists_writes_body {} ∅ ls
  refine ⟨out, fun n => ?_⟩
  have hopen := writes_opening {} { lineNumber := n }
  obtain ⟨s', hrest⟩ := hbody _ (lockstep_opening (n + 1))
  have hall := hopen.append hrest
  rw [← Marker.mapPayload_opening] at hall
  rw [directives_eq, List.append_assoc]
  exact ⟨s', hall⟩

/-- A name of one line is ignored, whatever the source. -/
theorem exists_output_stream (source : Bytes) :
    ∃ out, ∀ name, lf ∉ name →
      Session.output {} (lines (Directive.stream (directives name (lines source)))) = out ∧
      Session.remarks {} (lines (Directive.stream (directives name (lines source)))) = [] := by
  obtain ⟨out, hout⟩ := exists_writes_arrived (lines source)
  refine ⟨out, fun name hname => ?_⟩
  obtain ⟨s', hwrites⟩ := writes_named hout name
  rw [Directive.lines_stream (lf_not_mem_print hname source), map_directives]
  exact ⟨hwrites.output, hwrites.remarks⟩

/-! ### Conversions -/

/-- Of a source that breaks off, everything but the end of the last chunk is marked up. -/
theorem markup_of_failure {w : Sink} (hw : w.room = none) (name source : Bytes) (why : Failure) :
    markup w name ⟨source, some why⟩ =
      (w.taking (written (preamble name ++ Marker.body {} (lines source))), some (.read why)) := by
  unfold markup
  rw [emit_of_room hw]
  simp only [forLines_line_of_room hw]

/-- An input that breaks off is not converted, whatever of it was marked up. -/
theorem convert_noweb_of_failure {σ : Type} [Writer σ] (name source : Bytes) (why : Failure)
    (out : σ) :
    Format.noweb.convert name ⟨source, some why⟩ out =
      { out, error := some (.markup name (.read why)) } := by
  rw [Format.convert, Format.prepare]
  simp only [@markup_of_failure {} rfl]

/-- **The name of a source does not matter for its conversion**, as long as it is one line: neither
for the text, nor for why it fails if the source breaks off, and there is never a remark. -/
theorem exists_convert_noweb (input : Intake) :
    ∃ (out : Bytes) (failure : Option Failure), ∀ name, lf ∉ name →
      let c := Format.noweb.convert name input ({} : Sink)
      c.out.contents = out ∧ c.remarks = [] ∧ c.error.map ConversionError.failure = failure := by
  obtain ⟨source, failure⟩ := input
  cases failure with
  | none =>
      obtain ⟨out, hout⟩ := exists_output_stream source
      refine ⟨out, none, fun name hname => ?_⟩
      obtain ⟨herror, hremarks, hcontents⟩ := convert_noweb name source
      obtain ⟨houtput, hnone⟩ := hout name hname
      refine ⟨hcontents.trans houtput, hremarks.trans hnone, ?_⟩
      rw [herror]
      rfl
  | some why =>
      refine ⟨[], some why, fun name _ => ?_⟩
      rw [convert_noweb_of_failure]
      exact ⟨rfl, rfl, rfl⟩

end Literate.Noweb
