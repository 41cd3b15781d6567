import Literate.Proofs.Noweb.Framing
import Literate.Proofs.Session.Utf8

/-!
# Conversion of UTF-8

Noweb source is cut at `<<`, `>>`, `[[`, `]]` and `@`, which are ASCII, so what its directives carry
is UTF-8 if the source is (`isValid_print_directives`). With what sessions do this gives that UTF-8
is converted to UTF-8 in either format: whatever the name, if it is one line
(`Format.convert_isUtf8`), and with any name that is UTF-8 itself, also if the input breaks off
(`Format.convert_keeps_utf8`).
-/

namespace Literate.Noweb

open Bytes Text

/-! ### Source lines -/

theorem isValid_payload_piece {text : Bytes} (h : isValid text) :
    ∀ d ∈ piece text, isValid d.payload := by
  unfold piece
  split
  · exact nofun
  · intro d hd
    rw [List.mem_singleton.mp hd]
    exact h

theorem CodeScan.isValid_payload {text s : Bytes} {ds : List Directive} (hscan : CodeScan text s ds)
    (h : isValid (text ++ s)) : ∀ d ∈ ds, isValid d.payload := by
  -- a character may lie across the pending text and the rest, so only the two together are valid
  induction hscan with
  | @stop text =>
      rw [List.append_nil] at h
      exact isValid_payload_piece h
  | @escape text rest ds _ ih =>
      obtain ⟨htext, hrest⟩ := (isValid_append_ascii (by decide) (by decide)).mp h
      exact ih (isValid_append (isValid_append htext (isValid_utf8 _)) hrest)
  | @use text name rest ds _ _ ih =>
      rw [List.append_assoc, List.append_assoc, isValid_append_ascii (by decide) (by decide),
        isValid_append_ascii (by decide) (by decide)] at h
      obtain ⟨htext, hname, hrest⟩ := h
      rw [List.forall_mem_append, List.forall_mem_cons]
      exact ⟨isValid_payload_piece htext, hname, ih hrest⟩
  | @unclosed text rest _ => exact isValid_payload_piece h
  | @byte text b rest ds _ _ _ ih =>
      rw [List.append_cons] at h
      exact ih h

theorem DocsScan.isValid_payload {line : Bytes} {ds : List Directive} (hscan : DocsScan line ds)
    (h : isValid line) : ∀ d ∈ ds, isValid d.payload := by
  induction hscan with
  | plain _ => exact isValid_payload_piece h
  | @quote before quoted rest ds _ _ _ ih =>
      rw [List.append_assoc, List.append_assoc, List.append_assoc,
        isValid_append_ascii (by decide) (by decide),
        isValid_append_ascii (by decide) (by decide)] at h
      obtain ⟨hbefore, hquoted, hrest⟩ := h
      simp only [List.append_assoc, List.cons_append, List.forall_mem_append,
        List.forall_mem_cons]
      exact ⟨isValid_payload_piece hbefore, isValid_nil, isValid_payload_piece hquoted,
        isValid_nil, ih hrest⟩

theorem IsDefinition.isValid_name {line name : Bytes} (h : IsDefinition line name)
    (hline : isValid line) : isValid name := by
  obtain ⟨-, blanks, -, rfl⟩ := h
  rw [List.append_assoc, List.append_assoc, isValid_ascii_append (by decide),
    isValid_append_ascii (by decide) (by decide)] at hline
  exact hline.1

theorem IsDocsStart.isValid_rest {line rest : Bytes} (h : IsDocsStart line rest)
    (hline : isValid line) : isValid rest := by
  rcases h with ⟨-, rfl⟩ | rfl | rfl
  · exact isValid_nil
  · exact (isValid_ascii_append (by decide)).mp hline
  · exact (isValid_ascii_append (by decide)).mp hline

theorem isValid_unescapeDocs {line : Bytes} (h : isValid line) :
    isValid (Marker.unescapeDocs line) := by
  unfold Marker.unescapeDocs
  split
  · next hstart =>
    obtain ⟨rest, rfl⟩ := List.isPrefixOf_iff_prefix.mp hstart
    exact (isValid_cons (by decide)).mp h
  · exact h

theorem isValid_decimal (n : Nat) : isValid (decimal n) := by
  refine isValid_of_ascii fun b hb => ?_
  have hdigit := isDigit_of_mem_decimal hb
  grind [isDigit]

theorem Marker.isValid_tag (m : Marker) : isValid m.tag := by
  have hname : isValid m.kind.name := by
    cases m.kind <;> exact isValid_utf8 _
  exact (isValid_append_cons (by decide)).mpr ⟨hname, isValid_decimal m.number⟩

theorem Marker.isValid_payload_line (m : Marker) {line : Bytes} (h : isValid line) :
    ∀ d ∈ (m.line line).2, isValid d.payload := by
  have hclosing : isValid m.closing.payload := m.isValid_tag
  have hopening (m : Marker) : isValid m.opening.payload := m.isValid_tag
  have hnewline : ∀ d ∈ [Directive.newline], isValid d.payload := fun d hd =>
    List.mem_singleton.mp hd ▸ isValid_nil
  rcases m.line_cases line with ⟨name, hname, hm⟩ | ⟨rest, hrest, hm⟩ | ⟨-, -, hm⟩ | ⟨-, -, hm⟩
  · rw [hm]
    simp only [List.forall_mem_cons]
    exact ⟨hclosing, hopening _, hname.isValid_name h, isValid_nil, nofun⟩
  · rw [hm, List.cons_append, List.cons_append]
    simp only [List.forall_mem_cons, List.forall_mem_append]
    exact ⟨hclosing, hopening _, (docsScan_docsLine rest).isValid_payload (hrest.isValid_rest h),
      isValid_nil, nofun⟩
  · rw [hm, List.forall_mem_append]
    exact ⟨(codeScan_codeLine line).isValid_payload h, hnewline⟩
  · rw [hm, List.forall_mem_append]
    exact ⟨(docsScan_docsLine _).isValid_payload (isValid_unescapeDocs h), hnewline⟩

theorem Marker.isValid_payload_body (m : Marker) {ls : List Bytes}
    (h : ∀ line ∈ ls, isValid line) : ∀ d ∈ m.body ls, isValid d.payload := by
  induction ls generalizing m with
  | nil => exact nofun
  | cons line ls ih =>
      rw [List.forall_mem_cons] at h
      rw [Marker.body_cons, List.forall_mem_append]
      exact ⟨m.isValid_payload_line h.1, ih _ h.2⟩

/-! ### Whole sources -/

/-- **Every directive of a source is UTF-8**, if its name and its lines are. -/
theorem isValid_print_directives {name : Bytes} (hname : isValid name) {ls : List Bytes}
    (h : ∀ line ∈ ls, isValid line) : ∀ d ∈ directives name ls, isValid d.print := by
  intro d hd
  refine Directive.isValid_print ?_
  rw [directives_eq, preamble, List.mem_append, List.mem_append, List.mem_append,
    List.mem_singleton, List.mem_singleton] at hd
  rcases hd with ((hd | rfl) | hd) | rfl
  · split at hd
    · cases hd
    · rw [List.mem_singleton.mp hd]
      exact hname
  · exact Marker.isValid_tag _
  · exact Marker.isValid_payload_body _ h d hd
  · exact Marker.isValid_tag _

/-- Marking up writes directives of the source and nothing else, one a piece. -/
theorem exists_written_markup (name : Bytes) (input : Intake) :
    ∃ ds ⊆ directives name (lines input.bytes),
      (markup ({} : Sink) name input).1.pieces = (written ds).reverse := by
  obtain ⟨source, failure⟩ := input
  cases failure with
  | none =>
      refine ⟨_, List.Subset.refl _, ?_⟩
      rw [@markup_of_room {} rfl]
      exact List.append_nil _
  | some why =>
      refine ⟨preamble name ++ Marker.body {} (lines source), ?_, ?_⟩
      · rw [directives_eq]
        exact List.subset_append_left _ _
      · rw [@markup_of_failure {} rfl]
        exact List.append_nil _

theorem isValid_stream {ds : List Directive} (h : ∀ d ∈ ds, isValid d.print) :
    isValid (Directive.stream ds) := by
  refine isValid_flatten fun piece hpiece => ?_
  obtain ⟨d, hd, rfl⟩ := List.mem_map.mp hpiece
  exact (isValid_append_cons (by decide)).mpr ⟨h d hd, isValid_nil⟩

end Literate.Noweb

namespace Literate

open Bytes Text

/-- The conversion went through and gave nothing but UTF-8. -/
structure Conversion.IsUtf8 (c : Conversion Sink) : Prop where
  error : c.error = none
  contents : isValid c.out.contents
  diagnostics : ∀ d ∈ c.diagnostics, d.IsUtf8

/-- A conversion that ran a session over a stream of UTF-8. -/
theorem Conversion.isValid_of_stream {c : Conversion Sink} {stream : Bytes} (h : isValid stream)
    (hremarks : c.remarks = Session.remarks {} (lines stream))
    (hcontents : c.out.contents = Session.output {} (lines stream)) :
    isValid c.out.contents ∧ ∀ d ∈ c.diagnostics, d.IsUtf8 := by
  have hls : ∀ line ∈ lines stream, isValid line := fun _ => isValid_of_mem_lines h
  refine ⟨?_, ?_⟩
  · rw [hcontents]
    exact Session.IsUtf8.fresh.output hls
  · intro d hd
    obtain ⟨remark, hremark, hsome⟩ := List.mem_filterMap.mp hd
    rw [hremarks] at hremark
    cases remark with
    | diagnostic d' =>
        cases hsome
        exact Session.IsUtf8.fresh.remarks hls hremark
    | ignored | undefinedBlock => cases hsome

theorem Conversion.IsUtf8.of_stream {c : Conversion Sink} {stream : Bytes} (h : isValid stream)
    (herror : c.error = none) (hremarks : c.remarks = Session.remarks {} (lines stream))
    (hcontents : c.out.contents = Session.output {} (lines stream)) : c.IsUtf8 := by
  obtain ⟨hvalid, hdiagnostics⟩ := Conversion.isValid_of_stream h hremarks hcontents
  exact ⟨herror, hvalid, hdiagnostics⟩

/-- **UTF-8 is converted to UTF-8**, from a source with any name of one line. -/
theorem Format.convert_isUtf8 (format : Format) {name source : Bytes} (hname : lf ∉ name)
    (hsource : isValid source) : (format.convert name ⟨source, none⟩ ({} : Sink)).IsUtf8 := by
  cases format with
  | tagged =>
      obtain ⟨herror, hremarks, hcontents⟩ := Session.run_of_unlimited source
      refine .of_stream hsource ?_ hremarks hcontents
      show ((Session.run ({} : Sink) ⟨source, none⟩).error.map ConversionError.run) = none
      rw [herror]
      rfl
  | noweb =>
      -- the name is ignored, so the text is that of a source without one
      obtain ⟨out, failure, hsame⟩ := Noweb.exists_convert_noweb ⟨source, none⟩
      obtain ⟨hout, hnone, -⟩ := hsame name hname
      obtain ⟨hout', -, -⟩ := hsame [] List.not_mem_nil
      obtain ⟨herror, hremarks, hcontents⟩ := Noweb.convert_noweb [] source
      have hstream := Noweb.isValid_stream (@Noweb.isValid_print_directives [] isValid_nil _
        fun _ => isValid_of_mem_lines hsource)
      have hempty := Conversion.IsUtf8.of_stream hstream herror hremarks hcontents
      refine ⟨(Noweb.convert_noweb name source).1, ?_, ?_⟩
      · rw [hout, ← hout']
        exact hempty.contents
      · rw [Conversion.diagnostics, hnone]
        intro d hd
        cases hd

/-- A tagged stream of UTF-8, also one that breaks off. -/
theorem Format.isValid_convert_tagged (name : Bytes) {input : Intake} (h : isValid input.bytes) :
    let c := Format.tagged.convert name input ({} : Sink)
    isValid c.out.contents ∧ ∀ d ∈ c.diagnostics, d.IsUtf8 := by
  intro c
  obtain ⟨-, hremarks, hcontents⟩ := Session.run_of_unlimited input.bytes
  rw [← Session.run_ending] at hremarks hcontents
  exact Conversion.isValid_of_stream h hremarks hcontents

/-- Noweb source of UTF-8. If it breaks off, there is neither output nor diagnostics. -/
theorem Format.isValid_convert_noweb {name : Bytes} (hname : isValid name) {input : Intake}
    (h : isValid input.bytes) :
    let c := Format.noweb.convert name input ({} : Sink)
    isValid c.out.contents ∧ ∀ d ∈ c.diagnostics, d.IsUtf8 := by
  intro c
  obtain ⟨source, failure⟩ := input
  cases failure with
  | none =>
      obtain ⟨-, hremarks, hcontents⟩ := Noweb.convert_noweb name source
      have hdirectives := @Noweb.isValid_print_directives name hname _
        fun _ => isValid_of_mem_lines h
      exact Conversion.isValid_of_stream (Noweb.isValid_stream hdirectives) hremarks hcontents
  | some why =>
      have hc : c = { out := {}, error := some (.markup name (.read why)) } :=
        Noweb.convert_noweb_of_failure name source why ({} : Sink)
      rw [hc]
      exact ⟨isValid_nil, nofun⟩

/-- **UTF-8 in, UTF-8 out.** If an input is UTF-8, then so is every directive that marking it up
writes, the whole output of its conversion, and what the diagnostics quote from it. For noweb source
its name has to be UTF-8, too. -/
theorem Format.convert_keeps_utf8 (name : Bytes) (input : Intake) (h : isValid input.bytes) :
    (isValid name → ∀ piece ∈ (Noweb.markup ({} : Sink) name input).1.pieces,
      ∃ d : Directive, piece = d.print ++ [lf] ∧ isValid d.print) ∧
    ∀ format : Format, (format = .noweb → isValid name) →
      let c := format.convert name input ({} : Sink)
      isValid c.out.contents ∧ ∀ d ∈ c.diagnostics, isValid d.found ∧ isValid d.expected := by
  constructor
  · intro hname piece hpiece
    obtain ⟨ds, hds, hpieces⟩ := Noweb.exists_written_markup name input
    rw [hpieces, List.mem_reverse] at hpiece
    obtain ⟨d, hd, rfl⟩ := List.mem_map.mp hpiece
    refine ⟨d, rfl, ?_⟩
    exact Noweb.isValid_print_directives hname (fun _ => isValid_of_mem_lines h) d (hds hd)
  · intro format hname c
    have hc : isValid c.out.contents ∧ ∀ d ∈ c.diagnostics, d.IsUtf8 := by
      cases format with
      | tagged => exact Format.isValid_convert_tagged name h
      | noweb => exact Format.isValid_convert_noweb (hname rfl) h
    refine ⟨hc.1, fun d hd => ?_⟩
    exact ⟨(hc.2 d hd).found, (hc.2 d hd).expected⟩

/-- Characters of several bytes right beside the markers, in noweb source and in a stream whose name
is no UTF-8. -/
theorem Format.convert_keeps_utf8_beside :
    let source : Intake := ⟨utf8 "<<λ>>=\nα@<<β<<γ>>δ\n@ ö[[ü]]ß\n", none⟩
    let stream : Intake := ⟨utf8 "@begin λ é\n@end µ\n", none⟩
    let c := Format.noweb.convert (utf8 "ñ.nw") source ({} : Sink)
    let c' := Format.tagged.convert [0xFF] stream ({} : Sink)
    isValid source.bytes ∧ isValid stream.bytes ∧ isValid (utf8 "ñ.nw") ∧ ¬isValid [0xFF] ∧
      utf8 "@use γ\n" ∈ (Noweb.markup ({} : Sink) (utf8 "ñ.nw") source).1.pieces ∧
      (∃ d : Directive, utf8 "@use γ\n" = d.print ++ [lf] ∧ isValid d.print) ∧
      isValid c.out.contents ∧
      c'.diagnostics = [⟨2, some .mismatchedEnd, utf8 "µ", utf8 "λ"⟩] ∧
      isValid c'.out.contents ∧ ∀ d ∈ c'.diagnostics, isValid d.found ∧ isValid d.expected := by
  intro source stream c c'
  have hsource : isValid source.bytes := isValid_utf8 _
  have hname : isValid (utf8 "ñ.nw") := isValid_utf8 _
  have huse : utf8 "@use γ\n" ∈ (Noweb.markup ({} : Sink) (utf8 "ñ.nw") source).1.pieces := by
    decide +kernel
  obtain ⟨hdirectives, hconvert⟩ := Format.convert_keeps_utf8 (utf8 "ñ.nw") source hsource
  obtain ⟨-, htagged⟩ := Format.convert_keeps_utf8 [0xFF] stream (isValid_utf8 _)
  exact ⟨hsource, isValid_utf8 _, hname, by decide +kernel, huse, hdirectives hname _ huse,
    (hconvert .noweb fun _ => hname).1, by decide +kernel, htagged .tagged nofun⟩

end Literate
