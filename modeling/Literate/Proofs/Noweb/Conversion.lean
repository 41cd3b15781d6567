import Literate.Format
import Literate.Proofs.Noweb.Rendering
import Literate.Proofs.Noweb.Stream
import Literate.Proofs.Text

/-!
# Converting noweb source

Conversion marks the source up and runs a session over the lines of the stream. The two machines
meet only in these lines, and yet they keep in step: after each source line the session has the
chunk open that the marker is in, owes no header, and knows the names defined so far. `Lockstep` is
this relation, `RendersLine.writes` keeps it over one source line and `Renders.writes` over all of
them, so that what comes out is what the source renders as directly.
-/

namespace Literate.Noweb

open Bytes Text

/-! ### What a session makes of directives -/

/-- Fed with the lines of some directives, the session writes a text, remarks on nothing and ends up
in another session. -/
structure Writes (s : Session) (ds : List Directive) (out : Bytes) (s' : Session) : Prop where
  after : s.after (ds.map Directive.print) = s'
  output : s.output (ds.map Directive.print) = out
  remarks : s.remarks (ds.map Directive.print) = []

namespace Writes

variable {s s' s'' : Session} {ds ds' : List Directive} {out out' : Bytes}

theorem nil (s : Session) : Writes s [] [] s := ⟨rfl, rfl, rfl⟩

theorem append (h : Writes s ds out s') (h' : Writes s' ds' out' s'') :
    Writes s (ds ++ ds') (out ++ out') s'' := by
  obtain ⟨rfl, rfl, hremarks⟩ := h
  obtain ⟨rfl, rfl, hremarks'⟩ := h'
  constructor
  · rw [List.map_append, Session.after_append]
  · rw [List.map_append, Session.output_append]
  · rw [List.map_append, Session.remarks_append, hremarks, hremarks', List.append_nil]

theorem single {d : Directive} (hd : d.isKnown) (h : (s.counted.obey d).2.remark = none) :
    Writes s [d] (s.counted.obey d).2.pieces.flatten (s.counted.obey d).1 := by
  have hfeed : s.feed d.print = s.counted.obey d := s.feed_of_parse? (Directive.parse?_print hd)
  constructor
  · rw [List.map_singleton, Session.after_cons, Session.after_nil, hfeed]
  · rw [List.map_singleton, Session.output_cons, Session.output_nil, hfeed, List.append_nil]
  · rw [List.map_singleton, Session.remarks_cons, Session.remarks_nil, hfeed, h]
    rfl

/-- Directives inside of a line are shown, and apart from the count of lines nothing changes. -/
theorem inline (h : ∀ d ∈ ds, (inline? d).isSome) (s : Session) :
    ∃ n, Writes s ds (shown ds) { s with lineNumber := n } := by
  induction ds generalizing s with
  | nil => exact ⟨s.lineNumber, nil s⟩
  | cons d ds ih =>
      obtain ⟨n, hrest⟩ := ih (fun e he => h e (List.mem_cons_of_mem d he)) s.counted
      obtain ⟨text, htext⟩ := Option.isSome_iff_exists.mp (h d List.mem_cons_self)
      have hobey : s.counted.obey d = (s.counted, { pieces := [text] }) ∧ d.isKnown := by
        cases d <;> cases htext <;> exact ⟨rfl, rfl⟩
      have hsingle := @single s d hobey.2 (by rw [hobey.1])
      rw [hobey.1, List.flatten_singleton] at hsingle
      refine ⟨n, ?_⟩
      rw [shown_cons, htext]
      exact hsingle.append hrest

end Writes

theorem inline_codeLine (line : Bytes) : ∀ d ∈ codeLine line, (inline? d).isSome := by
  intro d hd
  rcases (isCodeLine_codeLine line).item d hd with ⟨s, -, rfl⟩ | ⟨name, rfl⟩ <;> rfl

theorem inline_docsLine (line : Bytes) : ∀ d ∈ docsLine line, (inline? d).isSome := by
  intro d hd
  rcases (isDocsLine_docsLine line).item d hd with ⟨s, -, rfl⟩ | rfl | rfl <;> rfl

/-! ### The session keeps step with the marker -/

/-- The session is in a chunk of the given kind, past its header, and knows just these names. -/
structure Lockstep (kind : Kind) (defined : Finset Bytes) (s : Session) : Prop where
  chunk : s.chunk = some kind.name
  headerDue : s.headerDue = false
  mem_defined : ∀ name, name ∈ s.defined ↔ name ∈ defined

theorem firstField_tag (m : Marker) : firstField m.tag = m.kind.name := by
  have hne : m.kind.name ≠ [] := by cases m.kind <;> decide
  have hall : m.kind.name.all fun b => decide (b < 0x80 ∧ (asciiGlyph b).isBlank = false) := by
    cases m.kind <;> decide
  refine firstField_word hne (fun b hb => ?_) _
  exact of_decide_eq_true (List.all_eq_true.mp hall b hb)

theorem writes_opening (m : Marker) (s : Session) :
    Writes s [m.opening] [] (s.counted.openChunk m.kind.name) := by
  have h := @Writes.single s m.opening rfl rfl
  rw [← firstField_tag]
  exact h

/-- What ends a line of text: a line feed, and in code the indentation of the next line. -/
def lineEnd : Kind → Bytes
  | .docs => utf8 "\n"
  | .code => utf8 "\n\t"

/-- The end of a line on which a header is due writes it. -/
theorem writes_header {s : Session} {d : Definition} (hdue : s.headerDue = true)
    (hcurrent : s.current = some d) :
    Writes s [.newline] (utf8 "\n" ++ History.blockHead d.name d.continued)
      { s.counted with headerDue := false } := by
  have hobey : s.counted.obey .newline = s.counted.newline := rfl
  have hremark : s.counted.newline.2.remark = none := by
    rw [Session.remark_newline]
    exact if_neg fun h => Option.some_ne_none d (hcurrent.symm.trans h.2)
  have hname : s.counted.currentName = d.name := by simp [Session.currentName, hcurrent]
  have hagain : s.counted.isContinued = d.continued := by simp [Session.isContinued, hcurrent]
  have hpieces : s.counted.newline.2.pieces.flatten =
      utf8 "\n" ++ History.blockHead d.name d.continued := by
    rw [Session.pieces_newline, if_pos hdue, List.flatten_cons, History.header_flatten, hname,
      hagain]
  have hsingle := @Writes.single s .newline rfl hremark
  rwa [hobey, hpieces, Session.fst_newline] at hsingle

/-- The first definition of a name writes its target. -/
theorem writes_defn (s : Session) (name : Bytes) :
    Writes s [.defn name] (if name ∈ s.defined then [] else History.targetLine name)
      (s.counted.define name).1 := by
  have hobey : s.counted.obey (.defn name) = s.counted.define name := rfl
  have hpieces : (s.counted.define name).2.pieces.flatten =
      if name ∈ s.defined then [] else History.targetLine name := by
    rw [Session.pieces_define, History.anchorLine_eq]
    split
    · rfl
    · exact List.append_nil _
  have hsingle := @Writes.single s (.defn name) rfl (s.counted.remark_define name)
  rwa [hobey, hpieces] at hsingle

namespace Lockstep

variable {kind : Kind} {defined : Finset Bytes} {s : Session}

theorem writes_closing {m : Marker} (h : Lockstep m.kind defined s) :
    Writes s [m.closing] (gap m.kind) { s.counted with chunk := none } := by
  have hobey : s.counted.obey m.closing =
      ({ s.counted with chunk := none },
        { pieces := if m.kind.name = docsKind then [utf8 "\n"] else [] }) := by
    show s.counted.closeChunk (firstField m.tag) = _
    have hopen : s.counted.chunk = some m.kind.name := h.chunk
    rw [firstField_tag, Session.closeChunk, Session.mismatch?, if_pos hopen]
    rfl
  have hgap : (if m.kind.name = docsKind then [utf8 "\n"] else []).flatten = gap m.kind := by
    cases m.kind <;> decide
  have hsingle := @Writes.single s m.closing rfl (by rw [hobey])
  rwa [hobey, hgap] at hsingle

theorem writes_newline (h : Lockstep kind defined s) :
    Writes s [.newline] (lineEnd kind) s.counted := by
  have hdue : s.counted.headerDue = false := h.headerDue
  have hchunk : s.counted.chunk = some kind.name := h.chunk
  have hobey : s.counted.obey .newline = s.counted.newline := rfl
  have hafter : s.counted.newline.1 = s.counted := by
    rw [Session.fst_newline, ← hdue]
  have hpieces : s.counted.newline.2.pieces.flatten = lineEnd kind := by
    rw [Session.pieces_newline, hdue, hchunk, if_neg Bool.false_ne_true]
    cases kind <;> decide
  have hremark : s.counted.newline.2.remark = none := by
    rw [Session.remark_newline, hdue]
    rfl
  have hsingle := @Writes.single s .newline rfl hremark
  rwa [hobey, hafter, hpieces] at hsingle

theorem writes_line {ds : List Directive} (h : Lockstep kind defined s)
    (hds : ∀ d ∈ ds, (inline? d).isSome) :
    ∃ s', Writes s (ds ++ [.newline]) (shown ds ++ lineEnd kind) s' ∧ Lockstep kind defined s' := by
  obtain ⟨n, htext⟩ := Writes.inline hds s
  have h' : Lockstep kind defined { s with lineNumber := n } :=
    ⟨h.chunk, h.headerDue, h.mem_defined⟩
  exact ⟨_, htext.append h'.writes_newline, h'.chunk, h'.headerDue, h'.mem_defined⟩

theorem writes_heading {m : Marker} (h : Lockstep m.kind defined s) (kind : Kind) :
    ∃ s', Writes s [m.closing, (m.next kind).opening] (gap m.kind) s' ∧
      s'.chunk = some kind.name ∧ s'.headerDue = decide (kind = .code) ∧
      ∀ name, name ∈ s'.defined ↔ name ∈ defined := by
  have hclose := h.writes_closing
  have hopen := writes_opening (m.next kind) { s.counted with chunk := none }
  have hboth := hclose.append hopen
  rw [List.append_nil] at hboth
  refine ⟨_, hboth, rfl, ?_, h.mem_defined⟩
  show (s.headerDue || decide (kind.name = codeKind)) = _
  rw [h.headerDue]
  cases kind <;> decide

theorem writes_docsStart {m : Marker} (h : Lockstep m.kind defined s) {ds : List Directive}
    (hds : ∀ d ∈ ds, (inline? d).isSome) :
    ∃ s', Writes s (m.closing :: (m.next .docs).opening :: ds ++ [.newline])
        (gap m.kind ++ (shown ds ++ lineEnd .docs)) s' ∧ Lockstep .docs defined s' := by
  obtain ⟨s₁, hheading, hchunk, hdue, hdefined⟩ := h.writes_heading .docs
  -- after the heading the machines are in step again, now in documentation
  have hs₁ : Lockstep .docs defined s₁ := ⟨hchunk, hdue, hdefined⟩
  obtain ⟨s₂, hline, hs₂⟩ := hs₁.writes_line hds
  exact ⟨s₂, hheading.append hline, hs₂⟩

/-- A definition brings a header, and the end of its line pays it. -/
theorem writes_definition {m : Marker} (h : Lockstep m.kind defined s) (name : Bytes) :
    ∃ s', Writes s [m.closing, (m.next .code).opening, .defn name, .newline]
        (gap m.kind ++ (if name ∈ defined then [] else History.targetLine name) ++ utf8 "\n" ++
          History.blockHead name (name ∈ defined)) s' ∧
      Lockstep .code (insert name defined) s' := by
  obtain ⟨s₁, hheading, hchunk, hdue, hdefined⟩ := h.writes_heading .code
  have hdue' : (s₁.counted.define name).1.headerDue = true := by
    rw [Session.headerDue_define]
    exact hdue
  -- the names known at the definition are those before it: the plus sign depends on them as well
  have hdefn := writes_defn s₁ name
  have hheader := writes_header hdue' (s₁.counted.current_define name)
  simp only [hdefined] at hdefn hheader
  have hall := (hheading.append hdefn).append hheader
  rw [← List.append_assoc] at hall
  refine ⟨_, hall, ?_, rfl, ?_⟩
  · show (s₁.counted.define name).1.chunk = _
    rw [Session.chunk_define]
    exact hchunk
  · intro other
    show other ∈ (s₁.counted.define name).1.defined ↔ _
    rw [Session.mem_defined_define, Finset.mem_insert, or_comm]
    exact or_congr_right (hdefined other)

end Lockstep

/-! ### One source line, and all of them -/

theorem not_isHeading_escaped (rest : Bytes) : ¬ IsHeading (utf8 "@@" ++ rest) := by
  have hsecond : ((utf8 "@@" ++ rest).drop 1).head? = some atSign := rfl
  rintro (⟨name, hname⟩ | ⟨rest', h | h | h⟩)
  · have hhead : some atSign = some 60 := head?_of_isDefinition hname
    exact absurd hhead (by decide)
  · rw [h.1] at hsecond
    exact absurd hsecond (by decide)
  · rw [h] at hsecond
    have hspace : some space = some atSign := hsecond
    exact absurd hspace (by decide)
  · rw [h] at hsecond
    have htab : some tab = some atSign := hsecond
    exact absurd htab (by decide)

theorem RendersLine.writes {kind kind' : Kind} {defined defined' : Finset Bytes} {line out : Bytes}
    (h : RendersLine kind defined line out kind' defined') {m : Marker} (hm : m.kind = kind)
    {s : Session} (hs : Lockstep kind defined s) :
    (m.line line).1.kind = kind' ∧
      ∃ s', Writes s (m.line line).2 out s' ∧ Lockstep kind' defined' s' := by
  cases h with
  | @definition _ _ _ name hname =>
      subst hm
      rw [m.line_of_isDefinition hname]
      exact ⟨rfl, hs.writes_definition name⟩
  | @docsStart _ _ _ rest t hrest ht =>
      subst hm
      have hline := hs.writes_docsStart (inline_docsLine rest)
      rw [docsText_iff.mp ht, ← List.append_assoc] at hline
      rw [m.line_of_isDocsStart hrest]
      exact ⟨rfl, hline⟩
  | @code _ _ t hplain ht =>
      have hline := hs.writes_line (inline_codeLine line)
      rw [codeText_iff.mp ht] at hline
      rw [m.line_of_not_isHeading hplain, hm]
      exact ⟨rfl, hline⟩
  | @docs _ _ t hplain hat ht =>
      have hline := hs.writes_line (inline_docsLine line)
      rw [docsText_iff.mp ht] at hline
      rw [m.line_of_not_isHeading hplain, hm, unescapeDocs_of_not_prefix hat]
      exact ⟨rfl, hline⟩
  | @escaped _ rest t ht =>
      have hline := hs.writes_line (inline_docsLine (utf8 "@" ++ rest))
      rw [docsText_iff.mp ht] at hline
      rw [m.line_of_not_isHeading (not_isHeading_escaped rest), hm]
      exact ⟨rfl, hline⟩

/-- Over any source lines the session writes what they render as, and the end of the last chunk
after them. -/
theorem Renders.writes {kind : Kind} {defined : Finset Bytes} {ls : List Bytes} {out : Bytes}
    (h : Renders kind defined ls out) {m : Marker} (hm : m.kind = kind) {s : Session}
    (hs : Lockstep kind defined s) :
    ∃ s', Writes s (m.body ls ++ [(m.after ls).closing]) out s' := by
  induction h generalizing m s with
  | nil =>
      subst hm
      exact ⟨_, hs.writes_closing⟩
  | cons hline _ ih =>
      obtain ⟨hkind, s₁, hfirst, hs₁⟩ := hline.writes hm hs
      obtain ⟨s₂, hrest⟩ := ih hkind hs₁
      rw [Marker.body_cons, Marker.after_cons, List.append_assoc]
      exact ⟨s₂, hfirst.append hrest⟩

/-! ### The lines between the two -/

theorem directives_eq_file (name : Bytes) (ls : List Bytes) :
    directives name ls =
      (if name = [] then [] else [.file name]) ++ directives [] ls := by
  simp [directives_eq, preamble]

/-- Reading back treats the name of the source apart from the directives of its lines. -/
theorem map_directives (name : Bytes) (ls : List Bytes) :
    (directives name ls).map (Directive.mapPayload trimCr) =
      (if name = [] then [] else [.file (trimCr name)]) ++
        (directives [] ls).map (Directive.mapPayload trimCr) := by
  rw [directives_eq_file, List.map_append]
  split <;> rfl

/-- The lines of the stream are the directives again. Only the name of the source may lose a
carriage return at its end. -/
theorem lines_stream {name : Bytes} (hname : lf ∉ name) {ls : List Bytes}
    (hlf : ∀ line ∈ ls, lf ∉ line) (hcr : ∀ line ∈ ls, cr ∉ line) :
    lines (Directive.stream (directives name ls)) =
      ((if name = [] then [] else [Directive.file (trimCr name)]) ++ directives [] ls).map
        Directive.print := by
  have hread := Directive.lines_stream (not_mem_print_directives (by decide) hname hlf)
  -- the stream of a source without a name has no carriage return at all
  have hrest : ((directives [] ls).map (Directive.mapPayload trimCr)).map Directive.print =
      (directives [] ls).map Directive.print := by
    rw [List.map_map]
    apply List.map_congr_left
    intro d hd
    show (d.mapPayload trimCr).print = _
    rw [← Directive.trimCr_print]
    exact trimCr_of_not_mem (not_mem_print_directives (by decide) List.not_mem_nil hcr d hd)
  rw [hread, map_directives, List.map_append, hrest, ← List.map_append]

/-! ### The whole conversion -/

/-- A session in which no more than the name of the source has been read. -/
theorem lockstep_opening (n : Nat) :
    Lockstep .docs ∅ (Session.openChunk { lineNumber := n } (Kind.name .docs)) where
  chunk := rfl
  headerDue := by
    show (false || decide (Kind.name .docs = codeKind)) = false
    decide
  mem_defined := by simp [Session.openChunk]

theorem writes_file (name : Bytes) (s : Session) : Writes s [.file name] [] s.counted :=
  Writes.single rfl rfl

/-- A name in front of a stream takes up a line and is ignored. -/
theorem writes_named {ds : List Directive} {out : Bytes}
    (h : ∀ n, ∃ s', Writes { lineNumber := n } ds out s') (name : Bytes) :
    ∃ s', Writes {} ((if name = [] then [] else [.file (trimCr name)]) ++ ds) out s' := by
  split
  · exact h 0
  · obtain ⟨s', hrest⟩ := h 1
    exact ⟨s', (writes_file (trimCr name) {}).append hrest⟩

/-- From a fresh session on, the stream of a source writes what the source renders as. -/
theorem Renders.writes_directives {ls : List Bytes} {out : Bytes} (h : Renders .docs ∅ ls out)
    (n : Nat) : ∃ s', Writes { lineNumber := n } (directives [] ls) out s' := by
  have hopen := writes_opening {} { lineNumber := n }
  obtain ⟨s', hbody⟩ := @Renders.writes _ _ _ _ h {} rfl _ (lockstep_opening (n + 1))
  have hall := hopen.append hbody
  rw [directives_eq, List.append_assoc]
  exact ⟨s', hall⟩

theorem Renders.output_stream {name : Bytes} (hname : lf ∉ name) {ls : List Bytes}
    (hlf : ∀ line ∈ ls, lf ∉ line) (hcr : ∀ line ∈ ls, cr ∉ line) {out : Bytes}
    (h : Renders .docs ∅ ls out) :
    Session.output {} (lines (Directive.stream (directives name ls))) = out ∧
      Session.remarks {} (lines (Directive.stream (directives name ls))) = [] := by
  obtain ⟨s', hwrites⟩ := writes_named h.writes_directives name
  rw [lines_stream hname hlf hcr]
  exact ⟨hwrites.output, hwrites.remarks⟩

/-- Converting noweb source is running a session over its stream. -/
theorem convert_noweb (name source : Bytes) :
    (Format.noweb.convert name ⟨source, none⟩ ({} : Sink)).error = none ∧
      (Format.noweb.convert name ⟨source, none⟩ ({} : Sink)).remarks =
        Session.remarks {} (lines (Directive.stream (directives name (lines source)))) ∧
      (Format.noweb.convert name ⟨source, none⟩ ({} : Sink)).out.contents =
        Session.output {} (lines (Directive.stream (directives name (lines source)))) := by
  have hprepare : Format.noweb.prepare name ⟨source, none⟩ =
      .ok ⟨Directive.stream (directives name (lines source)), none⟩ := by
    rw [Format.prepare, @markup_of_room {} rfl name source]
    simp only [Sink.contents_taking]
    rfl
  obtain ⟨herror, hremarks, hcontents⟩ :=
    Session.run_of_unlimited (Directive.stream (directives name (lines source)))
  simp only [Format.convert, hprepare, herror, Option.map_none]
  exact ⟨trivial, hremarks, hcontents⟩

section

variable {name source : Bytes} (hname : lf ∉ name) (hsource : ∀ line ∈ lines source, cr ∉ line)

include hname hsource

theorem Renders.convert_eq {out : Bytes} (h : Renders .docs ∅ (lines source) out) :
    (Format.noweb.convert name ⟨source, none⟩ ({} : Sink)).out.contents = out ∧
      (Format.noweb.convert name ⟨source, none⟩ ({} : Sink)).remarks = [] := by
  obtain ⟨-, hremarks, hcontents⟩ := convert_noweb name source
  obtain ⟨houtput, hnone⟩ := h.output_stream hname
    (fun line hline => lf_not_mem_of_mem_lines hline) hsource
  exact ⟨hcontents.trans houtput, hremarks.trans hnone⟩

/-- The source renders as something, so that is what conversion writes. -/
theorem renders_convert :
    Renders .docs ∅ (lines source)
      (Format.noweb.convert name ⟨source, none⟩ ({} : Sink)).out.contents := by
  obtain ⟨out, hout⟩ := exists_renders .docs ∅ (lines source)
  rwa [(hout.convert_eq hname hsource).1]

end

/-- **Converting noweb source is rendering it directly.** If no line of the source has a carriage
return in it, conversion does not fail, reports nothing, and writes what the lines render as, which
is one text and no other. -/
theorem convert_noweb_iff_renders (name source : Bytes) (hname : lf ∉ name)
    (hsource : ∀ line ∈ lines source, cr ∉ line) :
    let c := Format.noweb.convert name ⟨source, none⟩ ({} : Sink)
    c.error = none ∧ c.diagnostics = [] ∧
      ∀ out, Renders .docs ∅ (lines source) out ↔ c.out.contents = out := by
  intro c
  obtain ⟨herror, -, -⟩ := convert_noweb name source
  have hrenders : Renders .docs ∅ (lines source) c.out.contents := renders_convert hname hsource
  refine ⟨herror, ?_, fun out => ⟨fun h => (h.convert_eq hname hsource).1, ?_⟩⟩
  · rw [Conversion.diagnostics, (hrenders.convert_eq hname hsource).2]
    rfl
  · rintro rfl
    exact hrenders

/-- A chunk defined twice, an escape and a use in it, quotes, and both kinds of line ends. -/
theorem convert_noweb_iff_renders_twice :
    let name := utf8 "demo.nw\r"
    let source := utf8 "see [[q]]\r\n<<a b.s>>= \nx <<y>> @<<z\n@\n@@ more\n<<a b.s>>=\n"
    let out := utf8 ("see ``q``\n\n.. _a_b.s:\n\n.. highlight:: gas\n\n``⟨a b.s⟩≡`` ::\n\t\n" ++
      "\tx <<y>> <<z\n\t\n@ more\n\n\n.. highlight:: gas\n\n``⟨a b.s⟩+≡`` ::\n\t\n\t")
    lf ∉ name ∧ (∀ line ∈ lines source, cr ∉ line) ∧
      let c := Format.noweb.convert name ⟨source, none⟩ ({} : Sink)
      c.error = none ∧ c.diagnostics = [] ∧ c.out.contents = out ∧
        ∀ out', Renders .docs ∅ (lines source) out' ↔ out = out' := by
  intro name source out
  have hname : lf ∉ name := by decide
  have hsource : ∀ line ∈ lines source, cr ∉ line := by decide
  obtain ⟨herror, hdiagnostics, hrenders⟩ := convert_noweb_iff_renders name source hname hsource
  have hout : (Format.noweb.convert name ⟨source, none⟩ ({} : Sink)).out.contents = out := by
    decide +kernel
  rw [hout] at hrenders
  exact ⟨hname, hsource, herror, hdiagnostics, hout, hrenders⟩

end Literate.Noweb
