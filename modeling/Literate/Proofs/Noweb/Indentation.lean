import Literate.Proofs.Noweb.Conversion

/-!
# Where the lines of the output start

The end of a code line writes the indentation of the next one before anybody knows what that will
be. If it is code, the indentation belongs to it. If it is a heading, the chunk is over, and yet
what the heading writes follows the tab:

    <<a>>=          .. _a:  …  ::↵→↵→
    x               x↵→
    <<b>>=          .. _b:  …              the target of `b` is indented like code

So a target, or a line of documentation, starts at the margin exactly if it is met in documentation
(`convert_noweb_margin`). `RendersTo` is `Renders` up to any line of the source, `Stands` is what
every line leaves behind for the next, and `Shows` singles out what is not code.
-/

namespace Literate.Noweb

open Bytes

/-- Nothing is written yet, or the last line is ended. -/
def AtMargin (text : Bytes) : Prop := text = [] ∨ text.getLast? = some lf

instance (text : Bytes) : Decidable (AtMargin text) :=
  inferInstanceAs (Decidable (text = [] ∨ text.getLast? = some lf))

theorem not_atMargin_of_tab {text : Bytes} (h : utf8 "\n\t" <:+ text) : ¬ AtMargin text := by
  obtain ⟨before, rfl⟩ := h
  have hlast : (before ++ utf8 "\n\t").getLast? = some tab := by
    rw [List.getLast?_append]
    rfl
  rintro (hnil | hlf)
  · rw [hnil] at hlast
    cases hlast
  · rw [hlast] at hlf
    exact absurd hlf (by decide)

theorem atMargin_append_lf (text : Bytes) : AtMargin (text ++ utf8 "\n") := by
  right
  rw [List.getLast?_append]
  rfl

/-! ### The output up to a line -/

/-- What lines read as up to the line after them, and the kind of chunk and the names there. -/
inductive RendersTo : Kind → Finset Bytes → List Bytes → Bytes → Kind → Finset Bytes → Prop
  | nil {kind defined} : RendersTo kind defined [] [] kind defined
  | cons {kind defined line out kind' defined' ls out' kind'' defined''} :
      RendersLine kind defined line out kind' defined' →
      RendersTo kind' defined' ls out' kind'' defined'' →
      RendersTo kind defined (line :: ls) (out ++ out') kind'' defined''

theorem Renders.split {kind : Kind} {defined : Finset Bytes} {before after : List Bytes}
    {out : Bytes} (h : Renders kind defined (before ++ after) out) :
    ∃ start kind' defined' rest, RendersTo kind defined before start kind' defined' ∧
      Renders kind' defined' after rest ∧ out = start ++ rest := by
  induction before generalizing kind defined out with
  | nil => exact ⟨[], kind, defined, out, .nil, h, rfl⟩
  | cons line before ih =>
      cases h with
      | @cons _ _ _ first _ _ _ others hline hothers =>
          obtain ⟨start, kind', defined', rest, hstart, hrest, rfl⟩ := ih hothers
          refine ⟨first ++ start, kind', defined', rest, .cons hline hstart, hrest, ?_⟩
          rw [List.append_assoc]

/-- The output stands where a line of the given kind is met. -/
def Stands : Kind → Bytes → Prop
  | .docs, text => AtMargin text
  | .code, text => utf8 "\n\t" <:+ text

/-- **A line leaves the output where the next one is met**, wherever it was met itself. -/
theorem RendersLine.stands {kind kind' : Kind} {defined defined' : Finset Bytes} {line out : Bytes}
    (h : RendersLine kind defined line out kind' defined') (start : Bytes) :
    Stands kind' (start ++ out) := by
  cases h with
  | definition =>
      -- the head of a block ends with an empty line of code and the indentation of the next
      have hhead : utf8 "≡`` ::\n\t\n\t" = utf8 "≡`` ::\n\t" ++ utf8 "\n\t" := by decide
      rw [History.blockHead, hhead]
      simp only [← List.append_assoc]
      exact List.suffix_append _ _
  | docsStart | docs | escaped =>
      rw [← List.append_assoc]
      exact atMargin_append_lf _
  | code =>
      rw [← List.append_assoc]
      exact List.suffix_append _ _

theorem RendersTo.stands {kind kind' : Kind} {defined defined' : Finset Bytes} {ls : List Bytes}
    {out : Bytes} (h : RendersTo kind defined ls out kind' defined') {start : Bytes}
    (hstart : Stands kind start) : Stands kind' (start ++ out) := by
  induction h generalizing start with
  | nil =>
      rw [List.append_nil]
      exact hstart
  | cons hline _ ih =>
      rw [← List.append_assoc]
      exact ih (hline.stands start)

/-! ### What is not code -/

/-- The line, met in a chunk of the given kind after the names `defined`, writes `lead` and then
`text`, and `text` is the target of a definition or a line of documentation. -/
inductive Shows (defined : Finset Bytes) : Kind → Bytes → Bytes → Bytes → Prop
  | target {kind line name} : IsDefinition line name → name ∉ defined →
      Shows defined kind line (gap kind) (History.targetLine name)
  | docsStart {kind line rest t} : IsDocsStart line rest → DocsText rest t →
      Shows defined kind line (gap kind) (t ++ utf8 "\n")
  | docs {line t} : ¬ IsHeading line → ¬ utf8 "@@" <+: line → DocsText line t →
      Shows defined .docs line [] (t ++ utf8 "\n")
  | escaped {rest t} : DocsText (utf8 "@" ++ rest) t →
      Shows defined .docs (utf8 "@@" ++ rest) [] (t ++ utf8 "\n")

/-- What can follow the indentation that a code line has written for the lines after it. -/
inductive AfterTab (defined : Finset Bytes) : List Bytes → Bytes → Prop
  | stop : AfterTab defined [] []
  | code {line ls t rest} : ¬ IsHeading line → CodeText line t →
      AfterTab defined (line :: ls) (t ++ utf8 "\n\t" ++ rest)
  | again {line name ls rest} : IsDefinition line name → name ∈ defined →
      AfterTab defined (line :: ls) (utf8 "\n" ++ rest)
  | shown {line ls text rest} : Shows defined .code line [] text →
      AfterTab defined (line :: ls) (text ++ rest)

theorem Renders.afterTab {defined : Finset Bytes} {ls : List Bytes} {out : Bytes}
    (h : Renders .code defined ls out) : AfterTab defined ls out := by
  cases h with
  | nil => exact .stop
  | @cons _ _ line first _ _ ls others hline _ =>
      cases hline with
      | @definition _ _ _ name hname =>
          by_cases hmem : name ∈ defined
          · rw [if_pos hmem, gap, List.nil_append, List.nil_append, List.append_assoc]
            exact .again hname hmem
          · rw [if_neg hmem, gap, List.nil_append, List.append_assoc, List.append_assoc]
            exact .shown (.target hname hmem)
      | docsStart hrest ht => exact .shown (.docsStart hrest ht)
      | code hplain ht => exact .code hplain ht

theorem Shows.rendersLine {defined : Finset Bytes} {kind : Kind} {line lead text : Bytes}
    (h : Shows defined kind line lead text) :
    ∃ more kind' defined', RendersLine kind defined line (lead ++ text ++ more) kind' defined' := by
  cases h with
  | @target _ _ name hname hnew =>
      have hline := @RendersLine.definition kind defined _ _ hname
      rw [if_neg hnew, List.append_assoc (gap kind ++ _)] at hline
      exact ⟨_, _, _, hline⟩
  | docsStart hrest ht =>
      have hline := @RendersLine.docsStart kind defined _ _ _ hrest ht
      refine ⟨[], .docs, defined, ?_⟩
      rwa [List.append_nil, ← List.append_assoc]
  | docs hplain hat ht =>
      refine ⟨[], .docs, defined, ?_⟩
      rw [List.append_nil]
      exact .docs hplain hat ht
  | escaped ht =>
      refine ⟨[], .docs, defined, ?_⟩
      rw [List.append_nil]
      exact .escaped ht

/-- A line reads as one text only, and leaves one kind and one set of names: a session in step with
the source shows them. -/
theorem RendersLine.unique {kind kind₁ kind₂ : Kind} {defined defined₁ defined₂ : Finset Bytes}
    {line out₁ out₂ : Bytes} (h₁ : RendersLine kind defined line out₁ kind₁ defined₁)
    (h₂ : RendersLine kind defined line out₂ kind₂ defined₂) :
    out₁ = out₂ ∧ kind₁ = kind₂ ∧ defined₁ = defined₂ := by
  have hstep : Lockstep kind defined { chunk := some kind.name, defined := defined.toList } :=
    ⟨rfl, rfl, fun _ => Finset.mem_toList⟩
  obtain ⟨hkind₁, _, hwrites₁, hstep₁⟩ := h₁.writes (m := ⟨kind, 0⟩) rfl hstep
  obtain ⟨hkind₂, _, hwrites₂, hstep₂⟩ := h₂.writes (m := ⟨kind, 0⟩) rfl hstep
  obtain rfl := hwrites₁.after.symm.trans hwrites₂.after
  refine ⟨hwrites₁.output.symm.trans hwrites₂.output, hkind₁.symm.trans hkind₂, ?_⟩
  ext name
  rw [← hstep₁.mem_defined, hstep₂.mem_defined]

theorem RendersTo.unique {kind kind₁ kind₂ : Kind} {defined defined₁ defined₂ : Finset Bytes}
    {ls : List Bytes} {out₁ out₂ : Bytes} (h₁ : RendersTo kind defined ls out₁ kind₁ defined₁)
    (h₂ : RendersTo kind defined ls out₂ kind₂ defined₂) :
    out₁ = out₂ ∧ kind₁ = kind₂ ∧ defined₁ = defined₂ := by
  induction h₁ generalizing out₂ with
  | nil =>
      cases h₂
      exact ⟨rfl, rfl, rfl⟩
  | cons hline _ ih =>
      cases h₂ with
      | cons hline' hrest' =>
          obtain ⟨rfl, rfl, rfl⟩ := hline.unique hline'
          obtain ⟨rfl, rfl, rfl⟩ := ih hrest'
          exact ⟨rfl, rfl, rfl⟩

theorem Shows.prefix_of_renders {defined : Finset Bytes} {kind : Kind} {line lead text : Bytes}
    (h : Shows defined kind line lead text) {ls : List Bytes} {out : Bytes}
    (hout : Renders kind defined (line :: ls) out) : lead ++ text <+: out := by
  obtain ⟨more, _, _, hshown⟩ := h.rendersLine
  cases hout with
  | cons hline _ =>
      rw [(hline.unique hshown).1, List.append_assoc _ more]
      exact List.prefix_append _ _

/-- After documentation it starts at the margin, after code behind the tab. -/
theorem Shows.atMargin_iff {defined : Finset Bytes} {kind : Kind} {line lead text : Bytes}
    (h : Shows defined kind line lead text) {start : Bytes} (hstart : Stands kind start) :
    AtMargin (start ++ lead) ↔ kind = .docs := by
  cases kind with
  | docs =>
      refine iff_of_true ?_ rfl
      cases h with
      | target | docsStart => exact atMargin_append_lf start
      | docs | escaped =>
          rw [List.append_nil]
          exact hstart
  | code =>
      refine iff_of_false ?_ Kind.noConfusion
      cases h with
      | target | docsStart =>
          rw [gap, List.append_nil]
          exact not_atMargin_of_tab hstart

/-! ### Conversions -/

/-- **Only code, and the heading that ends it, is indented.** Cut a source without stray carriage
returns anywhere between two lines. If the lines before end in code, the output up to there ends
with a tab on a line of its own, and this is followed by code, by the end of the line or of the
output, or by the target or the text of the heading that comes next. And what the next line has for
a target or for documentation starts at the margin exactly if the lines before end in
documentation. -/
theorem convert_noweb_margin (name source : Bytes) (hname : lf ∉ name)
    (hsource : ∀ line ∈ lines source, cr ∉ line) (before after : List Bytes)
    (hlines : lines source = before ++ after) :
    ∃ start kind defined rest, RendersTo .docs ∅ before start kind defined ∧
      (Format.noweb.convert name ⟨source, none⟩ ({} : Sink)).out.contents = start ++ rest ∧
      (kind = .code → utf8 "\n\t" <:+ start ∧ AfterTab defined after rest) ∧
      ∀ line lead text, after.head? = some line → Shows defined kind line lead text →
        lead ++ text <+: rest ∧ (AtMargin (start ++ lead) ↔ kind = .docs) := by
  have hall := renders_convert hname hsource
  rw [hlines] at hall
  obtain ⟨start, kind, defined, rest, hstart, hrest, hout⟩ := hall.split
  have hstands : Stands kind start := @RendersTo.stands _ _ _ _ _ _ hstart [] (.inl rfl)
  refine ⟨start, kind, defined, rest, hstart, hout, ?_, ?_⟩
  · rintro rfl
    exact ⟨hstands, hrest.afterTab⟩
  · intro line lead text hhead hshows
    obtain ⟨ls, rfl⟩ := List.head?_eq_some_iff.mp hhead
    exact ⟨hshows.prefix_of_renders hrest, hshows.atMargin_iff hstands⟩

/-- Between the code of one chunk and the definition of the next. -/
theorem convert_noweb_margin_between :
    let source := utf8 "intro\n<<a>>=\nx\n<<b>>=\n@ y\n"
    let before := [utf8 "intro", utf8 "<<a>>=", utf8 "x"]
    let after := [utf8 "<<b>>=", utf8 "@ y"]
    let start := utf8 "intro\n\n.. _a:\n\n.. highlight:: c\n\n``⟨a⟩≡`` ::\n\t\n\tx\n\t"
    let rest := utf8 ".. _b:\n\n.. highlight:: c\n\n``⟨b⟩≡`` ::\n\t\n\ty\n\n"
    lf ∉ utf8 "demo.nw" ∧ (∀ line ∈ lines source, cr ∉ line) ∧ lines source = before ++ after ∧
      RendersTo .docs ∅ before start .code {utf8 "a"} ∧
      (Format.noweb.convert (utf8 "demo.nw") ⟨source, none⟩ ({} : Sink)).out.contents =
        start ++ rest ∧
      utf8 "\n\t" <:+ start ∧ AfterTab {utf8 "a"} after rest ∧
      History.targetLine (utf8 "b") <+: rest ∧ ¬ AtMargin start := by
  intro source before after start rest
  have hname : lf ∉ utf8 "demo.nw" := by decide
  have hsource : ∀ line ∈ lines source, cr ∉ line := by decide
  have hlines : lines source = before ++ after := by decide
  have hstart : RendersTo .docs ∅ before start .code {utf8 "a"} := by
    have hintro : RendersLine .docs ∅ (utf8 "intro") (utf8 "intro" ++ utf8 "\n") .docs ∅ :=
      .docs (by decide) (by decide) (docsText_iff.mpr (by decide +kernel))
    have hdefinition := @RendersLine.definition .docs ∅ (utf8 "<<a>>=") (utf8 "a")
      ⟨by decide, [], by simp, by decide⟩
    have hcode : RendersLine .code {utf8 "a"} (utf8 "x") (utf8 "x" ++ utf8 "\n\t") .code
        {utf8 "a"} := .code (by decide) (codeText_iff.mpr (by decide +kernel))
    exact .cons hintro (.cons hdefinition (.cons hcode .nil))
  obtain ⟨start', kind, defined, rest', hto, hout, htab, hshows⟩ :=
    convert_noweb_margin _ _ hname hsource before after hlines
  obtain ⟨rfl, rfl, rfl⟩ := hto.unique hstart
  have hconvert : (Format.noweb.convert (utf8 "demo.nw") ⟨source, none⟩ ({} : Sink)).out.contents =
      start ++ rest := by decide +kernel
  obtain rfl := List.append_cancel_left (hout.symm.trans hconvert)
  obtain ⟨htab, hafter⟩ := htab rfl
  obtain ⟨htarget, hmargin⟩ := hshows (utf8 "<<b>>=") [] (History.targetLine (utf8 "b")) rfl
    (.target ⟨by decide, [], by simp, by decide⟩ (by decide))
  exact ⟨hname, hsource, hlines, hstart, hout, htab, hafter, htarget, by simpa using hmargin⟩

/-- It is enough to look at each position in the output where the text could stand. -/
theorem not_atMargin_of_search {out text : Bytes}
    (h : ∀ k ∈ List.range (out.length + 1),
      text.isPrefixOf (out.drop k) → ¬ AtMargin (out.take k)) (start rest : Bytes)
    (heq : out = start ++ text ++ rest) : ¬ AtMargin start := by
  have htake : out.take start.length = start := by
    rw [heq, List.append_assoc]
    exact List.take_left' rfl
  have hdrop : text <+: out.drop start.length := by
    rw [heq, List.append_assoc, List.drop_left' rfl]
    exact List.prefix_append _ _
  have hmem : start.length ∈ List.range (out.length + 1) := by
    have hlength := congrArg List.length heq
    rw [List.length_append, List.length_append] at hlength
    rw [List.mem_range]
    omega
  have hfound := h start.length hmem
  rw [htake, List.isPrefixOf_iff_prefix] at hfound
  exact hfound hdrop

/-- A definition and a documentation text that follow code: wherever the target or the text stands
in the output, it does not start at the margin. Neither does a documentation line after a file name
with a directive in it. -/
theorem convert_noweb_not_atMargin :
    let out (name source : Bytes) :=
      (Format.noweb.convert name ⟨source, none⟩ ({} : Sink)).out.contents
    let source := utf8 "<<a>>=\nx\n<<b>>=\n@ y\n"
    (∀ line ∈ lines source, cr ∉ line) ∧
      (History.targetLine (utf8 "b") <:+: out [] source ∧
        ∀ start rest, out [] source = start ++ History.targetLine (utf8 "b") ++ rest →
          ¬ AtMargin start) ∧
      (utf8 "y\n" <:+: out [] source ∧
        ∀ start rest, out [] source = start ++ utf8 "y\n" ++ rest → ¬ AtMargin start) ∧
      (utf8 "x\n" <:+: out (utf8 "f\n@text t") (utf8 "x\n") ∧
        ∀ start rest, out (utf8 "f\n@text t") (utf8 "x\n") = start ++ utf8 "x\n" ++ rest →
          ¬ AtMargin start) := by
  intro out source
  have hout : out [] source =
      utf8 ("\n.. _a:\n\n.. highlight:: c\n\n``⟨a⟩≡`` ::\n\t\n\tx\n\t" ++
        ".. _b:\n\n.. highlight:: c\n\n``⟨b⟩≡`` ::\n\t\n\ty\n\n") := by decide +kernel
  have hnamed : out (utf8 "f\n@text t") (utf8 "x\n") = utf8 "tx\n\n" := by decide +kernel
  rw [hout, hnamed]
  refine ⟨by decide, ⟨by decide +kernel, ?_⟩, ⟨by decide +kernel, ?_⟩, by decide +kernel, ?_⟩
  · exact not_atMargin_of_search (by decide +kernel)
  · exact not_atMargin_of_search (by decide +kernel)
  · exact not_atMargin_of_search (by decide +kernel)

end Literate.Noweb
