import Literate.Proofs.Noweb.Rendering
import Literate.Proofs.Noweb.Stream

/-!
# What becomes of a code line

A code line is split into texts and uses. Written one after the other, a use between its brackets,
they are the line again, except that an escape has lost its `@`:

    x@<<y <<a b>>z   ──codeLine──▶   text "x<<y ", use "a b", text "z"   ──shown──▶   x<<y <<a b>>z

`Contracts` relates a line to what may become of it in this way, and nothing else may
(`contracts_shown_codeLine`). A use ends at the first `>>`, so no name holds one, not even together
with the `>` after it (`CodeScan.of_use_mem`).
-/

namespace Literate.Noweb

open Bytes

/-! ### Escapes that are taken back -/

/-- Some `@<<` of the first text are `<<` in the second, and otherwise the two are the same. -/
inductive Contracts : Bytes → Bytes → Prop
  | nil : Contracts [] []
  | keep {b s t} : Contracts s t → Contracts (b :: s) (b :: t)
  | contract {s t} : Contracts s t → Contracts (utf8 "@<<" ++ s) (utf8 "<<" ++ t)

namespace Contracts

theorem append_left {s t : Bytes} (h : Contracts s t) (front : Bytes) :
    Contracts (front ++ s) (front ++ t) := by
  induction front with
  | nil => exact h
  | cons b front ih => exact ih.keep

theorem refl (s : Bytes) : Contracts s s := by
  have h := nil.append_left s
  rwa [List.append_nil] at h

/-- A text without an escape can only stay as it is. -/
theorem eq_of_not_infix {s t : Bytes} (h : Contracts s t) (hs : ¬ utf8 "@<<" <:+: s) : t = s := by
  induction h with
  | nil => rfl
  | keep _ ih =>
      rw [List.infix_cons_iff, not_or] at hs
      rw [ih hs.2]
  | contract _ _ =>
      apply absurd _ hs
      exact (List.prefix_append _ _).isInfix

end Contracts

/-- Of the rules for code, only the one for escapes changes anything. -/
theorem CodeText.contracts {s t : Bytes} (h : CodeText s t) : Contracts s t := by
  induction h with
  | nil => exact .nil
  | escape _ ih => exact ih.contract
  | use _ _ ih => exact ih.append_left _
  | unclosed _ => exact .refl _
  | byte _ _ _ ih => exact ih.keep

/-! ### Uses -/

theorem use_not_mem_piece (name text : Bytes) : Directive.use name ∉ piece text := by
  unfold piece
  split <;> simp

/-- A use has its `>>` on the line, and it is the first one after the name begins. -/
theorem CodeScan.of_use_mem {text s name : Bytes} {ds : List Directive} (h : CodeScan text s ds)
    (hmem : .use name ∈ ds) : utf8 ">>" <:+: s ∧ ¬ utf8 ">>" <:+: name ++ utf8 ">" := by
  induction h with
  | stop => exact absurd hmem (use_not_mem_piece name _)
  | escape _ ih =>
      obtain ⟨hclose, hname⟩ := ih hmem
      exact ⟨hclose.trans (List.suffix_append _ _).isInfix, hname⟩
  | @use text name' rest ds hname _ ih =>
      rw [List.mem_append, List.mem_cons] at hmem
      rcases hmem with hmem | heq | hmem
      · exact absurd hmem (use_not_mem_piece name _)
      · cases heq
        exact ⟨⟨_, rest, rfl⟩, hname⟩
      · obtain ⟨hclose, hname⟩ := ih hmem
        exact ⟨hclose.trans (List.suffix_append _ _).isInfix, hname⟩
  | unclosed _ => exact absurd hmem (use_not_mem_piece name _)
  | byte _ _ _ ih =>
      obtain ⟨hclose, hname⟩ := ih hmem
      exact ⟨hclose.trans (List.suffix_cons _ _).isInfix, hname⟩

theorem not_suffix_of_not_infix {name : Bytes} (h : ¬ utf8 ">>" <:+: name ++ utf8 ">") :
    ¬ utf8 ">" <:+ name := by
  rintro ⟨start, rfl⟩
  apply h
  refine ⟨start, [], ?_⟩
  rw [List.append_nil, List.append_assoc]
  rfl

/-! ### The whole line -/

/-- **Splitting a code line loses nothing.** The line is split by the rules for escapes and uses.
What is shown of the texts and uses is the line with some escapes taken back, so the line itself if
there is no `@<<` on it. No text is empty and no two stand side by side. The name of a use has no
`>>` in it and does not end in `>`, and without a `>>` on the line there is no use. -/
theorem contracts_shown_codeLine (line : Bytes) :
    let ds := codeLine line
    CodeScan [] line ds ∧
    Contracts line (shown ds) ∧ (¬ utf8 "@<<" <:+: line → shown ds = line) ∧
    (∀ d ∈ ds, (∃ s, s ≠ [] ∧ d = .text s) ∨
      ∃ name, d = .use name ∧ ¬ utf8 ">>" <:+: name ∧ ¬ utf8 ">" <:+ name) ∧
    (ds.IsChain fun d e => ¬ (d.isText ∧ e.isText)) ∧
    (¬ utf8 ">>" <:+: line → ∀ name, .use name ∉ ds) := by
  intro ds
  have hscan : CodeScan [] line ds := codeScan_codeLine line
  have hline : IsCodeLine ds := isCodeLine_codeLine line
  have hcontracts : Contracts line (shown ds) := (codeText_iff.mpr rfl).contracts
  refine ⟨hscan, hcontracts, hcontracts.eq_of_not_infix, ?_, hline.apart, ?_⟩
  · intro d hd
    rcases hline.item d hd with htext | ⟨name, rfl⟩
    · exact .inl htext
    · have hname := (hscan.of_use_mem hd).2
      refine .inr ⟨name, rfl, fun hin => hname ?_, not_suffix_of_not_infix hname⟩
      exact hin.trans (List.prefix_append _ _).isInfix
  · intro hclose name hmem
    exact hclose (hscan.of_use_mem hmem).1

/-- An escape inside of a name is kept, one outside is taken back, and of three `>` the first two
end the use; then a use without a name, and a bracket that nothing closes. -/
theorem contracts_shown_codeLine_overlaps :
    let line := utf8 "@@<<<<a@<<b>>>@<<>><<>><<@<<c"
    let ds := codeLine line
    ds = [.text (utf8 "@<<"), .use (utf8 "a@<<b"), .text (utf8 "><<>>"), .use [],
        .text (utf8 "<<@<<c")] ∧
      Contracts line (shown ds) ∧ utf8 "@<<" <:+: line ∧
      shown (codeLine (utf8 "<<<<>>>")) = utf8 "<<<<>>>" ∧
      .use (utf8 "a") ∉ codeLine (utf8 "<<a>") := by
  intro line ds
  obtain ⟨-, hcontracts, -⟩ := contracts_shown_codeLine line
  obtain ⟨-, -, hplain, -⟩ := contracts_shown_codeLine (utf8 "<<<<>>>")
  obtain ⟨-, -, -, -, -, hopen⟩ := contracts_shown_codeLine (utf8 "<<a>")
  exact ⟨by decide +kernel, hcontracts, by decide, hplain (by decide), hopen (by decide) _⟩

end Literate.Noweb
