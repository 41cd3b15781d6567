import Literate.Noweb.Markup
import Literate.Proofs.Noweb.Line
import Literate.Proofs.Noweb.Scan

/-!
# Escaping code

In code, `@<<` stands for a plain `<<`. So a text is kept from being read as uses if each of its `<<`
is escaped, and it comes back as it was:

    a <<b>> c   ──escaped──▶   a @<<b>> c   ──line──▶   text "a <<b>> c", newline

Nothing starts with `<<` once it is escaped (`not_prefix_escaped`), whatever was in front of it, so
escaping makes neither a use nor a definition, and no line that starts documentation.
-/

namespace Literate.Noweb

open Bytes

/-- A text with an `@` before every `<<`. -/
def escaped (s : Bytes) : Bytes := replaceAll (utf8 "<<") (utf8 "@<<") s

@[simp] theorem escaped_nil : escaped [] = [] := rfl

@[simp] theorem escaped_append (rest : Bytes) :
    escaped (utf8 "<<" ++ rest) = utf8 "@<<" ++ escaped rest := replaceAll_append (by decide) rest

theorem escaped_cons {b : UInt8} {rest : Bytes} (h : ¬ utf8 "<<" <+: b :: rest) :
    escaped (b :: rest) = b :: escaped rest := replaceAll_cons h

/-! ### Text that is escaped -/

/-- An escaped text starts as the text does, unless that has a `<<` there. -/
theorem head?_escaped (s : Bytes) :
    (escaped s).head? = if utf8 "<<" <+: s then some atSign else s.head? := by
  split
  · next h =>
    obtain ⟨rest, rfl⟩ := h
    rw [escaped_append]
    rfl
  · next h =>
    cases s with
    | nil => rfl
    | cons b rest => rw [escaped_cons h, List.head?_cons, List.head?_cons]

theorem head?_of_head?_escaped {s : Bytes} {b : UInt8} (h : (escaped s).head? = some b)
    (hb : b ≠ atSign) : s.head? = some b := by
  rw [head?_escaped] at h
  split at h
  · exact absurd (Option.some.inj h).symm hb
  · exact h

/-- No escaped text starts with a `<<`. -/
theorem not_prefix_escaped (s : Bytes) : ¬ utf8 "<<" <+: escaped s := by
  intro ⟨tail, htail⟩
  by_cases h : utf8 "<<" <+: s
  · obtain ⟨rest, rfl⟩ := h
    rw [escaped_append] at htail
    cases htail
  · cases s with
    | nil => cases htail
    | cons b rest =>
        -- the first two bytes are those of the text, which are not both `<`
        rw [escaped_cons h] at htail
        obtain ⟨rfl, hrest⟩ := List.cons.inj htail
        have hhead : rest.head? = some 60 :=
          head?_of_head?_escaped (by rw [← hrest]; rfl) (by decide)
        obtain ⟨rest', rfl⟩ := List.head?_eq_some_iff.mp hhead
        exact h ⟨rest', rfl⟩

/-- An escaped text is read as the text, after whatever text is pending. -/
theorem codeScan_escaped (text s : Bytes) : CodeScan text (escaped s) (piece (text ++ s)) := by
  have hopen : utf8 "<<" ≠ [] := by decide
  induction s using occurrence_induction hopen generalizing text with
  | nil =>
      rw [escaped_nil, List.append_nil]
      exact .stop
  | occurrence rest ih =>
      have hscan := ih (text ++ utf8 "<<")
      rw [List.append_assoc] at hscan
      rw [escaped_append]
      exact .escape hscan
  | byte b rest h ih =>
      have hscan := ih (text ++ [b])
      rw [List.append_assoc] at hscan
      have hnot := not_prefix_escaped (b :: rest)
      rw [escaped_cons h] at hnot ⊢
      refine .byte ?_ hnot hscan
      intro ⟨tail, htail⟩
      obtain ⟨-, hrest⟩ := List.cons.inj htail
      exact not_prefix_escaped rest ⟨tail, hrest⟩

theorem exists_isDocsStart_iff {line : Bytes} :
    (∃ rest, IsDocsStart line rest) ↔
      line.head? = some atSign ∧ ∀ b ∈ line.tail.head?, b = space ∨ b = tab := by
  rw [← isDocsStart_iff]
  cases line with
  | nil => simp [isDocsStart]
  | cons b rest => cases rest <;> simp [isDocsStart]

/-- Escaping makes no line start documentation. -/
theorem exists_isDocsStart_of_escaped {s : Bytes} (h : ∃ rest, IsDocsStart (escaped s) rest) :
    ∃ rest, IsDocsStart s rest := by
  rw [exists_isDocsStart_iff] at h ⊢
  obtain ⟨hhead, hnext⟩ := h
  by_cases hopen : utf8 "<<" <+: s
  · -- the `@` of the escape is followed by `<`
    obtain ⟨rest, rfl⟩ := hopen
    rw [escaped_append] at hnext
    exact absurd (hnext 60 rfl) (by decide)
  · cases s with
    | nil => cases hhead
    | cons b rest =>
        rw [escaped_cons hopen] at hhead hnext
        refine ⟨hhead, ?_⟩
        rw [List.tail_cons, head?_escaped] at hnext
        split at hnext
        · exact absurd (hnext atSign rfl) (by decide)
        · exact hnext

/-- **Code comes back from being escaped.** An escaped text that does not start documentation is a
line of the code chunk it stands in. All that is emitted for it is the text, unless it is empty, and
the end of the line. -/
theorem Marker.line_escaped {m : Marker} (hm : m.kind = .code) {s : Bytes} (hat : s ≠ utf8 "@")
    (hspace : ¬ utf8 "@ " <+: s) (htab : ¬ utf8 "@\t" <+: s) :
    m.line (escaped s) = (m, (if s = [] then [] else [.text s]) ++ [.newline]) ∧
    ∀ (σ : Type) [Writer σ] (out : σ), emit out none (m.line (escaped s)).2 =
      Writer.writeAll out
        ((if s = [] then [] else [utf8 "@text " ++ s ++ [lf]]) ++ [utf8 "@nl" ++ [lf]]) := by
  have hplain : ¬ IsHeading (escaped s) := by
    intro h
    rcases h with ⟨name, -, blanks, -, hline⟩ | hdocs
    · apply not_prefix_escaped s
      rw [hline, List.append_assoc, List.append_assoc]
      exact List.prefix_append _ _
    · obtain ⟨rest, ⟨h, -⟩ | h | h⟩ := exists_isDocsStart_of_escaped hdocs
      · exact hat h
      · exact hspace ⟨rest, h.symm⟩
      · exact htab ⟨rest, h.symm⟩
  have hcode : codeLine (escaped s) = piece s := (codeScan_escaped [] s).codeLine_eq
  have hline : m.line (escaped s) = (m, piece s ++ [.newline]) := by
    rw [m.line_of_not_isHeading hplain, hm, hcode]
  refine ⟨hline, ?_⟩
  intro σ _ out
  rw [hline, emit, piece]
  split <;> rfl

/-- A text that looks like a definition, with three `<` in a row, an `@<<` and a `<@<`. -/
theorem Marker.line_escaped_definition :
    let m : Marker := ⟨.code, 1⟩
    let s := utf8 "<<<a@<<b<@<>>="
    m.kind = .code ∧ s ≠ utf8 "@" ∧ ¬ utf8 "@ " <+: s ∧ ¬ utf8 "@\t" <+: s ∧
      escaped s = utf8 "@<<<a@@<<b<@<>>=" ∧ m.line (escaped s) = (m, [.text s, .newline]) := by
  intro m s
  obtain ⟨hline, -⟩ := @Marker.line_escaped m rfl s (by decide) (by decide) (by decide)
  exact ⟨rfl, by decide, by decide, by decide, by decide, hline⟩

end Literate.Noweb
