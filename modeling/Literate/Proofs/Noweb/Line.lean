import Literate.Proofs.Bytes

/-!
# Source lines

What the lines of noweb source look like, said without the tests that tell them apart. A line is a
definition, the start of documentation, or plain; `Marker.line_cases` is the inversion of marking up
a line, one case for each form it can have.
-/

namespace Literate.Noweb

open Bytes

/-- The line is `<<name>>=` and perhaps some blanks, and the name is not empty. -/
def IsDefinition (line name : Bytes) : Prop :=
  name ≠ [] ∧ ∃ blanks : Bytes, (∀ b ∈ blanks, b = space ∨ b = tab) ∧
    line = utf8 "<<" ++ name ++ utf8 ">>=" ++ blanks

/-- The line is `@`, or `@` and a blank before the rest. -/
def IsDocsStart (line rest : Bytes) : Prop :=
  line = utf8 "@" ∧ rest = [] ∨ line = utf8 "@ " ++ rest ∨ line = utf8 "@\t" ++ rest

/-- The line starts a chunk. -/
def IsHeading (line : Bytes) : Prop :=
  (∃ name, IsDefinition line name) ∨ ∃ rest, IsDocsStart line rest

/-! ### Definitions -/

theorem length_definition (name : Bytes) :
    (utf8 "<<" ++ name ++ utf8 ">>=").length = name.length + 5 := by
  have hopen : (utf8 "<<").length = 2 := by decide
  have hclose : (utf8 ">>=").length = 3 := by decide
  rw [List.length_append, List.length_append, hopen, hclose]
  omega

theorem drop_take_definition (name : Bytes) :
    ((utf8 "<<" ++ name ++ utf8 ">>=").drop 2).take name.length = name := by
  rw [List.append_assoc, List.drop_left' (by decide)]
  exact List.take_left' rfl

theorem definitionName?_of_isDefinition {line name : Bytes} (h : IsDefinition line name) :
    definitionName? line = some name := by
  obtain ⟨hne, blanks, hblanks, rfl⟩ := h
  have htrim : trimRight isTrailingBlank (utf8 "<<" ++ name ++ utf8 ">>=" ++ blanks) =
      utf8 "<<" ++ name ++ utf8 ">>=" := by
    rw [trimRight_eq_iff]
    refine ⟨?_, blanks, ?_, rfl⟩
    · have hlast : (utf8 ">>=").getLast? = some 61 := by decide
      rw [List.getLast?_append, hlast]
      simp only [Option.some_or, Option.mem_def, Option.some.injEq, forall_eq']
      decide
    · intro b hb
      rcases hblanks b hb with rfl | rfl <;> decide
  have hpre : (utf8 "<<").isPrefixOf (utf8 "<<" ++ name ++ utf8 ">>=") = true := by
    rw [List.isPrefixOf_iff_prefix, List.append_assoc]
    exact List.prefix_append _ _
  have hsuf : (utf8 ">>=").isSuffixOf (utf8 "<<" ++ name ++ utf8 ">>=") = true := by
    rw [List.isSuffixOf_iff_suffix]
    exact List.suffix_append _ _
  have hlen : 6 ≤ name.length + 5 := by
    have := List.length_pos_iff.mpr hne
    omega
  simp only [definitionName?, htrim, hpre, hsuf, length_definition, hlen, decide_true,
    Bool.and_self, ↓reduceIte, Nat.add_sub_cancel, drop_take_definition]

theorem isDefinition_of_definitionName? {line name : Bytes} (h : definitionName? line = some name) :
    IsDefinition line name := by
  obtain ⟨-, blanks, hblanks, hline⟩ :=
    trimRight_eq_iff.mp (rfl : trimRight isTrailingBlank line = _)
  rw [definitionName?, Option.ite_none_right_eq_some, Bool.and_eq_true, Bool.and_eq_true,
    List.isPrefixOf_iff_prefix, List.isSuffixOf_iff_suffix, decide_eq_true_iff] at h
  obtain ⟨⟨⟨⟨tail, htail⟩, hsuf⟩, hlen⟩, hname⟩ := h
  generalize trimRight isTrailingBlank line = trimmed at *
  subst htail
  -- the rest after `<<` is long enough to hold the whole of `>>=`
  have hsuf' : utf8 ">>=" <:+ tail := by
    refine List.suffix_of_suffix_length_le hsuf (List.suffix_append _ _) ?_
    have hopen : (utf8 "<<").length = 2 := by decide
    have hclose : (utf8 ">>=").length = 3 := by decide
    rw [List.length_append] at hlen
    omega
  obtain ⟨mid, rfl⟩ := hsuf'
  rw [← List.append_assoc] at hline hlen hname
  rw [length_definition, Nat.add_sub_cancel, drop_take_definition] at hname
  cases hname
  refine ⟨?_, blanks, ?_, hline⟩
  · rintro rfl
    rw [length_definition] at hlen
    simp at hlen
  · intro b hb
    simpa [isTrailingBlank] using hblanks b hb

/-- The name of a definition is found exactly on the lines that have its form. -/
theorem definitionName?_eq_some_iff {line name : Bytes} :
    definitionName? line = some name ↔ IsDefinition line name :=
  ⟨isDefinition_of_definitionName?, definitionName?_of_isDefinition⟩

/-! ### Documentation -/

theorem isDocsStart_iff {line : Bytes} : isDocsStart line ↔ ∃ rest, IsDocsStart line rest := by
  have hat : utf8 "@" = [atSign] := by decide
  have hspace : utf8 "@ " = [atSign, space] := by decide
  have htab : utf8 "@\t" = [atSign, tab] := by decide
  simp only [IsDocsStart, hat, hspace, htab]
  match line with
  | [] => simp [isDocsStart]
  | [b] => simp [isDocsStart]
  | b :: c :: rest =>
      simp only [isDocsStart, Bool.and_eq_true, Bool.or_eq_true, beq_iff_eq, List.cons.injEq,
        reduceCtorEq, and_false, false_and, List.cons_append, List.nil_append, false_or]
      constructor
      · rintro ⟨rfl, rfl | rfl⟩
        · exact ⟨rest, .inl ⟨rfl, rfl, rfl⟩⟩
        · exact ⟨rest, .inr ⟨rfl, rfl, rfl⟩⟩
      · rintro ⟨rest', ⟨rfl, rfl, -⟩ | ⟨rfl, rfl, -⟩⟩
        · exact ⟨rfl, .inl rfl⟩
        · exact ⟨rfl, .inr rfl⟩

theorem docsLine_nil : docsLine [] = [] := by
  have hnone : breakOn (utf8 "[[") [] = none := by decide
  rw [docsLine, docsFrom]
  split
  · rfl
  · next h => rw [hnone] at h; cases h

theorem docsStartText_eq {line rest : Bytes} (h : IsDocsStart line rest) :
    Marker.docsStartText line = docsLine rest := by
  rcases h with ⟨rfl, rfl⟩ | rfl | rfl
  · exact docsLine_nil.symm
  · rfl
  · rfl

theorem head?_of_isDefinition {line name : Bytes} (h : IsDefinition line name) :
    line.head? = some 60 := by
  obtain ⟨-, blanks, -, rfl⟩ := h
  rfl

theorem head?_of_isDocsStart {line rest : Bytes} (h : IsDocsStart line rest) :
    line.head? = some atSign := by
  rcases h with ⟨rfl, -⟩ | rfl | rfl <;> rfl

theorem not_isDocsStart_of_isDefinition {line name rest : Bytes} (h : IsDefinition line name) :
    ¬ IsDocsStart line rest := by
  intro hdocs
  have hhead := (head?_of_isDefinition h).symm.trans (head?_of_isDocsStart hdocs)
  exact absurd hhead (by decide)

theorem definitionName?_of_isDocsStart {line rest : Bytes} (h : IsDocsStart line rest) :
    definitionName? line = none := by
  rw [Option.eq_none_iff_forall_ne_some]
  intro name hname
  exact not_isDocsStart_of_isDefinition (isDefinition_of_definitionName? hname) h

/-! ### Marking up a line -/

instance (line : Bytes) : Decidable (IsHeading line) :=
  decidable_of_iff ((definitionName? line).isSome ∨ isDocsStart line) (by
    rw [IsHeading, ← isDocsStart_iff, Option.isSome_iff_exists]
    simp only [definitionName?_eq_some_iff])

namespace Marker

variable {line : Bytes} (m : Marker)

theorem line_of_isDefinition {name : Bytes} (h : IsDefinition line name) :
    m.line line = (m.next .code, [m.closing, (m.next .code).opening, .defn name, .newline]) := by
  rw [Marker.line, definitionName?_of_isDefinition h]

theorem line_of_isDocsStart {rest : Bytes} (h : IsDocsStart line rest) :
    m.line line =
      (m.next .docs, m.closing :: (m.next .docs).opening :: docsLine rest ++ [.newline]) := by
  have hdocs : isDocsStart line = true := isDocsStart_iff.mpr ⟨rest, h⟩
  rw [Marker.line, definitionName?_of_isDocsStart h]
  simp only [hdocs, ↓reduceIte, docsStartText_eq h]

theorem line_of_not_isHeading (h : ¬ IsHeading line) :
    m.line line = (m, (match m.kind with
      | .code => codeLine line
      | .docs => docsLine (unescapeDocs line)) ++ [.newline]) := by
  have hdef : definitionName? line = none := by
    rw [Option.eq_none_iff_forall_ne_some]
    intro name hname
    exact h (.inl ⟨name, isDefinition_of_definitionName? hname⟩)
  have hdocs : isDocsStart line = false := by
    rw [Bool.eq_false_iff]
    exact fun hstart => h (.inr (isDocsStart_iff.mp hstart))
  rw [Marker.line, hdef]
  cases hkind : m.kind <;> simp [hdocs]

/-- What marking up a line does: a heading of either kind closes the chunk and opens the next one,
and a plain line is scanned as the kind of its chunk asks. -/
theorem line_cases (line : Bytes) :
    (∃ name, IsDefinition line name ∧ m.line line =
        (m.next .code, [m.closing, (m.next .code).opening, .defn name, .newline])) ∨
      (∃ rest, IsDocsStart line rest ∧ m.line line =
        (m.next .docs, m.closing :: (m.next .docs).opening :: docsLine rest ++ [.newline])) ∨
      (¬ IsHeading line ∧ m.kind = .code ∧ m.line line = (m, codeLine line ++ [.newline])) ∨
      (¬ IsHeading line ∧ m.kind = .docs ∧
        m.line line = (m, docsLine (unescapeDocs line) ++ [.newline])) := by
  by_cases hheading : IsHeading line
  · rcases hheading with ⟨name, hname⟩ | ⟨rest, hrest⟩
    · exact .inl ⟨name, hname, m.line_of_isDefinition hname⟩
    · exact .inr (.inl ⟨rest, hrest, m.line_of_isDocsStart hrest⟩)
  · have hplain := m.line_of_not_isHeading hheading
    cases hkind : m.kind with
    | code =>
        rw [hkind] at hplain
        exact .inr (.inr (.inl ⟨hheading, rfl, hplain⟩))
    | docs =>
        rw [hkind] at hplain
        exact .inr (.inr (.inr ⟨hheading, rfl, hplain⟩))

end Marker

end Literate.Noweb
