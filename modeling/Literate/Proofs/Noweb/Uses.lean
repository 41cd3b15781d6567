import Literate.Proofs.Noweb.Cut
import Literate.Proofs.Noweb.Scan

/-!
# What becomes of the escapes on a code line

A code line is cut at its uses, where a `<<` that is escaped opens none. What stands between the uses
is text, and the escapes in it are taken back:

    a@<<b <<c>> d   ──codeLine──▶   text "a<<b ", use "c", text " d"

There is one exception. Behind a `<<` that counts and that nothing closes, an escape stays as it is,
though it stands for a plain `<<` there as well. `codeLine_eq_used` says what becomes of a line, and
that this is the only exception.
-/

namespace Literate.Noweb

open Bytes

/-- A text without the `@` of its escapes. -/
def unescaped (s : Bytes) : Bytes := replaceAll (utf8 "@<<") (utf8 "<<") s

@[simp] theorem unescaped_nil : unescaped [] = [] := rfl

@[simp] theorem unescaped_escape (rest : Bytes) :
    unescaped (utf8 "@<<" ++ rest) = utf8 "<<" ++ unescaped rest :=
  replaceAll_append (by decide) rest

theorem unescaped_cons {b : UInt8} {rest : Bytes} (h : ¬ utf8 "@<<" <+: b :: rest) :
    unescaped (b :: rest) = b :: unescaped rest := replaceAll_cons h

/-- A plain `<<` stays. -/
theorem unescaped_open (rest : Bytes) :
    unescaped (utf8 "<<" ++ rest) = utf8 "<<" ++ unescaped rest := by
  have hnot (tail : Bytes) : ¬ utf8 "@<<" <+: 60 :: tail := by
    intro ⟨_, h⟩
    cases h
  have hopen (tail : Bytes) : utf8 "<<" ++ tail = 60 :: 60 :: tail := rfl
  rw [hopen, hopen, unescaped_cons (hnot _), unescaped_cons (hnot _)]

theorem unescaped_eq_self_iff {s : Bytes} : unescaped s = s ↔ ¬ utf8 "@<<" <:+: s :=
  replaceAll_eq_self_iff (by decide)

/-! ### Uses as brackets -/

namespace Brackets

/-- The brackets around a use. One that is escaped does not count, and neither does one that begins
in the middle of an escape. -/
def uses : Brackets where
  opening := utf8 "<<"
  closing := utf8 ">>"
  counts front := !(utf8 "@").isSuffixOf front && !(utf8 "@<").isSuffixOf front
  opening_ne := by decide
  closing_ne := by decide

@[simp] theorem opening_uses : uses.opening = utf8 "<<" := rfl

@[simp] theorem closing_uses : uses.closing = utf8 ">>" := rfl

theorem counts_uses_iff {front : Bytes} :
    uses.counts front ↔ ¬ utf8 "@" <:+ front ∧ ¬ utf8 "@<" <:+ front := by
  simp [uses, ← Bool.not_eq_true, List.isSuffixOf_iff_suffix]

/-- A bracket counts after an escape if it counts after what follows the escape. -/
theorem counts_escape {front : Bytes} (h : uses.counts front) :
    uses.counts (utf8 "@<<" ++ front) := by
  have hescape : utf8 "@<<" ++ front = 64 :: 60 :: 60 :: front := rfl
  have hat : utf8 "@" = [64] := rfl
  have hopen : utf8 "@<" = [64, 60] := rfl
  rw [counts_uses_iff] at h ⊢
  simpa [hescape, hat, hopen, List.suffix_cons_iff] using h

/-- A byte makes a bracket not count only as the start of an escape. -/
theorem counts_cons {b : UInt8} {front : Bytes} (h : uses.counts front)
    (hb : ¬ utf8 "@<<" <+: b :: (front ++ utf8 "<<")) : uses.counts (b :: front) := by
  rw [counts_uses_iff] at h ⊢
  have hnew {word : Bytes} (hword : utf8 "@<<" <+: word ++ utf8 "<<") (hend : ¬ word <:+ front) :
      ¬ word <:+ b :: front := by
    rw [List.suffix_cons_iff]
    intro h
    rcases h with rfl | h
    · exact hb hword
    · exact hend h
  exact ⟨hnew (by decide) h.1, hnew (by decide) h.2⟩

theorem counts_of_append {start front : Bytes} (h : uses.counts (start ++ front)) :
    uses.counts front := by
  rw [counts_uses_iff] at h ⊢
  have hsuf : front <:+ start ++ front := List.suffix_append _ _
  exact ⟨fun hend => h.1 (hend.trans hsuf), fun hend => h.2 (hend.trans hsuf)⟩

/-- No escape reaches over the end of a text after which a bracket counts. -/
theorem not_escape_append {b : UInt8} {front : Bytes} (h : uses.counts (b :: front))
    (hb : ¬ utf8 "@<<" <+: b :: front) (tail : Bytes) :
    ¬ utf8 "@<<" <+: b :: (front ++ tail) := by
  intro hpre
  have hfront : b :: front <+: b :: (front ++ tail) := List.prefix_append _ tail
  -- otherwise the text is what an escape starts with
  have hshort : b :: front <+: utf8 "@<<" := by
    apply List.prefix_of_prefix_length_le hfront hpre
    by_contra hlong
    exact hb (List.prefix_of_prefix_length_le hpre hfront (by omega))
  have hinits : (utf8 "@<<").inits = [[], utf8 "@", utf8 "@<", utf8 "@<<"] := by decide
  rw [← List.mem_inits, hinits] at hshort
  rw [counts_uses_iff] at h
  simp only [List.mem_cons, List.cons_ne_nil, List.not_mem_nil, false_or, or_false] at hshort
  rcases hshort with heq | heq | heq
  · exact h.1 (heq ▸ List.suffix_rfl)
  · exact h.2 (heq ▸ List.suffix_rfl)
  · exact hb (heq ▸ List.prefix_rfl)

/-! ### Text between uses -/

/-- Before `tail`, no bracket that counts opens in `front`, and no escape reaches over its end. -/
structure Clear (front tail : Bytes) : Prop where
  ahead : ∀ front' rest, front ++ tail = front' ++ utf8 "<<" ++ rest → uses.counts front' →
    front.length ≤ front'.length
  edge : tail = [] ∨ uses.counts front

theorem IsFirst.clear {front : Bytes} (h : uses.IsFirst front) (rest : Bytes) :
    Clear front (utf8 "<<" ++ rest) where
  ahead _ _ heq hcounts := h.length_le (List.append_assoc _ _ _).symm heq hcounts
  edge := .inr h.1

theorem clear_of_not_opens {s : Bytes} (h : ¬ uses.Opens s) : Clear s [] where
  ahead front' rest heq hcounts := by
    rw [List.append_nil] at heq
    exact absurd ⟨front', rest, heq, hcounts⟩ h
  edge := .inl rfl

namespace Clear

variable {b : UInt8} {front tail : Bytes}

theorem of_escape (h : Clear (utf8 "@<<" ++ front) tail) : Clear front tail where
  ahead front' rest heq hcounts := by
    have hle := h.ahead (utf8 "@<<" ++ front') rest (by simp only [List.append_assoc, heq])
      (counts_escape hcounts)
    simp only [List.length_append] at hle
    omega
  edge := h.edge.imp_right counts_of_append

theorem not_escape (h : Clear (b :: front) tail) (hb : ¬ utf8 "@<<" <+: b :: front) :
    ¬ utf8 "@<<" <+: b :: (front ++ tail) := by
  rcases h.edge with rfl | hcounts
  · rwa [List.append_nil]
  · exact not_escape_append hcounts hb tail

theorem not_open (h : Clear (b :: front) tail) : ¬ utf8 "<<" <+: b :: (front ++ tail) := by
  intro ⟨rest, hrest⟩
  have hle := h.ahead [] rest hrest.symm (by decide)
  cases hle

theorem of_cons (h : Clear (b :: front) tail) (hb : ¬ utf8 "@<<" <+: b :: front) :
    Clear front tail where
  ahead front' rest heq hcounts := by
    have hcounts' : uses.counts (b :: front') := by
      apply counts_cons hcounts
      intro hpre
      apply h.not_escape hb
      rw [heq]
      exact hpre.trans (List.prefix_append (b :: (front' ++ utf8 "<<")) rest)
    have hle := h.ahead (b :: front') rest (by simp only [List.cons_append, heq]) hcounts'
    exact Nat.le_of_succ_le_succ hle
  edge := h.edge.imp_right (@counts_of_append [b] front)

/-- Such a text is read without the `@` of its escapes. -/
theorem codeScan (h : Clear front tail) {text : Bytes} {ds : List Directive}
    (hscan : CodeScan (text ++ unescaped front) tail ds) : CodeScan text (front ++ tail) ds := by
  have hescape : utf8 "@<<" ≠ [] := by decide
  induction front using occurrence_induction hescape generalizing text with
  | nil => rwa [unescaped_nil, List.append_nil] at hscan
  | occurrence front ih =>
      rw [unescaped_escape, ← List.append_assoc] at hscan
      rw [List.append_assoc]
      exact .escape (ih h.of_escape hscan)
  | byte b front hb ih =>
      rw [unescaped_cons hb, ← List.singleton_append, ← List.append_assoc] at hscan
      exact .byte (h.not_escape hb) h.not_open (ih (h.of_cons hb) hscan)

end Clear

end Brackets

/-- The directives up to the last use of a line that is cut at its uses. -/
def Cut.used (c : Cut) : List Directive :=
  c.parts.flatMap fun p => piece (unescaped p.before) ++ [.use p.inside]

theorem piece_injective : Function.Injective piece := by
  intro s t h
  unfold piece at h
  split at h
  · next hs =>
    split at h
    · next ht => rw [hs, ht]
    · cases h
  · split at h
    · cases h
    · cases h
      rfl

namespace Brackets

/-- A leftmost cut is a derivation of its line, but for what stands after the last use. -/
theorem IsLeftmost.codeScan {c : Cut} (h : uses.IsLeftmost c) {ds : List Directive}
    (hlast : CodeScan [] c.last ds) : CodeScan [] (uses.join c) (c.used ++ ds) := by
  obtain ⟨parts, last⟩ := c
  induction parts with
  | nil => exact hlast
  | cons p parts ih =>
      obtain ⟨hfirst, hclosed, hrest⟩ := isLeftmost_cons.mp h
      have huse := @CodeScan.use (unescaped p.before) _ _ _ hclosed (ih hrest hlast)
      rw [join_cons, List.append_assoc]
      refine (hfirst.clear _).codeScan ?_
      simpa [Cut.used] using huse

theorem codeScan_of_not_opens {s : Bytes} (h : ¬ uses.Opens s) :
    CodeScan [] s (piece (unescaped s)) := by
  have hscan := (clear_of_not_opens h).codeScan (@CodeScan.stop ([] ++ unescaped s))
  rwa [List.append_nil] at hscan

/-- Behind a bracket that nothing closes, everything stays as it is. -/
theorem IsFirst.codeScan {front rest : Bytes} (h : uses.IsFirst front)
    (hrest : ¬ utf8 ">>" <:+: rest) :
    CodeScan [] (front ++ utf8 "<<" ++ rest) (piece (unescaped front ++ (utf8 "<<" ++ rest))) := by
  rw [List.append_assoc]
  exact (h.clear rest).codeScan (.unclosed hrest)

theorem unescaped_append {front : Bytes} (h : uses.counts front) (tail : Bytes) :
    unescaped (front ++ tail) = unescaped front ++ unescaped tail := by
  have hescape : utf8 "@<<" ≠ [] := by decide
  induction front using occurrence_induction hescape with
  | nil => rfl
  | occurrence front ih =>
      rw [List.append_assoc, unescaped_escape, unescaped_escape, ih (counts_of_append h),
        List.append_assoc]
  | byte b front hb ih =>
      rw [List.cons_append, unescaped_cons (not_escape_append h hb tail), unescaped_cons hb,
        ih (@counts_of_append [b] front h), List.cons_append]

end Brackets

open Brackets

/-- Without a use, a line is one text. Its escapes are all taken back unless one of them stands
behind a bracket that counts. -/
theorem exists_codeScan_piece {s : Bytes} (h : ¬ uses.OpensBefore (utf8 ">>") s) :
    ∃ text, CodeScan [] s (piece text) ∧
      (text = unescaped s ↔ ¬ uses.OpensBefore (utf8 "@<<") s) := by
  by_cases hopens : uses.Opens s
  · obtain ⟨front, rest, rfl, hfirst⟩ := hopens.exists_isFirst
    have hrest : ¬ utf8 ">>" <:+: rest := mt hfirst.opensBefore_iff.mpr h
    refine ⟨_, hfirst.codeScan hrest, ?_⟩
    rw [hfirst.opensBefore_iff, opening_uses, List.append_assoc, unescaped_append hfirst.1,
      unescaped_open, List.append_cancel_left_eq, List.append_cancel_left_eq, eq_comm,
      unescaped_eq_self_iff]
  · exact ⟨unescaped s, codeScan_of_not_opens hopens,
      iff_of_true rfl fun hlate => hopens hlate.opens⟩

/-- **Escapes are taken back outside of uses.** A code line has one leftmost cut at its uses, and
its directives are the uses with the unescaped texts between them. Behind the last use this is so
exactly if no escape stands behind a `<<` that counts: such a bracket is not closed, and what
follows it stays as it is. A line without a `>>` has no use, so this settles all its escapes. -/
theorem codeLine_eq_used (line : Bytes) :
    ∃ c : Cut, uses.IsLeftmost c ∧ uses.join c = line ∧
      (∀ c' : Cut, uses.IsLeftmost c' → uses.join c' = line → c' = c) ∧
      (codeLine line = c.used ++ piece (unescaped c.last) ↔
        ¬ uses.OpensBefore (utf8 "@<<") c.last) ∧
      (∀ front rest, uses.IsFirst front → c.last = front ++ utf8 "<<" ++ rest →
        codeLine line = c.used ++ piece (unescaped front ++ (utf8 "<<" ++ rest))) ∧
      (¬ utf8 ">>" <:+: line →
        (codeLine line = piece (unescaped line) ↔ ¬ uses.OpensBefore (utf8 "@<<") line)) := by
  obtain ⟨c, hleft, rfl⟩ := uses.exists_isLeftmost line
  have hcode {ds : List Directive} (h : CodeScan [] c.last ds) :
      codeLine (uses.join c) = c.used ++ ds := (hleft.codeScan h).codeLine_eq
  have hlast : codeLine (uses.join c) = c.used ++ piece (unescaped c.last) ↔
      ¬ uses.OpensBefore (utf8 "@<<") c.last := by
    obtain ⟨text, hscan, htext⟩ := exists_codeScan_piece hleft.last
    rw [hcode hscan, List.append_cancel_left_eq, piece_injective.eq_iff, htext]
  refine ⟨c, hleft, rfl, ?_, hlast, ?_, ?_⟩
  · intro c' hleft' hjoin
    exact hleft'.unique hleft hjoin
  · intro front rest hfirst hfront
    have hrest : ¬ utf8 ">>" <:+: rest := by
      intro hin
      apply hleft.last
      rw [hfront]
      exact hfirst.opensBefore_iff.mpr hin
    apply hcode
    rw [hfront]
    exact hfirst.codeScan hrest
  · intro hclose
    obtain ⟨parts, last⟩ := c
    cases parts with
    | nil => exact hlast
    | cons p parts =>
        apply absurd _ hclose
        rw [join_cons]
        exact ⟨p.before ++ utf8 "<<" ++ p.inside, uses.join ⟨parts, last⟩, by simp⟩

/-- An escape before a use, one in its name and one after it, and a bracket that nothing closes. -/
theorem codeLine_eq_used_around :
    let line := utf8 "a@<<b <<c@<<d>>@<<e << f"
    let c : Cut := ⟨[⟨utf8 "a@<<b ", utf8 "c@<<d"⟩], utf8 "@<<e << f"⟩
    uses.IsLeftmost c ∧ uses.join c = line ∧ ¬ uses.OpensBefore (utf8 "@<<") c.last ∧
      codeLine line = [.text (utf8 "a<<b "), .use (utf8 "c@<<d"), .text (utf8 "<<e << f")] := by
  intro line c
  obtain ⟨c₀, -, -, hunique, hused, -⟩ := codeLine_eq_used line
  have hleft : uses.IsLeftmost c := ⟨by decide, by decide, by decide⟩
  have hjoin : uses.join c = line := by decide
  have hlate : ¬ uses.OpensBefore (utf8 "@<<") c.last := by decide
  rw [← hunique c hleft hjoin] at hused
  exact ⟨hleft, hjoin, hlate, hused.mpr hlate⟩

/-- Behind a bracket that nothing closes, an escape stays. -/
theorem codeLine_ne_unescaped :
    let line := utf8 "a << b @<< c"
    ¬ utf8 ">>" <:+: line ∧ unescaped line = utf8 "a << b << c" ∧ codeLine line = [.text line] ∧
      codeLine line ≠ [.text (unescaped line)] := by
  intro line
  have hcode : codeLine line = [.text line] := by decide +kernel
  refine ⟨by decide, by decide, hcode, ?_⟩
  rw [hcode]
  decide

end Literate.Noweb
