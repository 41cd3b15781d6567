import Mathlib.Data.List.DropRight
import Literate.Noweb

/-!
# Laws of byte strings

What the operations on byte strings compute, said without them:

* `cut_eq_iff`: a text is cut at its first separator;
* `breakOn_eq_some_iff`, `breakOn_eq_none_iff`: a text is broken at the first occurrence of a
  pattern, and there is none exactly if the pattern is no part of the text;
* `replaceAll_append`, `replaceAll_cons`: an occurrence is replaced, any other byte stays;
* `not_infix_replaceAll`: nothing is left to replace, if the pattern has no byte in common with what
  it is replaced with;
* `trimRight_eq_iff`: trimming takes the longest run at the end;
* `rawLines_unlines`: lines that are written with a line feed each are read back;
* `lines_eq_append_unfinished`: a text has the lines that a line feed ends, and one more if anything
  stands after the last line feed.
-/

namespace Literate.Bytes

/-! ### Cutting -/

theorem cut_of_not_mem {sep : UInt8} {s : Bytes} (h : sep ∉ s) : cut sep s = (s, []) := by
  have hne : ∀ b ∈ s, (b != sep) = true := by
    intro b hb
    simpa using ne_of_mem_of_not_mem hb h
  rw [cut, List.takeWhile_eq_self_iff.mpr hne, List.dropWhile_eq_nil_iff.mpr hne]
  rfl

theorem cut_append_cons {sep : UInt8} {before : Bytes} (h : sep ∉ before) (after : Bytes) :
    cut sep (before ++ sep :: after) = (before, after) := by
  have hne : ∀ b ∈ before, (b != sep) = true := by
    intro b hb
    simpa using ne_of_mem_of_not_mem hb h
  rw [cut, List.takeWhile_append_of_pos hne, List.dropWhile_append_of_pos hne]
  simp

/-- A text is cut at its first separator, or not at all if it has none. -/
theorem cut_eq_iff {sep : UInt8} {s before after : Bytes} :
    cut sep s = (before, after) ↔
      sep ∉ before ∧ (s = before ∧ after = [] ∨ s = before ++ sep :: after) := by
  constructor
  · intro h
    by_cases hmem : sep ∈ s
    · obtain ⟨front, back, rfl, hfront⟩ := List.eq_append_cons_of_mem hmem
      rw [cut_append_cons hfront] at h
      cases h
      exact ⟨hfront, .inr rfl⟩
    · rw [cut_of_not_mem hmem] at h
      cases h
      exact ⟨hmem, .inl ⟨rfl, rfl⟩⟩
  · rintro ⟨hbefore, ⟨rfl, rfl⟩ | rfl⟩
    · exact cut_of_not_mem hbefore
    · exact cut_append_cons hbefore after

/-! ### Breaking at a pattern -/

section Breaking

variable {pattern s before after : Bytes}

/-- What was passed before the search went on stands in front of the result. -/
theorem breakOnFrom_eq_map (passed : Bytes) :
    breakOnFrom pattern passed s =
      (breakOn pattern s).map fun (before, after) => (passed.reverse ++ before, after) := by
  induction s generalizing passed with
  | nil =>
      simp only [breakOn, breakOnFrom]
      split <;> simp
  | cons b rest ih =>
      simp only [breakOn, breakOnFrom]
      split
      · simp
      · rw [ih (b :: passed), ih [b], Option.map_map]
        congr 1
        funext ⟨before, after⟩
        simp

theorem breakOn_cons_pos {b : UInt8} {rest : Bytes} (h : pattern <+: b :: rest) :
    breakOn pattern (b :: rest) = some ([], (b :: rest).drop pattern.length) := by
  have hp : pattern.isPrefixOf (b :: rest) = true := List.isPrefixOf_iff_prefix.mpr h
  rw [breakOn, breakOnFrom, if_pos hp]
  rfl

theorem breakOn_cons_neg {b : UInt8} {rest : Bytes} (h : ¬ pattern <+: b :: rest) :
    breakOn pattern (b :: rest) =
      (breakOn pattern rest).map fun (before, after) => (b :: before, after) := by
  have hp : ¬ pattern.isPrefixOf (b :: rest) = true := mt List.isPrefixOf_iff_prefix.mp h
  rw [breakOn, breakOnFrom, if_neg hp, breakOnFrom_eq_map]
  rfl

/-- There is nothing to break exactly if the pattern is no part of the text. -/
theorem breakOn_eq_none_iff (hp : pattern ≠ []) : breakOn pattern s = none ↔ ¬ pattern <:+: s := by
  induction s with
  | nil => simp [breakOn, breakOnFrom, hp]
  | cons b rest ih =>
      rw [List.infix_cons_iff]
      by_cases h : pattern <+: b :: rest
      · simp [breakOn_cons_pos h, h]
      · simp [breakOn_cons_neg h, h, ih]

/-- The parts around the pattern make up the text. -/
theorem eq_of_breakOn (hp : pattern ≠ []) (h : breakOn pattern s = some (before, after)) :
    s = before ++ pattern ++ after := by
  induction s generalizing before with
  | nil => simp [breakOn, breakOnFrom, hp] at h
  | cons b rest ih =>
      by_cases hpre : pattern <+: b :: rest
      · rw [breakOn_cons_pos hpre] at h
        cases h
        obtain ⟨tail, htail⟩ := hpre
        rw [← htail]
        simp
      · rw [breakOn_cons_neg hpre, Option.map_eq_some_iff] at h
        obtain ⟨⟨before', after'⟩, h', heq⟩ := h
        cases heq
        rw [ih h']
        simp

-- An occurrence that starts in `before` can reach into the pattern after it, but not to its last
-- byte: there the later occurrence ends. So `before` alone is too short to look for earlier ones.
theorem front_of_occurrence (before after : Bytes) :
    before ++ pattern.dropLast <+: before ++ pattern ++ after := by
  rw [List.append_assoc, List.prefix_append_right_inj]
  exact (List.dropLast_prefix pattern).trans (List.prefix_append _ _)

/-- A text that the pattern follows is broken there if the pattern does not start any earlier. -/
theorem breakOn_append (hp : pattern ≠ []) (h : ¬ pattern <:+: before ++ pattern.dropLast)
    (after : Bytes) : breakOn pattern (before ++ pattern ++ after) = some (before, after) := by
  induction before with
  | nil =>
      obtain ⟨b, rest, rfl⟩ := List.exists_cons_of_ne_nil hp
      have hpre : b :: rest <+: b :: (rest ++ after) := List.prefix_append _ after
      rw [List.nil_append, List.cons_append, breakOn_cons_pos hpre]
      simp
  | cons b before ih =>
      rw [List.cons_append, List.infix_cons_iff, not_or] at h
      have hpre : ¬ pattern <+: b :: (before ++ pattern ++ after) := by
        intro hpre
        have hfront := @front_of_occurrence pattern (b :: before) after
        refine h.1 (List.prefix_of_prefix_length_le hpre hfront ?_)
        have := List.length_pos_iff.mpr hp
        simp only [List.length_cons, List.length_append, List.length_dropLast]
        omega
      rw [List.cons_append, List.cons_append, breakOn_cons_neg hpre, ih h.2]
      rfl

/-- No occurrence of the pattern starts before the one at which the text is broken. -/
theorem not_infix_of_breakOn (hp : pattern ≠ []) (h : breakOn pattern s = some (before, after)) :
    ¬ pattern <:+: before ++ pattern.dropLast := by
  induction s generalizing before with
  | nil => simp [breakOn, breakOnFrom, hp] at h
  | cons b rest ih =>
      have hs := eq_of_breakOn hp h
      by_cases hpre : pattern <+: b :: rest
      · rw [breakOn_cons_pos hpre] at h
        cases h
        -- nothing stands before the pattern, and it does not fit into itself without its last byte
        intro hin
        have hle := hin.length_le
        have := List.length_pos_iff.mpr hp
        simp only [List.nil_append, List.length_dropLast] at hle
        omega
      · rw [breakOn_cons_neg hpre, Option.map_eq_some_iff] at h
        obtain ⟨⟨before', after'⟩, h', heq⟩ := h
        cases heq
        rw [List.cons_append, List.infix_cons_iff, not_or]
        refine ⟨fun hfront => hpre (hfront.trans ?_), ih h'⟩
        rw [hs]
        exact front_of_occurrence (b :: before') after

/-- A text is broken at the first occurrence of the pattern: the parts around it make up the text,
and no occurrence starts in the first part. -/
theorem breakOn_eq_some_iff (hp : pattern ≠ []) :
    breakOn pattern s = some (before, after) ↔
      s = before ++ pattern ++ after ∧ ¬ pattern <:+: before ++ pattern.dropLast := by
  constructor
  · intro h
    exact ⟨eq_of_breakOn hp h, not_infix_of_breakOn hp h⟩
  · rintro ⟨rfl, h⟩
    exact breakOn_append hp h after

/-- The place where a text is broken is no later than any other occurrence of the pattern. -/
theorem length_le_of_breakOn (hp : pattern ≠ []) (h : breakOn pattern s = some (before, after))
    {before' after' : Bytes} (hs : s = before' ++ pattern ++ after') :
    before.length ≤ before'.length := by
  obtain ⟨hs', hfirst⟩ := (breakOn_eq_some_iff hp).mp h
  by_contra hlt
  have hpos := List.length_pos_iff.mpr hp
  have hfront : before ++ pattern.dropLast <+: s := hs' ▸ front_of_occurrence before after
  have hother : before' ++ pattern <+: s := hs ▸ List.prefix_append _ _
  refine hfirst (List.IsInfix.trans ?_ (List.prefix_of_prefix_length_le hother hfront ?_).isInfix)
  · exact (List.suffix_append before' pattern).isInfix
  · simp only [List.length_append, List.length_dropLast]
    omega

/-- A word ends at the first mark that a space follows. -/
theorem breakOn_mark {mark : UInt8} (hmark : space ≠ mark) {word : Bytes} (hword : space ∉ word)
    (rest : Bytes) : breakOn [mark, space] (word ++ [mark, space] ++ rest) = some (word, rest) := by
  rw [breakOn_eq_some_iff (List.cons_ne_nil _ _)]
  refine ⟨rfl, ?_⟩
  intro hin
  have hmem : space ∈ word ++ [mark] := hin.subset (by simp)
  rw [List.mem_append, List.mem_singleton] at hmem
  exact hmem.elim hword hmark

end Breaking

/-! ### Starts and ends -/

theorem afterPrefix?_append (start rest : Bytes) :
    afterPrefix? start (start ++ rest) = some rest := by
  rw [afterPrefix?, if_pos (List.isPrefixOf_iff_prefix.mpr (List.prefix_append start rest)),
    List.drop_left]

theorem dropSuffix_append (s last : Bytes) : dropSuffix last (s ++ last) = s := by
  rw [dropSuffix, if_pos (List.isSuffixOf_iff_suffix.mpr (List.suffix_append s last)),
    List.length_append, Nat.add_sub_cancel, List.take_left]

/-! ### Replacing -/

section Replacing

variable {pattern new : Bytes}

/-- What is still to be passed is left out, and the result so far stands in front. -/
theorem replaceFrom_eq (skip : Nat) (done s : Bytes) :
    replaceFrom pattern new skip done s = done.reverse ++ replaceAll pattern new (s.drop skip) := by
  rw [replaceAll]
  induction s generalizing skip done with
  | nil => simp [replaceFrom]
  | cons b rest ih =>
      cases skip with
      | succ skip => rw [replaceFrom, ih, List.drop_succ_cons]
      | zero =>
          rw [List.drop_zero, replaceFrom, replaceFrom]
          split
          · rw [ih, ih _ (new.reverse ++ [])]
            simp
          · rw [ih, ih _ [b]]
            simp

@[simp] theorem replaceAll_nil : replaceAll pattern new [] = [] := rfl

/-- An occurrence at the front is replaced. -/
theorem replaceAll_append (hp : pattern ≠ []) (rest : Bytes) :
    replaceAll pattern new (pattern ++ rest) = new ++ replaceAll pattern new rest := by
  obtain ⟨b, tail, rfl⟩ := List.exists_cons_of_ne_nil hp
  have hpre : (b :: tail).isPrefixOf (b :: (tail ++ rest)) = true := by
    rw [List.isPrefixOf_iff_prefix]
    exact List.prefix_append _ rest
  rw [replaceAll, List.cons_append, replaceFrom, if_pos hpre, replaceFrom_eq]
  simp

/-- A byte that starts no occurrence stays. -/
theorem replaceAll_cons {b : UInt8} {rest : Bytes} (h : ¬ pattern <+: b :: rest) :
    replaceAll pattern new (b :: rest) = b :: replaceAll pattern new rest := by
  have hpre : ¬ pattern.isPrefixOf (b :: rest) = true := mt List.isPrefixOf_iff_prefix.mp h
  rw [replaceAll, replaceFrom, if_neg hpre, replaceFrom_eq]
  simp

/-- Induction along the occurrences of a pattern, left to right and without overlap. -/
theorem occurrence_induction (hp : pattern ≠ []) {motive : Bytes → Prop} (nil : motive [])
    (occurrence : ∀ rest, motive rest → motive (pattern ++ rest))
    (byte : ∀ b rest, ¬ pattern <+: b :: rest → motive rest → motive (b :: rest)) (s : Bytes) :
    motive s := by
  induction hn : s.length using Nat.strongRecOn generalizing s with
  | _ n ih =>
      by_cases h : pattern <+: s
      · obtain ⟨rest, rfl⟩ := h
        have hpos := List.length_pos_iff.mpr hp
        rw [List.length_append] at hn
        exact occurrence rest (ih rest.length (by omega) rest rfl)
      · cases s with
        | nil => exact nil
        | cons b rest =>
            rw [List.length_cons] at hn
            exact byte b rest h (ih rest.length (by omega) rest rfl)

theorem replaceAll_of_not_infix {s : Bytes} (h : ¬ pattern <:+: s) :
    replaceAll pattern new s = s := by
  induction s with
  | nil => rfl
  | cons b rest ih =>
      rw [List.infix_cons_iff, not_or] at h
      rw [replaceAll_cons h.1, ih h.2]

theorem length_replaceAll_le (hnew : new.length < pattern.length) (s : Bytes) :
    (replaceAll pattern new s).length ≤ s.length := by
  have hp : pattern ≠ [] := List.length_pos_iff.mp (Nat.zero_lt_of_lt hnew)
  induction s using occurrence_induction hp with
  | nil => exact Nat.le_refl _
  | occurrence rest ih =>
      rw [replaceAll_append hp, List.length_append, List.length_append]
      omega
  | byte b rest h ih =>
      rw [replaceAll_cons h, List.length_cons, List.length_cons]
      omega

/-- Replacing by something shorter changes a text exactly if there is something to replace. -/
theorem replaceAll_eq_self_iff (hnew : new.length < pattern.length) {s : Bytes} :
    replaceAll pattern new s = s ↔ ¬ pattern <:+: s := by
  refine ⟨?_, replaceAll_of_not_infix⟩
  have hp : pattern ≠ [] := List.length_pos_iff.mp (Nat.zero_lt_of_lt hnew)
  induction s using occurrence_induction hp with
  | nil => simp [hp]
  | occurrence rest ih =>
      intro h
      have hlen := congrArg List.length h
      have hle := length_replaceAll_le hnew rest
      rw [replaceAll_append hp, List.length_append, List.length_append] at hlen
      omega
  | byte b rest hb ih =>
      intro h
      rw [replaceAll_cons hb] at h
      rw [List.infix_cons_iff, not_or]
      exact ⟨hb, ih (List.cons.inj h).2⟩

theorem mem_replaceAll (hp : pattern ≠ []) {s : Bytes} {b : UInt8}
    (h : b ∈ replaceAll pattern new s) : b ∈ new ∨ b ∈ s := by
  induction s using occurrence_induction hp with
  | nil => cases h
  | occurrence rest ih =>
      rw [replaceAll_append hp, List.mem_append] at h
      grind
  | byte c rest hc ih =>
      rw [replaceAll_cons hc, List.mem_cons] at h
      grind

/-- Where a text starts as before after something was replaced, nothing was replaced. -/
theorem prefix_of_prefix_replaceAll (hp : pattern ≠ []) (hnew : new ≠ []) {start s : Bytes}
    (hstart : ∀ b ∈ start, b ∉ new) (h : start <+: replaceAll pattern new s) : start <+: s := by
  induction s using occurrence_induction hp generalizing start with
  | nil => exact h
  | occurrence rest _ =>
      cases start with
      | nil => exact List.nil_prefix
      | cons b start =>
          obtain ⟨first, new, rfl⟩ := List.exists_cons_of_ne_nil hnew
          rw [replaceAll_append hp, List.cons_append, List.cons_prefix_cons] at h
          exact absurd (h.1 ▸ List.mem_cons_self) (hstart b List.mem_cons_self)
  | byte c rest hc ih =>
      rw [replaceAll_cons hc] at h
      cases start with
      | nil => exact List.nil_prefix
      | cons b start =>
          rw [List.cons_prefix_cons] at h ⊢
          exact ⟨h.1, ih (fun b hb => hstart b (List.mem_cons_of_mem _ hb)) h.2⟩

/-- **Nothing is left to replace**, if what is put in has no byte of the pattern. -/
theorem not_infix_replaceAll (hp : pattern ≠ []) (hnew : new ≠ [])
    (hapart : ∀ b ∈ pattern, b ∉ new) (s : Bytes) : ¬ pattern <:+: replaceAll pattern new s := by
  induction s using occurrence_induction hp with
  | nil =>
      intro h
      exact hp (List.infix_nil.mp h)
  | occurrence rest ih =>
      -- no occurrence starts in what was put in
      have hskip {front : Bytes} (hfront : front ⊆ new) :
          ¬ pattern <:+: front ++ replaceAll pattern new rest := by
        induction front with
        | nil => exact ih
        | cons b front ihfront =>
            obtain ⟨hb, hsub⟩ := List.cons_subset.mp hfront
            rw [List.cons_append, List.infix_cons_iff, not_or]
            refine ⟨?_, ihfront hsub⟩
            intro hpre
            obtain ⟨first, tail, rfl⟩ := List.exists_cons_of_ne_nil hp
            rw [List.cons_prefix_cons] at hpre
            exact hapart first List.mem_cons_self (hpre.1 ▸ hb)
      rw [replaceAll_append hp]
      exact hskip (List.Subset.refl new)
  | byte b rest h ih =>
      rw [replaceAll_cons h, List.infix_cons_iff, not_or]
      refine ⟨?_, ih⟩
      intro hpre
      rw [← replaceAll_cons h] at hpre
      exact h (prefix_of_prefix_replaceAll hp hnew hapart hpre)

theorem replaceByte_of_not_mem {old new : UInt8} {s : Bytes} (h : old ∉ s) :
    replaceByte old new s = s := by
  have hkeep : ∀ b ∈ s, (if b = old then new else b) = b := by
    intro b hb
    rw [if_neg]
    rintro rfl
    exact h hb
  rw [replaceByte, List.map_congr_left hkeep, List.map_id']

theorem mem_replaceByte {old new b : UInt8} {s : Bytes} (h : b ∈ replaceByte old new s) :
    b ∈ s ∧ b ≠ old ∨ b = new := by
  obtain ⟨c, hc, hbc⟩ := List.mem_map.mp h
  split at hbc
  · exact .inr hbc.symm
  · next hne => exact .inl (hbc ▸ ⟨hc, hne⟩)

end Replacing

/-! ### Trimming -/

/-- Trimming takes the longest run at the end: what is left does not end in it. -/
theorem trimRight_eq_iff {p : UInt8 → Bool} {s t : Bytes} :
    trimRight p s = t ↔
      (∀ b ∈ t.getLast?, p b = false) ∧ ∃ run : Bytes, (∀ b ∈ run, p b) ∧ s = t ++ run := by
  change s.rdropWhile p = t ↔ _
  constructor
  · rintro rfl
    refine ⟨?_, s.rtakeWhile p, fun b hb => List.mem_rtakeWhile_imp hb,
      List.rdropWhile_append_rtakeWhile.symm⟩
    intro b hb
    obtain ⟨hne, rfl⟩ := List.mem_getLast?_eq_getLast hb
    simpa using List.rdropWhile_last_not p s hne
  · rintro ⟨hlast, run, hrun, rfl⟩
    induction run using List.reverseRecOn with
    | nil =>
        rw [List.append_nil, List.rdropWhile_eq_self_iff]
        intro hne
        simpa using hlast _ (List.getLast?_eq_some_getLast hne)
    | append_singleton run b ih =>
        rw [← List.append_assoc, List.rdropWhile_concat_pos p _ b (hrun b (by simp))]
        exact ih fun c hc => hrun c (by simp [hc])

/-! ### Lines -/

theorem rawLines_cons (b : UInt8) (s : Bytes) : rawLines (b :: s) = consLine b (rawLines s) := rfl

/-- A line that a line feed ends is the first line of the text. -/
theorem rawLines_append_lf {line : Bytes} (h : lf ∉ line) (rest : Bytes) :
    rawLines (line ++ lf :: rest) = line :: rawLines rest := by
  induction line with
  | nil => rfl
  | cons b line ih =>
      rw [List.mem_cons, not_or] at h
      rw [List.cons_append, rawLines_cons, ih h.2, consLine, if_neg (Ne.symm h.1)]

theorem rawLines_of_not_mem {s : Bytes} (h : lf ∉ s) : rawLines s = if s = [] then [] else [s] := by
  induction s with
  | nil => rfl
  | cons b s ih =>
      rw [List.mem_cons, not_or] at h
      rw [rawLines_cons, ih h.2, consLine.eq_def, if_neg (Ne.symm h.1),
        if_neg (List.cons_ne_nil b s)]
      split
      · next hs =>
        split at hs
        · next hnil => rw [hnil]
        · cases hs
      · next line others hs =>
        split at hs
        · cases hs
        · cases hs
          rfl

theorem consLine_ne_nil (b : UInt8) (ls : List Bytes) : consLine b ls ≠ [] := by
  unfold consLine
  split
  · exact List.cons_ne_nil _ _
  · split
    · exact List.cons_ne_nil _ _
    · exact List.cons_ne_nil _ _

theorem consLine_append (b : UInt8) {ls : List Bytes} (h : ls ≠ []) (others : List Bytes) :
    consLine b (ls ++ others) = consLine b ls ++ others := by
  obtain ⟨line, ls, rfl⟩ := List.exists_cons_of_ne_nil h
  unfold consLine
  split
  · rfl
  · rfl

/-- What follows a line feed has lines of its own. -/
theorem rawLines_append_of_lf (front rest : Bytes) :
    rawLines (front ++ [lf] ++ rest) = rawLines (front ++ [lf]) ++ rawLines rest := by
  induction front with
  | nil => rfl
  | cons b front ih =>
      have hne : rawLines (front ++ [lf]) ≠ [] := by
        cases front with
        | nil => exact List.cons_ne_nil _ _
        | cons c front => exact consLine_ne_nil c _
      rw [List.cons_append, List.cons_append, rawLines_cons, rawLines_cons, ih,
        consLine_append b hne]

/-- Lines that are written with a line feed each are read back. -/
theorem rawLines_unlines {ls : List Bytes} (h : ∀ line ∈ ls, lf ∉ line) :
    rawLines (ls.flatMap (· ++ [lf])) = ls := by
  induction ls with
  | nil => rfl
  | cons line ls ih =>
      rw [List.flatMap_cons, List.append_assoc, List.singleton_append,
        rawLines_append_lf (h line (by simp)), ih fun l hl => h l (by simp [hl])]

theorem lf_not_mem_of_mem_rawLines {s line : Bytes} (h : line ∈ rawLines s) : lf ∉ line := by
  induction s generalizing line with
  | nil => simp [rawLines] at h
  | cons b s ih =>
      rw [rawLines_cons] at h
      unfold consLine at h
      split at h
      · rcases List.mem_cons.mp h with rfl | h
        · simp
        · exact ih h
      · next hb =>
        -- the byte joins the first line of the rest, if there is one
        cases hls : rawLines s with
        | nil =>
            rw [hls, List.mem_singleton] at h
            simpa [h] using Ne.symm hb
        | cons first others =>
            rw [hls] at h ih
            rcases List.mem_cons.mp h with rfl | h
            · rw [List.mem_cons, not_or]
              exact ⟨Ne.symm hb, ih (by simp)⟩
            · exact ih (by simp [h])

theorem trimCr_subset (line : Bytes) : trimCr line ⊆ line := by
  unfold trimCr
  split
  · exact List.dropLast_subset line
  · exact List.Subset.refl line

theorem trimCr_eq_self_iff {line : Bytes} : trimCr line = line ↔ line.getLast? ≠ some cr := by
  constructor
  · intro h hlast
    rw [trimCr, if_pos hlast] at h
    have hne : line ≠ [] := by
      rintro rfl
      cases hlast
    have hlen := congrArg List.length h
    have hpos := List.length_pos_iff.mpr hne
    rw [List.length_dropLast] at hlen
    omega
  · intro h
    exact if_neg h

theorem trimCr_of_not_mem {line : Bytes} (h : cr ∉ line) : trimCr line = line :=
  trimCr_eq_self_iff.mpr fun hlast => h (List.mem_of_getLast? hlast)

theorem trimCr_append {s : Bytes} (h : s ≠ []) (start : Bytes) :
    trimCr (start ++ s) = start ++ trimCr s := by
  have hlast : (start ++ s).getLast? = s.getLast? := List.getLast?_append_of_ne_nil start h
  rw [trimCr, trimCr, hlast]
  split
  · exact List.dropLast_append_of_ne_nil h
  · rfl

/-- The part of a text up to its last line feed. -/
def finished (s : Bytes) : Bytes := s.rdropWhile (· ≠ lf)

/-- What follows the last line feed of a text. -/
def unfinished (s : Bytes) : Bytes := s.rtakeWhile (· ≠ lf)

theorem lf_not_mem_unfinished (s : Bytes) : lf ∉ unfinished s := by
  intro h
  have hne := List.mem_rtakeWhile_imp h
  simp at hne

theorem finished_eq_nil_or (s : Bytes) : finished s = [] ∨ ∃ front, finished s = front ++ [lf] := by
  by_cases h : finished s = []
  · exact .inl h
  · have hlast : (finished s).getLast h = lf := by
      have hstop := List.rdropWhile_last_not _ s h
      exact of_not_not fun hne => hstop (decide_eq_true hne)
    refine .inr ⟨(finished s).dropLast, ?_⟩
    rw [← hlast, List.dropLast_concat_getLast]

/-- **An unfinished line is one more line**, after all those that are finished. -/
theorem lines_eq_append_unfinished (s : Bytes) :
    lines s = lines (finished s) ++
      if unfinished s = [] then [] else [trimCr (unfinished s)] := by
  have hsplit : rawLines s = rawLines (finished s) ++ rawLines (unfinished s) := by
    have hs : rawLines s = rawLines (finished s ++ unfinished s) :=
      congrArg rawLines List.rdropWhile_append_rtakeWhile.symm
    rcases finished_eq_nil_or s with hnil | ⟨front, hfront⟩
    · rw [hs, hnil]
      rfl
    · rw [hs, hfront, rawLines_append_of_lf]
  rw [lines, hsplit, List.map_append, rawLines_of_not_mem (lf_not_mem_unfinished s)]
  split
  · rfl
  · rfl

/-- No line of a text has a line feed in it. -/
theorem lf_not_mem_of_mem_lines {s line : Bytes} (h : line ∈ lines s) : lf ∉ line := by
  obtain ⟨raw, hraw, rfl⟩ := List.mem_map.mp h
  exact fun hmem => lf_not_mem_of_mem_rawLines hraw (trimCr_subset raw hmem)

/-! ### Control characters -/

theorem not_lt_space_of_mem {s : Bytes} (h : s.all fun b => decide (space ≤ b)) {b : UInt8}
    (hb : b ∈ s) : ¬ b < space := by
  have hle := List.all_eq_true.mp h b hb
  exact UInt8.not_lt.mpr (of_decide_eq_true hle)

/-! ### Numbers -/

theorem decimal_ne_nil (n : Nat) : decimal n ≠ [] := by
  rw [decimal]
  split
  · exact List.cons_ne_nil _ _
  · exact List.append_ne_nil_of_right_ne_nil _ (List.cons_ne_nil _ _)

/-- A decimal number consists of digits. -/
theorem isDigit_of_mem_decimal {n : Nat} {b : UInt8} (h : b ∈ decimal n) : isDigit b = true := by
  have hdigit : ∀ d < 10, isDigit (digit d) = true := by decide
  induction n using decimal.induct with
  | case1 n hn =>
      rw [decimal, if_pos hn, List.mem_singleton] at h
      exact h ▸ hdigit n hn
  | case2 n hn ih =>
      rw [decimal, if_neg hn, List.mem_append, List.mem_singleton] at h
      rcases h with h | rfl
      · exact ih h
      · exact hdigit _ (Nat.mod_lt n (by decide))

/-- Digits and the sign are all that a number is written with. -/
theorem not_mem_decimalInt {x : UInt8} (hdigit : ¬ isDigit x) (hsign : x ≠ 45) (n : Int) :
    x ∉ decimalInt n := by
  cases n with
  | ofNat n => exact mt isDigit_of_mem_decimal hdigit
  | negSucc n => exact List.not_mem_cons_of_ne_of_not_mem hsign (mt isDigit_of_mem_decimal hdigit)

end Literate.Bytes
