import Mathlib.Data.List.Forall2
import Mathlib.Data.Nat.Find
import Literate.Proofs.Session.History

/-!
# Which targets are declared

The first definition of a name declares a target, and the label of the target is the name with its
spaces as underscores. Which names were defined is remembered by name, not by label, so that

    @defn a b          .. _a_b:
    @defn a_b          .. _a_b:

declares one label twice. `Declares lines i name` says that line `i` writes the target of `name`;
`declares_iff` says when, and `declares_label` how far labels can coincide.
-/

namespace Literate.History

open Bytes

/-- What a fresh session has written after the first `k` lines. -/
def written (lines : List Bytes) (k : Nat) : Bytes :=
  ((lines.take k).foldl Run.feed { out := ({} : Sink) }).out.contents

/-- The line with index `i` defines `name` and writes the line that declares its target. -/
structure Declares (lines : List Bytes) (i : Nat) (name : Bytes) : Prop where
  defines : lines[i]?.bind (argument? .defn) = some name
  writes : written lines (i + 1) = written lines i ++ anchorLine name

theorem written_succ {lines : List Bytes} {i : Nat} {line : Bytes} (h : lines[i]? = some line) :
    written lines (i + 1) = written lines i ++ fragment (lines.take i) line := by
  have hfresh : ({ out := {} } : Run Sink).Unlimited := ⟨rfl, rfl⟩
  have hbefore := (Run.foldl_feed_of_unlimited hfresh (lines.take i)).1
  have hline := (Run.feed_of_unlimited hbefore line).2
  rw [written, List.take_add_one, h, List.foldl_append, Option.toList_some, List.foldl_cons,
    List.foldl_nil, hline, Sink.contents_taking, Run.session_foldl_feed,
    (Agrees.after (lines.take i)).pieces_feed line]
  rfl

theorem fragment_of_defn {line name : Bytes} (h : argument? .defn line = some name)
    (history : List Bytes) :
    fragment history line = if name ∈ definitions history then [] else anchorLine name := by
  rw [anchorLine_eq]
  -- the line is read as a definition and as nothing else
  rcases Directive.parse?_cases line with ⟨-, hargs⟩ | ⟨k, arg, -, hargs⟩ | ⟨word, -, hargs⟩
  · rw [hargs] at h
    cases h
  · obtain rfl : .defn = k := by
      by_contra hne
      rw [hargs, if_neg hne] at h
      cases h
    obtain rfl : arg = name := by simpa [hargs] using h
    simp [fragment, hargs]
  · rw [hargs] at h
    cases h

/-- **The target of a name is declared by its first definition.** -/
theorem declares_iff {lines : List Bytes} {i : Nat} {name : Bytes} :
    Declares lines i name ↔
      lines[i]?.bind (argument? .defn) = some name ∧ name ∉ definitions (lines.take i) := by
  have hstep : lines[i]?.bind (argument? .defn) = some name →
      (written lines (i + 1) = written lines i ++ anchorLine name ↔
        name ∉ definitions (lines.take i)) := by
    intro h
    obtain ⟨line, hline, hname⟩ := Option.bind_eq_some_iff.mp h
    rw [written_succ hline, fragment_of_defn hname, List.append_right_inj]
    split
    · next hmem => exact iff_of_false (List.cons_ne_nil _ _).symm (not_not_intro hmem)
    · next hmem => exact iff_of_true rfl hmem
  constructor
  · intro h
    exact ⟨h.defines, (hstep h.defines).mp h.writes⟩
  · rintro ⟨h, hnew⟩
    exact ⟨h, (hstep h).mpr hnew⟩

theorem mem_definitions_take {lines : List Bytes} {i j : Nat} {name : Bytes}
    (h : lines[i]?.bind (argument? .defn) = some name) (hlt : i < j) :
    name ∈ definitions (lines.take j) := by
  obtain ⟨line, hline, hname⟩ := Option.bind_eq_some_iff.mp h
  rw [definitions, List.mem_filterMap]
  refine ⟨line, ?_, hname⟩
  rw [List.mem_iff_getElem?]
  exact ⟨i, by rw [List.getElem?_take_of_lt hlt, hline]⟩

/-- A name has its target declared at most once. -/
theorem Declares.index_eq {lines : List Bytes} {i j : Nat} {name : Bytes}
    (h : Declares lines i name) (h' : Declares lines j name) : i = j := by
  rcases Nat.lt_trichotomy i j with hlt | heq | hlt
  · exact absurd (mem_definitions_take h.defines hlt) (declares_iff.mp h').2
  · exact heq
  · exact absurd (mem_definitions_take h'.defines hlt) (declares_iff.mp h).2

/-- The names that have a target are the names defined. -/
theorem exists_declares_iff {lines : List Bytes} {name : Bytes} :
    (∃ i, Declares lines i name) ↔ name ∈ definitions lines := by
  constructor
  · rintro ⟨i, h⟩
    obtain ⟨line, hline, hname⟩ := Option.bind_eq_some_iff.mp h.defines
    exact List.mem_filterMap.mpr ⟨line, List.mem_of_getElem? hline, hname⟩
  · intro h
    -- the least index of a definition of the name: no line before it defines it
    have hex : ∃ i : Nat, lines[i]?.bind (argument? .defn) = some name := by
      obtain ⟨line, hmem, hname⟩ := List.mem_filterMap.mp h
      obtain ⟨i, hline⟩ := List.mem_iff_getElem?.mp hmem
      exact ⟨i, by rw [hline, Option.bind_some, hname]⟩
    refine ⟨Nat.find hex, declares_iff.mpr ⟨Nat.find_spec hex, ?_⟩⟩
    intro hearlier
    obtain ⟨line, hmem, hname⟩ := List.mem_filterMap.mp hearlier
    obtain ⟨j, hline⟩ := List.mem_iff_getElem?.mp hmem
    rw [List.getElem?_take, Option.ite_none_right_eq_some] at hline
    obtain ⟨hlt, hline⟩ := hline
    exact Nat.find_min hex hlt (by rw [hline, Option.bind_some, hname])

/-! ### Labels -/

/-- The bytes are the same, or one is a space and the other an underscore. -/
def SameInLabel (b c : UInt8) : Prop := b = c ∨ b = space ∧ c = 95 ∨ b = 95 ∧ c = space

theorem anchorLabel_eq_iff {name other : Bytes} :
    anchorLabel name = anchorLabel other ↔ List.Forall₂ SameInLabel name other := by
  rw [anchorLabel, anchorLabel, replaceByte, replaceByte, ← List.forall₂_eq_eq_eq,
    List.forall₂_map_left_iff, List.forall₂_map_right_iff]
  have hbyte : ∀ b c : UInt8, ((if b = space then 95 else b) = if c = space then 95 else c) ↔
      SameInLabel b c := by
    intro b c
    unfold SameInLabel
    grind
  simp only [hbyte]

/-- **A label is declared twice only for names that differ in spaces and underscores.** The target
of a name is declared where the name is first defined and nowhere else. Two targets with the same
label belong to names that are not the same, but are so up to spaces and underscores; and all labels
are declared once exactly if no two of the names defined are like that. -/
theorem declares_label (lines : List Bytes) :
    (∀ i name, Declares lines i name ↔
      lines[i]?.bind (argument? .defn) = some name ∧ name ∉ definitions (lines.take i)) ∧
    (∀ i j name, Declares lines i name → Declares lines j name → i = j) ∧
    (∀ i j name other, Declares lines i name → Declares lines j other → i ≠ j →
      anchorLabel name = anchorLabel other → name ≠ other ∧ List.Forall₂ SameInLabel name other) ∧
    ((∀ i j name other, Declares lines i name → Declares lines j other →
        anchorLabel name = anchorLabel other → i = j) ↔
      ∀ name ∈ definitions lines, ∀ other ∈ definitions lines,
        anchorLabel name = anchorLabel other → name = other) := by
  refine ⟨fun i name => declares_iff, fun i j name h h' => h.index_eq h', ?_, ?_, ?_⟩
  · intro i j name other h h' hne hlabel
    refine ⟨?_, anchorLabel_eq_iff.mp hlabel⟩
    rintro rfl
    exact hne (h.index_eq h')
  · intro honce name hname other hother hlabel
    obtain ⟨i, h⟩ := exists_declares_iff.mpr hname
    obtain ⟨j, h'⟩ := exists_declares_iff.mpr hother
    obtain rfl := honce i j name other h h' hlabel
    exact Option.some.inj (h.defines.symm.trans h'.defines)
  · intro hnames i j name other h h' hlabel
    obtain rfl := hnames name (exists_declares_iff.mp ⟨i, h⟩) other (exists_declares_iff.mp ⟨j, h'⟩)
      hlabel
    exact h.index_eq h'

/-- Two names, one label, two targets. -/
theorem declares_same_label :
    let lines := [utf8 "@defn a b", utf8 "@defn a_b"]
    Declares lines 0 (utf8 "a b") ∧ Declares lines 1 (utf8 "a_b") ∧
      anchorLabel (utf8 "a b") = anchorLabel (utf8 "a_b") :=
  ⟨⟨by decide, by decide⟩, ⟨by decide, by decide⟩, by decide⟩

end Literate.History
