import Literate.Proofs.Session.History

/-!
# Diagnostics are sound and complete

Which lines are reported, and how, is decided by the history alone:

* a line that is empty or does not start with `@` is malformed;
* the end of a chunk is mismatched unless the last boundary before it begins a chunk of its kind.

`Reported lines d` states these two rules, and `mem_diagnostics_iff` says that they give just the
diagnostics of a run, one a line at most and in the order of the lines.
-/

namespace Literate.History

open Bytes Text

/-- The diagnostics that lines call for. -/
inductive Reported (lines : List Bytes) : Diagnostic → Prop
  /-- A line that is empty or does not start with `@`. -/
  | malformed {before line after} : lines = before ++ line :: after →
      (line = [] ∨ ∃ b rest, line = b :: rest ∧ b ≠ atSign) →
      Reported lines { line := before.length + 1, fault := some .malformedLine }
  /-- An end whose kind is not that of the open chunk. -/
  | mismatched {before line after arg} : lines = before ++ line :: after →
      argument? .endChunk line = some arg → openKind before ≠ some (firstField arg) →
      Reported lines {
        line := before.length + 1
        fault := some .mismatchedEnd
        found := firstField arg
        expected := (openKind before).getD (utf8 "none") }

/-- The diagnostic that a line calls for after a history. -/
def verdict? (history : List Bytes) (line : Bytes) : Option Diagnostic :=
  if line.head? ≠ some atSign then
    some { line := history.length + 1, fault := some .malformedLine }
  else
    match ended? line with
    | none => none
    | some kind =>
      if openKind history = some kind then none
      else some {
        line := history.length + 1
        fault := some .mismatchedEnd
        found := kind
        expected := (openKind history).getD (utf8 "none") }

/-! ### The rules, line by line -/

theorem head?_ne_iff {line : Bytes} :
    line.head? ≠ some atSign ↔ line = [] ∨ ∃ b rest, line = b :: rest ∧ b ≠ atSign := by
  cases line <;> simp

theorem verdict?_eq_some_iff {history : List Bytes} {line : Bytes} {d : Diagnostic} :
    verdict? history line = some d ↔
      line.head? ≠ some atSign ∧ d = { line := history.length + 1, fault := some .malformedLine } ∨
      ∃ arg, argument? .endChunk line = some arg ∧ openKind history ≠ some (firstField arg) ∧
        d = {
          line := history.length + 1
          fault := some .mismatchedEnd
          found := firstField arg
          expected := (openKind history).getD (utf8 "none") } := by
  unfold verdict?
  split
  · next hat =>
    have hend := Directive.argument?_of_parse?_none (Directive.parse?_eq_none_iff.mpr hat) .endChunk
    simp [hend, hat, eq_comm]
  · next hat =>
    cases hend : argument? .endChunk line with
    | none => simp [ended?, hend, hat]
    | some arg =>
        simp only [ended?, hend, Option.map_some, hat, false_and, Option.some.injEq, false_or]
        split
        · simp [*]
        · simp [*, eq_comm]

theorem reported_iff {lines : List Bytes} {d : Diagnostic} :
    Reported lines d ↔
      ∃ before line after, lines = before ++ line :: after ∧ verdict? before line = some d := by
  constructor
  · rintro (⟨hlines, hbad⟩ | ⟨hlines, hend, hopen⟩)
    · exact ⟨_, _, _, hlines, verdict?_eq_some_iff.mpr (.inl ⟨head?_ne_iff.mpr hbad, rfl⟩)⟩
    · exact ⟨_, _, _, hlines, verdict?_eq_some_iff.mpr (.inr ⟨_, hend, hopen, rfl⟩)⟩
  · rintro ⟨before, line, after, hlines, hverdict⟩
    rcases verdict?_eq_some_iff.mp hverdict with ⟨hbad, rfl⟩ | ⟨arg, hend, hopen, rfl⟩
    · exact .malformed hlines (head?_ne_iff.mp hbad)
    · exact .mismatched hlines hend hopen

theorem not_reported_nil {d : Diagnostic} : ¬ Reported [] d := by
  rw [reported_iff]
  rintro ⟨before, line, after, h, -⟩
  simp at h

/-- A further line adds the diagnostic that it calls for. -/
theorem reported_concat {lines : List Bytes} {line : Bytes} {d : Diagnostic} :
    Reported (lines ++ [line]) d ↔ Reported lines d ∨ verdict? lines line = some d := by
  rw [reported_iff, reported_iff]
  constructor
  · rintro ⟨before, line', after, h, hverdict⟩
    rcases concat_eq_append_cons_iff.mp h with ⟨rfl, rfl, rfl⟩ | ⟨after, rfl, rfl⟩
    · exact .inr hverdict
    · exact .inl ⟨before, line', after, rfl, hverdict⟩
  · rintro (⟨before, line', after, rfl, hverdict⟩ | hverdict)
    · exact ⟨before, line', after ++ [line], by simp, hverdict⟩
    · exact ⟨lines, line, [], rfl, hverdict⟩

/-- A verdict is about the line after the history. -/
theorem line_of_verdict? {history : List Bytes} {line : Bytes} {d : Diagnostic}
    (h : verdict? history line = some d) : d.line = history.length + 1 := by
  rcases verdict?_eq_some_iff.mp h with ⟨-, rfl⟩ | ⟨arg, -, -, rfl⟩ <;> rfl

theorem line_le_of_reported {lines : List Bytes} {d : Diagnostic} (h : Reported lines d) :
    d.line ≤ lines.length := by
  obtain ⟨before, line, after, rfl, hverdict⟩ := reported_iff.mp h
  rw [line_of_verdict? hverdict, List.length_append, List.length_cons]
  omega

/-! ### The diagnostics of a session -/

/-- **A line is reported as the history decides.** -/
theorem Agrees.diagnostic_feed {history : List Bytes} {s : Session} (h : Agrees history s)
    (line : Bytes) : (s.feed line).2.remark.bind Remark.diagnostic? = verdict? history line := by
  rcases Directive.parse?_cases line with ⟨hp, hargs⟩ | ⟨k, arg, hp, hargs⟩ | ⟨word, hp, hargs⟩
  · have hat := Directive.parse?_eq_none_iff.mp hp
    rw [s.feed_of_parse?_none hp, verdict?, if_pos hat]
    simp [Remark.diagnostic?, Session.malformed, h.lineNumber]
  · rw [s.feed_of_parse? hp, verdict?, if_neg (not_not_intro (Directive.head?_of_parse? hp))]
    cases k with
    | newline =>
        -- an undefined block is remarked on, but that is no diagnostic
        have hremark := s.counted.remark_newline
        rw [Keyword.directive, Session.obey, hremark]
        simp only [ended?, hargs]
        split <;> rfl
    | defn =>
        have hremark := s.counted.remark_define arg
        rw [Keyword.directive, Session.obey, hremark]
        simp [ended?, hargs]
    | endChunk =>
        simp only [ended?, hargs, Keyword.directive, Session.obey, Session.closeChunk,
          Session.mismatch?, h.chunk, h.lineNumber]
        by_cases hopen : openKind history = some (firstField arg)
        · simp [hopen]
        · simp [hopen, Remark.diagnostic?]
    | text | file | quote | endquote | use | beginChunk =>
        simp [ended?, hargs, Keyword.directive, Session.obey]
  · rw [s.feed_of_parse? hp, verdict?, if_neg (not_not_intro (Directive.head?_of_parse? hp))]
    simp [ended?, hargs, Session.obey, Remark.diagnostic?]

/-- The diagnostics of a fresh session. -/
def diagnostics (lines : List Bytes) : List Diagnostic :=
  (Session.remarks {} lines).filterMap Remark.diagnostic?

theorem diagnostics_concat (lines : List Bytes) (line : Bytes) :
    diagnostics (lines ++ [line]) = diagnostics lines ++ (verdict? lines line).toList := by
  rw [diagnostics, Session.remarks_append, List.filterMap_append, ← diagnostics,
    ← (Agrees.after lines).diagnostic_feed line, Session.remarks_cons, Session.remarks_nil,
    List.append_nil]
  cases (Session.feed _ line).2.remark with
  | none => rfl
  | some remark => cases h : remark.diagnostic? <;> simp [h]

theorem mem_diagnostics {lines : List Bytes} {d : Diagnostic} :
    d ∈ diagnostics lines ↔ Reported lines d := by
  induction lines using List.reverseRecOn with
  | nil => exact iff_of_false List.not_mem_nil not_reported_nil
  | append_singleton lines line ih =>
      rw [diagnostics_concat, List.mem_append, ih, Option.mem_toList, reported_concat]

theorem pairwise_diagnostics (lines : List Bytes) :
    (diagnostics lines).Pairwise fun d e => d.line < e.line := by
  induction lines using List.reverseRecOn with
  | nil => exact List.Pairwise.nil
  | append_singleton lines line ih =>
      rw [diagnostics_concat, List.pairwise_append]
      refine ⟨ih, by cases verdict? lines line <;> simp, ?_⟩
      -- all earlier diagnostics are about earlier lines
      intro d hd e he
      have hle := line_le_of_reported (mem_diagnostics.mp hd)
      have heq := line_of_verdict? (Option.mem_toList.mp he)
      omega

theorem filter_diagnostics (before after : List Bytes) :
    (diagnostics (before ++ after)).filter (fun d : Diagnostic => d.line ≤ before.length) =
      diagnostics before := by
  induction after using List.reverseRecOn with
  | nil =>
      rw [List.append_nil, List.filter_eq_self]
      intro d hd
      exact decide_eq_true (line_le_of_reported (mem_diagnostics.mp hd))
  | append_singleton after line ih =>
      -- the verdict on a further line is about that line
      have hlater : (verdict? (before ++ after) line).toList.filter
          (fun d : Diagnostic => d.line ≤ before.length) = [] := by
        rw [List.filter_eq_nil_iff]
        intro d hd
        have heq := line_of_verdict? (Option.mem_toList.mp hd)
        rw [decide_eq_true_iff, heq, List.length_append]
        omega
      rw [← List.append_assoc, diagnostics_concat, List.filter_append, hlater, List.append_nil]
      exact ih

theorem diagnostics_foldl_feed {σ : Type} [Writer σ] (out : σ) (lines : List Bytes) :
    (lines.foldl Run.feed { out }).diagnostics = diagnostics lines := by
  show List.filterMap _ (List.reverse (Run.remarks _)) = _
  rw [Run.remarks_foldl_feed, List.append_nil, List.reverse_reverse]
  rfl

/-- **Diagnostics are sound and complete.** Whatever the writer does, a run reports just what the
lines call for, at most once a line and in their order. -/
theorem mem_diagnostics_iff {σ : Type} [Writer σ] (out : σ) (lines : List Bytes) :
    let reported := (lines.foldl Run.feed { out }).diagnostics
    (reported.Pairwise fun d e => d.line < e.line) ∧ ∀ d, d ∈ reported ↔ Reported lines d := by
  intro reported
  have hreported : reported = diagnostics lines := diagnostics_foldl_feed out lines
  rw [hreported]
  exact ⟨pairwise_diagnostics lines, fun d => mem_diagnostics⟩

end Literate.History
