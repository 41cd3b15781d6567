import Literate.Proofs.Noweb.Markup
import Literate.Proofs.Session.Run

/-!
# Line terminators

A line may end in a line feed, or in a carriage return and a line feed, and each line of a text may
do so in its own way:

    a⏎␊b␊c     joins     a, b, c

`Joins ls text` says that the text is made up of these lines, and reading the text gives the lines
back (`Joins.lines_eq`). Runs and marking up look at the lines of their input only, so neither can
tell one such text from another (`run_markup_of_joins`).
-/

namespace Literate

namespace Bytes

/-- A line without its terminator. A carriage return at its end would be taken for a part of the
terminator; elsewhere it is a byte like any other. -/
structure IsBare (line : Bytes) : Prop where
  lf_not_mem : lf ∉ line
  getLast?_ne : line.getLast? ≠ some cr

/-- What ends a line. -/
def terminators : List Bytes := [utf8 "\n", utf8 "\r\n"]

/-- The text is made up of these lines, with any terminator after each of them. The last line may go
without one, unless it is empty and there would be nothing to see of it. -/
inductive Joins : List Bytes → Bytes → Prop
  | nil : Joins [] []
  | unterminated {line} : IsBare line → line ≠ [] → Joins [line] line
  | terminated {line terminator ls text} : IsBare line → terminator ∈ terminators → Joins ls text →
      Joins (line :: ls) (line ++ terminator ++ text)

/-! ### Reading the lines of a text -/

theorem IsBare.trimCr_eq {line : Bytes} (h : IsBare line) : trimCr line = line :=
  trimCr_eq_self_iff.mpr h.getLast?_ne

theorem trimCr_concat_cr (line : Bytes) : trimCr (line ++ [cr]) = line := by
  have hlast : (line ++ [cr]).getLast? = some cr := List.getLast?_concat
  rw [trimCr, if_pos hlast, List.dropLast_concat]

/-- Either terminator ends a line, and what follows has lines of its own. -/
theorem IsBare.lines_append {line terminator : Bytes} (h : IsBare line)
    (hterminator : terminator ∈ terminators) (rest : Bytes) :
    lines (line ++ terminator ++ rest) = line :: lines rest := by
  rw [List.append_assoc]
  rcases List.mem_pair.mp hterminator with rfl | rfl
  · show lines (line ++ lf :: rest) = _
    rw [lines, rawLines_append_lf h.lf_not_mem, List.map_cons, h.trimCr_eq]
    rfl
  · -- the carriage return is first read as the end of the line, and then taken off
    have hcr : lf ∉ line ++ [cr] := by
      rw [List.mem_append, not_or]
      exact ⟨h.lf_not_mem, by decide⟩
    show lines (line ++ cr :: lf :: rest) = _
    rw [List.append_cons, lines, rawLines_append_lf hcr, List.map_cons, trimCr_concat_cr]
    rfl

/-- **The lines that a text is made up of are read from it**, however each of them ends. -/
theorem Joins.lines_eq {ls : List Bytes} {text : Bytes} (h : Joins ls text) : lines text = ls := by
  induction h with
  | nil => rfl
  | unterminated hline hne =>
      rw [lines, rawLines_of_not_mem hline.lf_not_mem, if_neg hne, List.map_singleton,
        hline.trimCr_eq]
  | terminated hline hterminator _ ih => rw [hline.lines_append hterminator, ih]

end Bytes

open Bytes

/-! ### Runs and marking up -/

/-- **Line terminators do not matter.** Let a text be made up of some lines. A run over the text
writes what feeding it the lines one after the other writes, and unless a write fails it also ends
in the same session, with the same remarks and without an error. Marking up the text writes the
directives of the lines. And whatever the writer does, a run over another text of the same lines
ends alike, and so does marking it up. -/
theorem run_markup_of_joins {ls : List Bytes} {text : Bytes} (h : Joins ls text) :
    (∀ {σ : Type} [Writer σ] (out : σ),
      let o := Session.run out ⟨text, none⟩
      let fed := ls.foldl Run.feed { out }
      o.run.out = fed.out ∧ o.run.failure = fed.failure ∧
        (fed.failure = none → o.run = fed ∧ o.error = none)) ∧
    (∀ name, Noweb.markup ({} : Sink) name ⟨text, none⟩ =
      ({ pieces := ((Noweb.directives name ls).map fun d => d.print ++ [lf]).reverse }, none)) ∧
    ∀ text', Joins ls text' → ∀ {σ : Type} [Writer σ] (out : σ),
      Session.run out ⟨text', none⟩ = Session.run out ⟨text, none⟩ ∧
        ∀ name, Noweb.markup out name ⟨text', none⟩ = Noweb.markup out name ⟨text, none⟩ := by
  refine ⟨?_, ?_, ?_⟩
  · intro σ _ out o fed
    have ho : o = _ := Session.run_eq out ⟨text, none⟩
    rw [h.lines_eq] at ho
    have hrun : o.run = Run.feedAll { out } ls := congrArg Outcome.run ho
    obtain ⟨hout, hfailure, hall⟩ := Run.feedAll_eq { out } ls
    rw [← hrun] at hout hfailure hall
    refine ⟨hout, hfailure, fun hnone => ⟨hall hnone, ?_⟩⟩
    rw [ho, ← hrun, Run.error?, hfailure, hnone]
    rfl
  · intro name
    rw [@Noweb.markup_of_room {} rfl name text, h.lines_eq]
    show (({ pieces := (Noweb.written _).reverse ++ [] } : Sink), none) = _
    rw [List.append_nil]
    rfl
  · intro text' h' σ _ out
    have hlines : lines text' = lines text := h'.lines_eq.trans h.lines_eq.symm
    refine ⟨?_, fun name => ?_⟩
    · simp only [Session.run_eq, hlines]
    · simp only [Noweb.markup, Intake.forLines_eq, hlines]

/-- An empty line, a carriage return inside of a line and one before a line feed, and a last line
that nothing ends. -/
theorem run_markup_of_joins_mixed :
    let ls := [utf8 "@text a\rb", [], utf8 "@nl"]
    let text := utf8 "@text a\rb\r\n\n@nl"
    let text' := utf8 "@text a\rb\n\r\n@nl\r\n"
    Joins ls text ∧ Joins ls text' ∧
      (Session.run ({} : Sink) ⟨text, none⟩).run.out.contents = utf8 "a\rb\n" ∧
      (Session.run ({} : Sink) ⟨text, none⟩).run.diagnostics = [⟨2, some .malformedLine, [], []⟩] ∧
      Session.run ({} : Sink) ⟨text', none⟩ = Session.run ({} : Sink) ⟨text, none⟩ ∧
      Noweb.markup ({} : Sink) (utf8 "f") ⟨text', none⟩ =
        Noweb.markup ({} : Sink) (utf8 "f") ⟨text, none⟩ := by
  intro ls text text'
  have hbare : IsBare (utf8 "@text a\rb") ∧ IsBare [] ∧ IsBare (utf8 "@nl") :=
    ⟨⟨by decide, by decide⟩, ⟨by decide, by decide⟩, ⟨by decide, by decide⟩⟩
  have hlf : utf8 "\n" ∈ terminators := by decide
  have hcrlf : utf8 "\r\n" ∈ terminators := by decide
  have htext : Joins ls text :=
    .terminated hbare.1 hcrlf (.terminated hbare.2.1 hlf (.unterminated hbare.2.2 (by decide)))
  have htext' : Joins ls text' :=
    .terminated hbare.1 hlf (.terminated hbare.2.1 hcrlf (.terminated hbare.2.2 hcrlf .nil))
  obtain ⟨hrun, -, hsame⟩ := run_markup_of_joins htext
  obtain ⟨hfed, -⟩ := (hrun ({} : Sink)).2.2 (by decide +kernel)
  obtain ⟨hsession, hmarkup⟩ := hsame text' htext' ({} : Sink)
  refine ⟨htext, htext', ?_, ?_, hsession, hmarkup _⟩
  · rw [hfed]
    decide +kernel
  · rw [hfed]
    decide +kernel

end Literate
