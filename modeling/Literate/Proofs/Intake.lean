import Literate.Intake
import Literate.Proofs.Bytes

/-!
# Reading line by line

What the reading loop takes in are the lines of the bytes that are delivered, whatever it does with
them (`Intake.forLines_eq`).
-/

namespace Literate

open Bytes

/-- If taking in lines has stopped, it is where it stops. -/
theorem stops_of_foldUntil {α : Type} {step : α → Bytes → α} {stops : α → Bool} {a last : α}
    {ls : List Bytes} (h : foldUntil step stops a ls = (last, true)) : stops last := by
  induction ls generalizing a with
  | nil => cases h
  | cons line ls ih =>
      rw [foldUntil] at h
      split at h
      · next hstops =>
        cases h
        exact hstops
      · exact ih h

namespace Intake

theorem readLine_of_mem {front : Bytes} (hfront : lf ∉ front) (rest : Bytes)
    (failure : Option Failure) :
    readLine ⟨front ++ lf :: rest, failure⟩ = (front ++ [lf], some ⟨rest, failure⟩) := by
  have hne : ∀ b ∈ front, decide (b ≠ lf) = true := fun b hb =>
    decide_eq_true (ne_of_mem_of_not_mem hb hfront)
  unfold readLine
  simp only
  rw [List.dropWhile_append_of_pos hne, List.takeWhile_append_of_pos hne]
  simp

theorem readLine_of_not_mem {bytes : Bytes} (h : lf ∉ bytes) (failure : Option Failure) :
    readLine ⟨bytes, failure⟩ = (bytes, none) := by
  have hne : ∀ b ∈ bytes, decide (b ≠ lf) = true := fun b hb =>
    decide_eq_true (ne_of_mem_of_not_mem hb h)
  unfold readLine
  simp only
  rw [List.dropWhile_eq_nil_iff.mpr hne, List.takeWhile_eq_self_iff.mpr hne]

/-- One step of the reader: it takes the first line, if there is one, and leaves the others. -/
theorem lines_readLine (i : Intake) :
    lines i.bytes = (if i.readLine.1.isEmpty then [] else [trimEol i.readLine.1]) ++
      i.readLine.2.elim [] fun next => lines next.bytes := by
  obtain ⟨bytes, failure⟩ := i
  by_cases hmem : lf ∈ bytes
  · obtain ⟨front, rest, rfl, hfront⟩ := List.eq_append_cons_of_mem hmem
    rw [readLine_of_mem hfront, lines, rawLines_append_lf hfront]
    simp [lines, trimEol]
  · have hlast : bytes.getLast? ≠ some lf := fun h => hmem (List.mem_of_getLast? h)
    rw [readLine_of_not_mem hmem, lines, rawLines_of_not_mem hmem]
    cases bytes <;> simp_all [trimEol]

variable {α : Type} (step : α → Bytes → α) (stops : α → Bool)

/-- What becomes of the lines in one round of the loop. -/
theorem foldUntil_lines (a : α) (i : Intake) :
    foldUntil step stops a (lines i.bytes) =
      let line := i.readLine.1
      let fed := if line.isEmpty then a else step a (trimEol line)
      if !line.isEmpty && stops fed then (fed, true)
      else foldUntil step stops fed (i.readLine.2.elim [] fun next => lines next.bytes) := by
  rw [lines_readLine]
  dsimp only
  cases i.readLine.1.isEmpty with
  | true => rfl
  | false => rfl

/-- **The reading loop takes in the lines one after the other**, the last one whatever it ends in,
until it stops. -/
theorem forLines_eq (a : α) (i : Intake) :
    i.forLines step stops a = foldUntil step stops a (lines i.bytes) := by
  fun_induction forLines step stops a i with
  | case1 a i line fed hstops =>
      rw [foldUntil_lines]
      exact (if_pos hstops).symm
  | case2 a i line fed hgoes hend =>
      rw [foldUntil_lines, hend]
      exact (if_neg hgoes).symm
  | case3 a i line fed hgoes next hnext ih =>
      rw [ih, foldUntil_lines step stops a i, hnext]
      exact (if_neg hgoes).symm

end Intake

end Literate
