import Literate.Proofs.Writer
import Literate.Writer.Buffered

/-!
# What a buffer makes of its sink

A buffer changes when the sink is offered a text and in which pieces, but not the text:

    text  =  what the sink was offered  ++  what is held

and no more is held than fits. If the sink fails, what it was offered is some start of the text, and
from then on nothing changes. `Carries P` says this for any ledger `P` of the sink and is a ledger
again (`Carries.ledger`). Flushing settles the difference: the sink was then offered all of the text
(`Carries.flush_offered`).
-/

namespace Literate.Buffered

/-- What a buffer has become once it was offered `text`, by what its sink has become. -/
inductive Carries (P : Bytes → Sink → Option Failure → Prop) (text : Bytes) (b : Buffered) :
    Option Failure → Prop
  | going {passed} : b.failure = none → P passed b.sink none →
      text = passed ++ b.held.reverse.flatten → b.size = b.held.reverse.flatten.length →
      b.size ≤ capacity → Carries P text b none
  | failed {passed why} : b.failure = some why → P passed b.sink (some why) → passed <+: text →
      Carries P text b (some why)

namespace Carries

variable {P : Bytes → Sink → Option Failure → Prop} {text piece : Bytes} {b : Buffered}

theorem fresh {sink : Sink} (h : P [] sink none) : Carries P [] { sink } none :=
  .going rfl h rfl rfl (Nat.zero_le capacity)

theorem failure_eq {failure : Option Failure} (h : Carries P text b failure) :
    b.failure = failure := by
  cases h with
  | going hnone => exact hnone
  | failed hsome => exact hsome

theorem size_le (h : Carries P text b none) : b.size ≤ capacity := by
  cases h with
  | going _ _ _ _ hle => exact hle

theorem held_of_size (h : Carries P text b none) (hsize : b.size = 0) :
    b.held.reverse.flatten = [] := by
  cases h with
  | going _ _ _ hlen _ => exact List.length_eq_zero_iff.mp (hlen.symm.trans hsize)

/-- A buffer that holds nothing has handed on everything. -/
theorem offered_of_size (h : Carries P text b none) (hsize : b.size = 0) : P text b.sink none := by
  have hheld := h.held_of_size hsize
  cases h with
  | going _ hsink htext =>
      rw [htext, hheld, List.append_nil]
      exact hsink

theorem hold (h : Carries P text b none) (hfits : b.size + piece.length ≤ capacity) :
    Carries P (text ++ piece) (b.hold piece) none := by
  cases h with
  | going hnone hsink htext hlen _ =>
      have hheld : (b.hold piece).held.reverse.flatten = b.held.reverse.flatten ++ piece := by
        simp [Buffered.hold]
      refine .going hnone hsink ?_ ?_ hfits
      · rw [htext, hheld, List.append_assoc]
      · rw [hheld, List.length_append, ← hlen]
        rfl

theorem direct_offered (hP : Writer.Ledger P) (h : Carries P text b none) (hsize : b.size = 0)
    (piece : Bytes) : P (text ++ piece) (b.direct piece).1.sink (b.direct piece).2 :=
  hP.write (h.offered_of_size hsize) piece

theorem direct (hP : Writer.Ledger P) (h : Carries P text b none) (hsize : b.size = 0)
    (piece : Bytes) : Carries P (text ++ piece) (b.direct piece).1 (b.direct piece).2 := by
  have hoffered := h.direct_offered hP hsize piece
  have hfailure : (b.direct piece).1.failure = (b.direct piece).2 := rfl
  have hheld : (b.direct piece).1.held.reverse.flatten = [] := h.held_of_size hsize
  have hkept : (b.direct piece).1.size = 0 := hsize
  cases hresult : (b.direct piece).2 with
  | none =>
      rw [hresult] at hoffered hfailure
      refine .going hfailure hoffered ?_ ?_ ?_
      · rw [hheld, List.append_nil]
      · rw [hkept, hheld, List.length_nil]
      · rw [hkept]
        exact Nat.zero_le capacity
  | some why =>
      rw [hresult] at hoffered hfailure
      exact .failed hfailure hoffered (List.prefix_refl _)

/-- The buffer with nothing in it stands for what its sink was offered. -/
theorem emptied (h : Carries P text b none) :
    ∃ passed, Carries P passed { b with held := [], size := 0 } none ∧
      text = passed ++ b.held.reverse.flatten := by
  cases h with
  | @going passed hnone hsink htext _ _ =>
      refine ⟨passed, ?_, htext⟩
      exact .going hnone hsink (List.append_nil _).symm rfl (Nat.zero_le capacity)

theorem flush_eq (h : Carries P text b none) :
    b.flush = if b.size = 0 then (b, none)
      else Buffered.direct { b with held := [], size := 0 } b.held.reverse.flatten := by
  unfold Buffered.flush
  split
  · next hsome =>
    rw [h.failure_eq] at hsome
    cases hsome
  · rfl

/-- **After a flush the sink was offered all of the text.** -/
theorem flush_offered (hP : Writer.Ledger P) (h : Carries P text b none) :
    P text b.flush.1.sink b.flush.2 := by
  rw [h.flush_eq]
  split
  · next hsize => exact h.offered_of_size hsize
  · obtain ⟨passed, hempty, rfl⟩ := h.emptied
    exact hempty.direct_offered hP rfl _

theorem flush (hP : Writer.Ledger P) (h : Carries P text b none) :
    Carries P text b.flush.1 b.flush.2 ∧ b.flush.1.size = 0 := by
  rw [h.flush_eq]
  split
  · next hsize => exact ⟨h, hsize⟩
  · obtain ⟨passed, hempty, rfl⟩ := h.emptied
    exact ⟨hempty.direct hP rfl _, rfl⟩

theorem writeEmpty (hP : Writer.Ledger P) (h : Carries P text b none) (hsize : b.size = 0)
    (piece : Bytes) : Carries P (text ++ piece) (b.writeEmpty piece).1 (b.writeEmpty piece).2 := by
  unfold Buffered.writeEmpty
  split
  · next hle =>
    apply h.hold
    rwa [hsize, Nat.zero_add]
  · exact h.direct hP hsize piece

theorem write (hP : Writer.Ledger P) (h : Carries P text b none) (piece : Bytes) :
    Carries P (text ++ piece) (b.write piece).1 (b.write piece).2 := by
  unfold Buffered.write
  rw [h.failure_eq]
  simp only
  split
  · next hfits => exact h.hold hfits
  · split
    · next hsize => exact h.writeEmpty hP hsize piece
    · next hlong _ =>
      -- the buffer is filled up with the first part, and the rest finds it empty
      have hsize_le := h.size_le
      have hpart : b.size + (piece.take (capacity - b.size)).length ≤ capacity := by
        rw [List.length_take]
        omega
      obtain ⟨hflush, hempty⟩ := (h.hold hpart).flush hP
      have hpiece : text ++ piece =
          text ++ piece.take (capacity - b.size) ++ piece.drop (capacity - b.size) := by
        rw [List.append_assoc, List.take_append_drop]
      rw [hpiece]
      rcases hresult : (b.hold (piece.take (capacity - b.size))).flush with ⟨b', failure⟩
      rw [hresult] at hflush hempty
      cases failure with
      | none => exact hflush.writeEmpty hP hempty _
      | some why =>
          cases hflush with
          | failed hsome hsink hstart =>
              exact .failed hsome hsink (hstart.trans (List.prefix_append _ _))

theorem ledger (hP : Writer.Ledger P) : Writer.Ledger (Carries P) where
  write h piece := h.write hP piece
  append h more := by
    cases h with
    | failed hsome hsink hstart =>
        exact .failed hsome hsink (hstart.trans (List.prefix_append _ _))

/-! ### A sink with a limit -/

variable {n : Nat} {failure : Option Failure}

theorem contents_isPrefix (h : Carries (Sink.Offered n) text b failure) :
    b.sink.contents <+: text := by
  cases h with
  | going _ hsink htext =>
      rw [hsink.contents, htext]
      exact (List.take_prefix _ _).trans (List.prefix_append _ _)
  | failed _ hsink hstart =>
      rw [hsink.contents]
      exact (List.take_prefix _ _).trans hstart

/-- If the sink fails, it has the first `n` bytes of the text and the text is longer. -/
theorem contents_of_failed {why : Failure} (h : Carries (Sink.Offered n) text b (some why)) :
    b.sink.contents = text.take n ∧ n < text.length := by
  cases h with
  | failed _ hsink hstart =>
      have hlt := hsink.failed.mp rfl
      obtain ⟨more, rfl⟩ := hstart
      refine ⟨?_, ?_⟩
      · rw [hsink.contents, List.take_append_of_le_length (Nat.le_of_lt hlt)]
      · rw [List.length_append]
        omega

/-- As long as nothing fails, no more than the buffer holds is missing from the sink. -/
theorem exists_missing (h : Carries (Sink.Offered n) text b none) :
    ∃ missing, text = b.sink.contents ++ missing ∧ missing.length ≤ capacity := by
  cases h with
  | going _ hsink htext hlen hle =>
      refine ⟨b.held.reverse.flatten, ?_, hlen ▸ hle⟩
      rw [hsink.contents, List.take_of_length_le hsink.length_le, htext]

end Carries

end Literate.Buffered
