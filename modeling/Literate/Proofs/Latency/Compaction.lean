import Literate.Proofs.Latency.Rolling

/-!
# Pruning, step by step

A window is pruned within one array: each step reads a sample and, if it is kept, writes it further
to the front. The writing never gets ahead of the reading, so no sample is written over before it
is read (`Compaction.Intact`), and what has been written is always what was read without what is
too old (`Compaction.Intact.take_write`). Nothing here asks for samples in the order of their times,
nor for a clock that does not go back: two prunings are one, at the later of their times
(`Window.prune_prune`).
-/

namespace Literate

/-- Where the compaction of an array stands. The one array is both read and written. -/
structure Compaction (α : Type) where
  /-- How many elements have been read. -/
  read : Nat := 0
  /-- How many of them are kept, at the front of the array. -/
  write : Nat := 0
  array : Array α
deriving DecidableEq, Repr

namespace Compaction

/-- Read one element, and write it behind those that are kept if `keep` accepts it. -/
def step {α : Type} (keep : α → Bool) (c : Compaction α) : Compaction α :=
  if h : c.read < c.array.size then
    if keep c.array[c.read] then
      ⟨c.read + 1, c.write + 1, c.array.setIfInBounds c.write c.array[c.read]⟩
    else ⟨c.read + 1, c.write, c.array⟩
  else c

/-- The compaction of an array after some steps. -/
def after {α : Type} (keep : α → Bool) (a : Array α) : Nat → Compaction α
  | 0 => { array := a }
  | n + 1 => (after keep a n).step keep

/-- What there is at the end. -/
def result {α : Type} (keep : α → Bool) (c : Compaction α) : Array α :=
  compactFrom keep c.read c.write c.array

variable {α : Type} {keep : α → Bool} {c : Compaction α} {a : Array α} {n : Nat}

/-! ### Steps of compacting -/

theorem step_of_keep (h : c.read < c.array.size) (hkeep : keep c.array[c.read]) :
    c.step keep =
      ⟨c.read + 1, c.write + 1, c.array.setIfInBounds c.write c.array[c.read]⟩ := by
  rw [step, dif_pos h, if_pos hkeep]

theorem step_of_drop (h : c.read < c.array.size) (hkeep : ¬ keep c.array[c.read]) :
    c.step keep = ⟨c.read + 1, c.write, c.array⟩ := by
  rw [step, dif_pos h, if_neg hkeep]

/-- A step is one turn of the loop. -/
theorem result_step (keep : α → Bool) (c : Compaction α) :
    (c.step keep).result keep = c.result keep := by
  by_cases h : c.read < c.array.size
  · by_cases hkeep : keep c.array[c.read]
    · rw [step_of_keep h hkeep, result, result, compactFrom.eq_def keep c.read, dif_pos h,
        if_pos hkeep]
    · rw [step_of_drop h hkeep, result, result, compactFrom.eq_def keep c.read, dif_pos h,
        if_neg hkeep]
  · rw [step, dif_neg h]

theorem result_after (keep : α → Bool) (a : Array α) (n : Nat) :
    (after keep a n).result keep = compact keep a := by
  induction n with
  | zero => rfl
  | succ n ih => rw [after, result_step, ih]

/-! ### Nothing is lost -/

/-- The first `n` elements of `a` have been read, and all the others are still where they were. -/
structure Intact (c : Compaction α) (a : Array α) (n : Nat) : Prop where
  read : c.read = n
  write_le : c.write ≤ n
  size : c.array.size = a.size
  unread : ∀ i, n ≤ i → c.array[i]? = a[i]?

namespace Intact

theorem start (a : Array α) : ({ array := a } : Compaction α).Intact a 0 :=
  ⟨rfl, Nat.le_refl 0, rfl, fun _ _ => rfl⟩

theorem step (h : c.Intact a n) (hn : n < a.size) (keep : α → Bool) :
    (c.step keep).Intact a (n + 1) := by
  have hread : c.read < c.array.size := by
    rw [h.read, h.size]
    exact hn
  have hwrite := h.write_le
  by_cases hkeep : keep c.array[c.read]
  · rw [step_of_keep hread hkeep]
    refine ⟨congrArg (· + 1) h.read, Nat.succ_le_succ hwrite, ?_, fun i hi => ?_⟩
    · rw [Array.size_setIfInBounds, h.size]
    · -- the place that is written has been read by now
      rw [Array.getElem?_setIfInBounds_ne (by omega), h.unread i (by omega)]
  · rw [step_of_drop hread hkeep]
    exact ⟨congrArg (· + 1) h.read, Nat.le_succ_of_le hwrite, h.size,
      fun i hi => h.unread i (by omega)⟩

/-- **A compaction reads every element as it was.** -/
theorem after (keep : α → Bool) (hn : n ≤ a.size) : (after keep a n).Intact a n := by
  induction n with
  | zero => exact start a
  | succ n ih => exact (ih (Nat.le_of_succ_le hn)).step hn keep

theorem drop_read (h : c.Intact a n) : c.array.toList.drop c.read = a.toList.drop n := by
  rw [h.read]
  apply List.ext_getElem?
  intro i
  rw [List.getElem?_drop, List.getElem?_drop, Array.getElem?_toList, Array.getElem?_toList]
  exact h.unread (n + i) (Nat.le_add_right n i)

/-- What has been written is what was read and is kept. The rest of the loop adds just the rest of
the filter, so what stands there already is the filter of what was read. -/
theorem take_write (h : c.Intact a n) (hresult : c.result keep = compact keep a) :
    c.array.toList.take c.write = (a.toList.take n).filter keep := by
  have hle : c.write ≤ c.read := h.write_le.trans_eq h.read.symm
  rw [← List.append_left_inj ((a.toList.drop n).filter keep)]
  calc
    c.array.toList.take c.write ++ (a.toList.drop n).filter keep
        = (c.result keep).toList := by
      rw [result, toList_compactFrom keep c.read c.write c.array hle, h.drop_read]
    _ = a.toList.filter keep := by rw [hresult, toList_compact]
    _ = (a.toList.take n).filter keep ++ (a.toList.drop n).filter keep := by
      rw [← List.filter_append, List.take_append_drop]

end Intact

/-- Once everything is read, the result is what has been written. -/
theorem compact_eq_take (keep : α → Bool) (a : Array α) :
    compact keep a =
      (after keep a a.size).array.take (after keep a a.size).write := by
  have hintact : (after keep a a.size).Intact a a.size := .after keep (Nat.le_refl a.size)
  have hdone : ¬ (after keep a a.size).read < (after keep a a.size).array.size := by
    rw [hintact.read, hintact.size]
    exact Nat.lt_irrefl a.size
  rw [← result_after keep a a.size, result, compactFrom, dif_neg hdone]

end Compaction

namespace Window

/-- Two prunings are one, at the later of their times. -/
theorem prune_prune (w : Window) (now later : Int) :
    (w.prune now).prune later = w.prune (max now later) := by
  have hsamples : ((w.prune now).prune later).samples = (w.prune (max now later)).samples := by
    rw [← Array.toList_inj, samples_prune, samples_prune, samples_prune]
    exact recent_recent w.maxAge now later w.samples.toList
  exact Window.ext rfl rfl hsamples

/-- **Pruning in place is a filter, and prunings compose.** Let the samples of a window have any
times, in any order. Pruning leaves those that are no older than the age of the window, each of them
once and in their order. After `n` turns of the loop, `n` samples have been read and at most as many
places written: every sample that is still to be read stands where it was, the written ones are the
recent ones of those read, and the loop goes on from there to what pruning leaves. Pruning at two
times, in whichever order, is pruning at the later one. -/
theorem prune_in_place (w : Window) (now later : Int) :
    let keep := fun s : Sample => decide (now - w.maxAge ≤ s.time)
    let loop := Compaction.after keep w.samples
    (w.prune now).samples.toList = w.samples.toList.filter keep ∧
      (∀ n ≤ w.samples.size,
        (loop n).read = n ∧ (loop n).write ≤ n ∧
          (∀ i, n ≤ i → (loop n).array[i]? = w.samples[i]?) ∧
          (loop n).array.toList.take (loop n).write = (w.samples.toList.take n).filter keep ∧
          compactFrom keep (loop n).read (loop n).write (loop n).array = (w.prune now).samples) ∧
      (w.prune now).samples = (loop w.samples.size).array.take (loop w.samples.size).write ∧
      (w.prune now).prune later = w.prune (max now later) := by
  intro keep loop
  refine ⟨samples_prune w now, fun n hn => ?_, Compaction.compact_eq_take keep w.samples,
    prune_prune w now later⟩
  have hintact : (loop n).Intact w.samples n := .after keep hn
  have hresult : (loop n).result keep = compact keep w.samples :=
    Compaction.result_after keep w.samples n
  exact ⟨hintact.read, hintact.write_le, hintact.unread, hintact.take_write hresult, hresult⟩

/-- With an age of ten and the times out of order, the samples at 3 and 4 are too old at 15. Three
steps on, two of those read are kept and the fourth is still to be read. The clock may go back to 7
before the next pruning, which then finds nothing to drop. -/
theorem prune_in_place_unsorted :
    let w : Window :=
      { maxAge := 10, samples := #[⟨3, 1, 0⟩, ⟨20, 2, 0⟩, ⟨5, 3, 0⟩, ⟨4, 4, 0⟩, ⟨12, 5, 0⟩] }
    let c := Compaction.after (fun s : Sample => decide (15 - w.maxAge ≤ s.time)) w.samples 3
    0 < w.maxAge ∧ (w.prune 15).samples.toList = [⟨20, 2, 0⟩, ⟨5, 3, 0⟩, ⟨12, 5, 0⟩] ∧
      c.array.toList.take c.write = [⟨20, 2, 0⟩, ⟨5, 3, 0⟩] ∧
      c.array[c.read]? = some ⟨4, 4, 0⟩ ∧ (w.prune 15).prune 7 = w.prune 15 := by
  intro w c
  obtain ⟨hfilter, hsteps, -, hcompose⟩ := prune_in_place w 15 7
  obtain ⟨hread, -, hunread, hwritten, -⟩ := hsteps 3 (by decide)
  refine ⟨by decide, hfilter, hwritten, ?_, hcompose⟩
  rw [show c.read = 3 from hread]
  exact hunread 3 (Nat.le_refl 3)

end Window

end Literate
