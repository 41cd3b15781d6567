import Literate.Latency
import Literate.Proofs.Json.Number

/-!
# Laws of the rolling window

Pruning works in place: one index reads and another one, never ahead of it, writes. The part that
has been written is always the part that was read without what is too old, so the whole is a filter
(`toList_compact`). While nothing is too old, a window holds every conversion that was ever recorded
(`Window.Holds`), and its summary counts them all.
-/

namespace Literate

/-! ### Pruning -/

theorem drop_eq_cons {α : Type} {a : Array α} {i : Nat} (h : i < a.size) :
    a.toList.drop i = a[i] :: a.toList.drop (i + 1) := by
  rw [List.drop_eq_getElem_cons (by simpa using h), Array.getElem_toList]

theorem take_set_self {α : Type} {l : List α} {i : Nat} (h : i < l.length) (x : α) :
    (l.set i x).take (i + 1) = l.take i ++ [x] := by
  rw [List.take_add_one, List.take_set_of_le (Nat.le_refl i), List.getElem?_set_self h]
  rfl

theorem toList_compactFrom {α : Type} (keep : α → Bool) (read write : Nat) (a : Array α)
    (h : write ≤ read) :
    (compactFrom keep read write a).toList =
      a.toList.take write ++ (a.toList.drop read).filter keep := by
  induction read, write, a using compactFrom.induct keep with
  | case1 read write a hread hkeep ih =>
      have hwrite : write < a.toList.length := by
        rw [Array.length_toList]
        omega
      -- what is still to be read lies behind the place that is written
      rw [compactFrom, dif_pos hread, if_pos hkeep, ih (by omega), Array.toList_setIfInBounds,
        take_set_self hwrite, List.drop_set_of_lt (by omega), drop_eq_cons hread,
        List.filter_cons_of_pos hkeep, List.append_assoc, List.singleton_append]
  | case2 read write a hread hkeep ih =>
      rw [compactFrom, dif_pos hread, if_neg hkeep, ih (by omega), drop_eq_cons hread,
        List.filter_cons_of_neg hkeep]
  | case3 read write a hread =>
      rw [compactFrom, dif_neg hread, List.drop_of_length_le (by simpa using hread),
        List.filter_nil, List.append_nil]
      simp

/-- **Pruning in place is a filter.** -/
theorem toList_compact {α : Type} (keep : α → Bool) (a : Array α) :
    (compact keep a).toList = a.toList.filter keep := by
  rw [compact, toList_compactFrom keep 0 0 a (Nat.le_refl 0)]
  rfl

attribute [ext] Window

namespace Window

variable {w : Window} {now : Int}

theorem samples_prune (w : Window) (now : Int) :
    (w.prune now).samples.toList =
      w.samples.toList.filter fun s => decide (now - w.maxAge ≤ s.time) :=
  toList_compact _ w.samples

theorem prune_of_recent (h : ∀ s ∈ w.samples.toList, now - w.maxAge ≤ s.time) :
    w.prune now = w := by
  have hsamples : (w.prune now).samples = w.samples := by
    rw [← Array.toList_inj, samples_prune, List.filter_eq_self]
    intro s hs
    exact decide_eq_true (h s hs)
  exact Window.ext rfl rfl hsamples

theorem summary_of_nil (h : w.samples.toList = []) : w.summary = { total := w.total } := by
  unfold summary
  rw [h, List.map_nil, List.mergeSort_nil]
  rfl

/-- The summary of some samples orders them by how long they took. -/
theorem summary_of_ne_nil (h : w.samples.toList ≠ []) :
    let sorted := (w.samples.toList.map Sample.micros).mergeSort (· ≤ ·)
    w.summary.count = sorted.length ∧ w.summary.total = w.total ∧
      w.summary.diagnostics = sum64 (w.samples.toList.map Sample.diagnostics) ∧
      w.summary.minMicros = sorted.toArray.getD 0 0 ∧
      w.summary.maxMicros = sorted.toArray.getD (sorted.length - 1) 0 := by
  intro sorted
  have hlength : sorted.length = w.samples.toList.length := by
    rw [List.length_mergeSort, List.length_map]
  unfold summary
  dsimp only
  split
  · next hempty =>
    rw [List.isEmpty_toArray, List.isEmpty_iff_length_eq_zero] at hempty
    exact absurd (List.eq_nil_of_length_eq_zero (hlength.symm.trans hempty)) h
  · exact ⟨rfl, rfl, rfl, rfl, rfl⟩

theorem summary_figures (w : Window) :
    w.summary.count = w.samples.toList.length ∧ w.summary.total = w.total ∧
      w.summary.diagnostics = sum64 (w.samples.toList.map Sample.diagnostics) := by
  by_cases h : w.samples.toList = []
  · rw [summary_of_nil h, h]
    exact ⟨rfl, rfl, rfl⟩
  · obtain ⟨hcount, htotal, hdiagnostics, -⟩ := summary_of_ne_nil h
    refine ⟨?_, htotal, hdiagnostics⟩
    rw [hcount, List.length_mergeSort, List.length_map]

/-! ### Windows that have lost nothing -/

/-- The window still holds every conversion that was recorded, with these numbers of diagnostics and
none before `start`. -/
structure Holds (w : Window) (start : Int) (counts : List Int) : Prop where
  total : w.total = counts.length
  diagnostics : w.samples.toList.map Sample.diagnostics = counts
  times : ∀ s ∈ w.samples.toList, start ≤ s.time

variable {start : Int} {counts : List Int}

theorem Holds.empty (maxAge start : Int) : ({ maxAge } : Window).Holds start [] :=
  ⟨rfl, rfl, nofun⟩

theorem Holds.prune_eq (h : w.Holds start counts) (hnow : now ≤ start + w.maxAge) :
    w.prune now = w := by
  apply prune_of_recent
  intro s hs
  have := h.times s hs
  omega

theorem Holds.record (h : w.Holds start counts) (hstart : start ≤ now)
    (hnow : now ≤ start + w.maxAge) (duration count : Int) :
    (w.record now duration count).Holds start (counts ++ [count]) := by
  unfold Window.record
  rw [h.prune_eq hnow]
  refine ⟨?_, ?_, ?_⟩
  · rw [List.length_append, ← h.total]
    rfl
  · simp only [Array.toList_push, List.map_append, h.diagnostics, List.map_cons, List.map_nil]
  · simp only [Array.toList_push, List.forall_mem_append, List.forall_mem_singleton]
    exact ⟨h.times, hstart⟩

theorem Holds.snapshot_eq (h : w.Holds start counts) (hnow : now ≤ start + w.maxAge) :
    w.snapshot now = (w, w.summary) := by
  unfold Window.snapshot
  rw [h.prune_eq hnow]

/-- **The summary counts every conversion.** -/
theorem Holds.summary (h : w.Holds start counts) :
    w.summary.count = counts.length ∧ w.summary.total = counts.length ∧
      w.summary.diagnostics = sum64 counts := by
  obtain ⟨hcount, htotal, hdiagnostics⟩ := w.summary_figures
  refine ⟨?_, htotal.trans h.total, ?_⟩
  · rw [hcount, ← h.diagnostics, List.length_map]
  · rw [hdiagnostics, h.diagnostics]

end Window

/-! ### Summaries as JSON -/

theorem Summary.proper_toJson (s : Summary) : s.toJson.Proper := by
  refine .object ?_
  have hfloat (x : Float) : (Json.number (Decimal.render Summary.layout x)).Proper :=
    .number (Decimal.isNumber_render Summary.layout x)
  simp only [List.forall_mem_cons]
  exact ⟨.int _, .int _, .int _, .int _, .int _, hfloat _, hfloat _, hfloat _, hfloat _, nofun⟩

end Literate
