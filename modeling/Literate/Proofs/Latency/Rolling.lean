import Mathlib.Data.List.Pairwise
import Literate.Proofs.Latency

/-!
# Rolling windows over many calls

Every call to a window drops for good what is too old by then. As long as the clock does not go
back, what was dropped would be too old at any later call too. So after a call the window holds
exactly what was recorded and is still recent at its time (`Window.Tracks`), and a look at it shows
just that, whether or not anybody looked before (`Window.look_shows_recent`).
-/

namespace Literate

namespace Window

/-! ### Calls -/

/-- What is done to a window. -/
inductive Call where
  /-- A conversion is recorded. -/
  | record (time duration diagnostics : Int)
  /-- Somebody looks. -/
  | look (time : Int)
deriving DecidableEq, Repr

/-- What the clock shows at a call. -/
def Call.time : Call → Int
  | .record time _ _ => time
  | .look time => time

/-- What a call records: the time, the whole microseconds and the diagnostics. -/
def Call.sample? : Call → Option Sample
  | .record time duration diagnostics => some ⟨time, max 0 (duration.tdiv 1000), diagnostics⟩
  | .look _ => none

/-- All that calls record, in order. -/
def recorded (calls : List Call) : List Sample := calls.filterMap Call.sample?

/-- Make a call, which shows a summary if it is a look. -/
def call (w : Window) : Call → Window × Option Summary
  | .record time duration diagnostics => (w.record time duration diagnostics, none)
  | .look time => ((w.snapshot time).1, some (w.snapshot time).2)

/-- The window after some calls. -/
def after (w : Window) (calls : List Call) : Window := calls.foldl (fun w c => (w.call c).1) w

/-- What calls show, one after the other. -/
def shows : Window → List Call → List (Option Summary)
  | _, [] => []
  | w, c :: calls => (w.call c).2 :: shows (w.call c).1 calls

/-- The clock does not go back from one call to a later one. -/
def InOrder (calls : List Call) : Prop := (calls.map Call.time).Pairwise (· ≤ ·)

instance (calls : List Call) : Decidable (InOrder calls) :=
  inferInstanceAs (Decidable (List.Pairwise _ _))

theorem inOrder_cons {c : Call} {calls : List Call} :
    InOrder (c :: calls) ↔ (∀ c' ∈ calls, c.time ≤ c'.time) ∧ InOrder calls := by
  rw [InOrder, List.map_cons, List.pairwise_cons, List.forall_mem_map]
  rfl

theorem recorded_cons (c : Call) (calls : List Call) :
    recorded (c :: calls) = c.sample?.toList ++ recorded calls := by
  rw [recorded, List.filterMap_cons]
  cases c.sample? <;> rfl

theorem getElem?_shows (w : Window) (before : List Call) (c : Call) (calls : List Call) :
    (w.shows (before ++ c :: calls))[before.length]? = some ((w.after before).call c).2 := by
  induction before generalizing w with
  | nil => rfl
  | cons c' before ih => exact ih (w.call c').1

/-! ### What a window holds -/

/-- What is recent at the time `now`. -/
def recent (age now : Int) (samples : List Sample) : List Sample :=
  samples.filter fun s => decide (now - age ≤ s.time)

/-- The window was last used when the clock showed `clock`, and of all the samples that were ever
recorded it holds those that were recent then. -/
structure Tracks (w : Window) (age : Int) (samples : List Sample) (clock : Int) : Prop where
  maxAge : w.maxAge = age
  total : w.total = samples.length
  held : w.samples.toList = recent age clock samples

variable {w : Window} {age : Int} {samples : List Sample} {clock now : Int}

theorem recent_recent (age clock now : Int) (samples : List Sample) :
    recent age now (recent age clock samples) = recent age (max clock now) samples := by
  unfold recent
  rw [List.filter_filter]
  apply List.filter_congr
  intro s _
  rw [← Bool.decide_and, decide_eq_decide]
  omega

theorem recent_concat {s : Sample} (h : now - age ≤ s.time) (samples : List Sample) :
    recent age now (samples ++ [s]) = recent age now samples ++ [s] := by
  unfold recent
  rw [List.filter_append, List.filter_cons_of_pos (by simpa using h), List.filter_nil]

namespace Tracks

theorem empty (age clock : Int) : ({ maxAge := age } : Window).Tracks age [] clock :=
  ⟨rfl, rfl, rfl⟩

/-- Later on, nothing is missing that is recent then. -/
theorem prune (h : w.Tracks age samples clock) (hnow : clock ≤ now) :
    (w.prune now).Tracks age samples now := by
  refine ⟨h.maxAge, h.total, ?_⟩
  have hrecent := recent_recent age clock now samples
  rw [Int.max_eq_right hnow] at hrecent
  rw [samples_prune, h.held, h.maxAge]
  exact hrecent

theorem record (h : w.Tracks age samples clock) (hage : 0 ≤ age) (hnow : clock ≤ now)
    (duration diagnostics : Int) :
    (w.record now duration diagnostics).Tracks age
      (samples ++ [⟨now, max 0 (duration.tdiv 1000), diagnostics⟩]) now := by
  have hpruned := h.prune hnow
  have hnew : now - age ≤ now := by omega
  refine ⟨hpruned.maxAge, ?_, ?_⟩
  · rw [List.length_append, ← hpruned.total]
    rfl
  · -- a sample is not too old when it is recorded
    rw [recent_concat hnew, ← hpruned.held]
    exact Array.toList_push

/-- **One call.** -/
theorem call (h : w.Tracks age samples clock) (hage : 0 ≤ age) {c : Call} (hc : clock ≤ c.time) :
    (w.call c).1.Tracks age (samples ++ c.sample?.toList) c.time := by
  cases c with
  | record time duration diagnostics => exact h.record hage hc duration diagnostics
  | look time =>
      rw [show Call.sample? (.look time) = none from rfl, Option.toList_none, List.append_nil]
      exact h.prune hc

/-- **Many calls**, and a look at the window after them. -/
theorem prune_after (h : w.Tracks age samples clock) (hage : 0 ≤ age) {calls : List Call}
    (hclock : ∀ c ∈ calls, clock ≤ c.time) (horder : InOrder calls)
    (hcalls : ∀ c ∈ calls, c.time ≤ now) (hnow : clock ≤ now) :
    ((w.after calls).prune now).Tracks age (samples ++ recorded calls) now := by
  induction calls generalizing w samples clock with
  | nil =>
      rw [show recorded [] = [] from rfl, List.append_nil]
      exact h.prune hnow
  | cons c calls ih =>
      rw [List.forall_mem_cons] at hclock hcalls
      rw [inOrder_cons] at horder
      rw [recorded_cons, ← List.append_assoc]
      exact ih (h.call hage hclock.1) horder.1 horder.2 hcalls.2 hcalls.1

/-- From the start up to a look. -/
theorem of_inOrder (hage : 0 ≤ age) {before : List Call}
    (horder : InOrder (before ++ [.look now])) :
    ((({ maxAge := age } : Window).after before).prune now).Tracks age (recorded before) now := by
  rw [InOrder, List.map_append, List.pairwise_append, List.forall_mem_map] at horder
  obtain ⟨hbefore, -, hnow⟩ := horder
  have hle (c : Call) (hc : c ∈ before) : c.time ≤ now :=
    hnow c hc now (List.mem_singleton_self now)
  -- the first call, if there is one, is the earliest
  cases before with
  | nil => exact (empty age now).prune (Int.le_refl now)
  | cons c calls =>
      have hstart : ∀ c' ∈ c :: calls, c.time ≤ c'.time :=
        List.forall_mem_cons.mpr ⟨Int.le_refl c.time, (inOrder_cons.mp hbefore).1⟩
      exact (empty age c.time).prune_after hage hstart hbefore hle (hle c List.mem_cons_self)

/-- What was recorded settles what a window holds. -/
theorem unique {w' : Window} (h : w.Tracks age samples clock) (h' : w'.Tracks age samples clock) :
    w = w' := by
  apply Window.ext
  · rw [h.maxAge, h'.maxAge]
  · rw [h.total, h'.total]
  · rw [← Array.toList_inj, h.held, h'.held]

end Tracks

theorem ofMaxAge_eq (maxAge : Int) :
    ofMaxAge maxAge = { maxAge := if 0 < maxAge then maxAge else 3600000000000 } := by
  unfold ofMaxAge
  by_cases h : 0 < maxAge
  · rw [if_pos h, if_neg (Int.not_le.mpr h)]
  · rw [if_neg h, if_pos (Int.not_lt.mp h)]
    rfl

end Window

/-! ### What a summary says -/

/-- The sum of the diagnostics of samples. -/
def Sample.diagnosticsOf (samples : List Sample) : Int :=
  samples.foldl (fun sum s => sum + s.diagnostics) 0

/-- The summary says how many samples there are, how many there ever were, how many diagnostics they
had, in 64 bits, and which of them took the least and the most time. -/
structure Summary.Covers (s : Summary) (total : Nat) (samples : List Sample) : Prop where
  total : s.total = total
  count : s.count = samples.length
  diagnostics : 0x10000000000000000 ∣ Sample.diagnosticsOf samples - s.diagnostics
  fits : -0x8000000000000000 ≤ s.diagnostics ∧ s.diagnostics < 0x8000000000000000
  least : samples ≠ [] → (∃ x ∈ samples, x.micros = s.minMicros) ∧
    ∀ x ∈ samples, s.minMicros ≤ x.micros
  greatest : samples ≠ [] → (∃ x ∈ samples, x.micros = s.maxMicros) ∧
    ∀ x ∈ samples, x.micros ≤ s.maxMicros
  nothing : samples = [] → s.diagnostics = 0 ∧ s.minMicros = 0 ∧ s.maxMicros = 0

theorem wrap64_spec (n : Int) : 0x10000000000000000 ∣ n - wrap64 n ∧
    -0x8000000000000000 ≤ wrap64 n ∧ wrap64 n < 0x8000000000000000 :=
  ⟨Int.dvd_self_sub_bmod, Int.le_bmod (by decide), Int.bmod_lt (by decide)⟩

theorem sum64_diagnostics (samples : List Sample) :
    sum64 (samples.map Sample.diagnostics) = wrap64 (Sample.diagnosticsOf samples) := by
  rw [sum64, Sample.diagnosticsOf, List.foldl_map]

/-- Once numbers are sorted, the first is the least of them and the last one the greatest. -/
theorem ends_mergeSort {l : List Int} (hne : l ≠ []) :
    let sorted := l.mergeSort (· ≤ ·)
    (sorted.toArray.getD 0 0 ∈ l ∧ ∀ m ∈ l, sorted.toArray.getD 0 0 ≤ m) ∧
      sorted.toArray.getD (sorted.length - 1) 0 ∈ l ∧
        ∀ m ∈ l, m ≤ sorted.toArray.getD (sorted.length - 1) 0 := by
  intro sorted
  have hsorted : sorted.Pairwise (· ≤ ·) := by
    apply (List.pairwise_mergeSort _ _ l).imp of_decide_eq_true
    · intro a b c hab hbc
      exact decide_eq_true (Int.le_trans (of_decide_eq_true hab) (of_decide_eq_true hbc))
    · intro a b
      rw [Bool.or_eq_true, decide_eq_true_eq, decide_eq_true_eq]
      exact Int.le_total a b
  have hmem {m : Int} : m ∈ sorted ↔ m ∈ l := List.mem_mergeSort
  have hlength : 0 < sorted.length := by
    rw [List.length_mergeSort]
    exact List.length_pos_of_ne_nil hne
  have hne' : sorted ≠ [] := List.ne_nil_of_length_pos hlength
  have hend : sorted.length - 1 < sorted.length := Nat.sub_one_lt_of_lt hlength
  have hfirst : sorted.toArray.getD 0 0 = sorted.head hne' := by
    simp [Array.getD, hlength, List.head_eq_getElem]
  have hlast : sorted.toArray.getD (sorted.length - 1) 0 = sorted.getLast hne' := by
    simp [Array.getD, hend, List.getLast_eq_getElem]
  rw [hfirst, hlast]
  refine ⟨⟨hmem.mp (List.head_mem hne'), ?_⟩, hmem.mp (List.getLast_mem hne'), ?_⟩
  · intro m hm
    exact hsorted.rel_head (hmem.mpr hm)
  · intro m hm
    exact hsorted.rel_getLast (hmem.mpr hm)

/-- **The summary of a window covers its samples.** -/
theorem Window.covers_summary (w : Window) : w.summary.Covers w.total w.samples.toList := by
  obtain ⟨hcount, htotal, hdiagnostics⟩ := w.summary_figures
  rw [sum64_diagnostics] at hdiagnostics
  obtain ⟨hdvd, hfits⟩ := wrap64_spec (Sample.diagnosticsOf w.samples.toList)
  rw [← hdiagnostics] at hdvd hfits
  have hends (h : w.samples.toList ≠ []) :
      ((∃ x ∈ w.samples.toList, x.micros = w.summary.minMicros) ∧
          ∀ x ∈ w.samples.toList, w.summary.minMicros ≤ x.micros) ∧
        (∃ x ∈ w.samples.toList, x.micros = w.summary.maxMicros) ∧
          ∀ x ∈ w.samples.toList, x.micros ≤ w.summary.maxMicros := by
    obtain ⟨-, -, -, hmin, hmax⟩ := summary_of_ne_nil h
    have hmicros : w.samples.toList.map Sample.micros ≠ [] := mt List.map_eq_nil_iff.mp h
    obtain ⟨⟨hfirst, hle⟩, hlast, hge⟩ := ends_mergeSort hmicros
    rw [← hmin, List.mem_map] at hfirst
    rw [← hmin, List.forall_mem_map] at hle
    rw [← hmax, List.mem_map] at hlast
    rw [← hmax, List.forall_mem_map] at hge
    exact ⟨⟨hfirst, hle⟩, hlast, hge⟩
  refine ⟨htotal, hcount, hdvd, hfits, fun h => (hends h).1, fun h => (hends h).2, fun h => ?_⟩
  rw [summary_of_nil h]
  exact ⟨rfl, rfl, rfl⟩

namespace Window

/-- **A look at a window shows what is recent**, however often somebody has looked before. Let the
clock not go back up to a look. It then shows how many conversions were recorded so far and, of
those that are no older than the age of the window, their number, the sum of their diagnostics and
the least and the greatest time that one took. The same is shown in any other course of calls in
which the same was recorded before. -/
theorem look_shows_recent (maxAge : Int) (before after : List Call) (now : Int)
    (horder : InOrder (before ++ [.look now])) :
    let age := if 0 < maxAge then maxAge else 3600000000000
    ∃ s : Summary,
      ((ofMaxAge maxAge).shows (before ++ .look now :: after))[before.length]? = some (some s) ∧
      s.Covers (recorded before).length
        ((recorded before).filter fun x => now - age ≤ x.time) ∧
      ∀ before' after' : List Call, InOrder (before' ++ [.look now]) →
        recorded before' = recorded before →
        ((ofMaxAge maxAge).shows (before' ++ .look now :: after'))[before'.length]? =
          some (some s) := by
  intro age
  have hage : 0 ≤ age := by
    unfold age
    split <;> omega
  have hshows (before after : List Call) :
      ((ofMaxAge maxAge).shows (before ++ .look now :: after))[before.length]? =
        some (some ((({ maxAge := age } : Window).after before).prune now).summary) := by
    rw [ofMaxAge_eq, getElem?_shows]
    rfl
  have htracks := Tracks.of_inOrder hage horder
  refine ⟨_, hshows before after, ?_, ?_⟩
  · have hcovers := covers_summary ((({ maxAge := age } : Window).after before).prune now)
    rw [htracks.total, htracks.held] at hcovers
    exact hcovers
  · intro before' after' horder' hsame
    have htracks' := Tracks.of_inOrder hage horder'
    rw [hsame] at htracks'
    rw [hshows, htracks'.unique htracks]

/-- With an age of ten, a conversion recorded at zero still counts at ten, somebody having looked in
between, and no longer at eleven. -/
theorem look_shows_recent_at_edge :
    let before : List Call :=
      [.record 0 2999 5, .look 3, .record 4 (-7) 0x7fffffffffffffff]
    let calls := before ++ .look 10 :: [.look 11]
    InOrder calls ∧
      (∃ s : Summary, ((ofMaxAge 10).shows calls)[3]? = some (some s) ∧
        s.count = 2 ∧ s.total = 2 ∧ s.diagnostics = -0x7ffffffffffffffc ∧
        s.minMicros = 0 ∧ s.maxMicros = 2 ∧
        ((ofMaxAge 10).shows [.record 0 2999 5, .record 4 (-7) 0x7fffffffffffffff, .look 10])[2]? =
          some (some s)) ∧
      ∃ s : Summary, ((ofMaxAge 10).shows calls)[4]? = some (some s) ∧
        s.count = 1 ∧ s.total = 2 ∧ s.maxMicros = 0 := by
  intro before calls
  constructor
  · decide
  constructor
  · obtain ⟨s, hshows, hcovers, hsame⟩ :=
      look_shows_recent 10 before [.look 11] 10 (by decide)
    change s.Covers 2 [⟨0, 2, 5⟩, ⟨4, 0, 0x7fffffffffffffff⟩] at hcovers
    refine ⟨s, hshows, hcovers.count, hcovers.total, ?_, ?_, ?_, ?_⟩
    · have hsum : Sample.diagnosticsOf [⟨0, 2, 5⟩, ⟨4, 0, 0x7fffffffffffffff⟩] =
          0x8000000000000004 := by
        decide
      have hdvd := hcovers.diagnostics
      have hfits := hcovers.fits
      omega
    · have hleast := hcovers.least (List.cons_ne_nil _ _)
      simp only [List.mem_cons, List.not_mem_nil, or_false, exists_eq_or_imp, exists_eq_left,
        forall_eq_or_imp, forall_eq] at hleast
      omega
    · have hgreatest := hcovers.greatest (List.cons_ne_nil _ _)
      simp only [List.mem_cons, List.not_mem_nil, or_false, exists_eq_or_imp, exists_eq_left,
        forall_eq_or_imp, forall_eq] at hgreatest
      omega
    · exact hsame [.record 0 2999 5, .record 4 (-7) 0x7fffffffffffffff] [] (by decide) (by decide)
  · obtain ⟨s, hshows, hcovers, -⟩ :=
      look_shows_recent 10 (before ++ [.look 10]) [] 11 (by decide)
    change s.Covers 2 [⟨4, 0, 0x7fffffffffffffff⟩] at hcovers
    refine ⟨s, hshows, hcovers.count, hcovers.total, ?_⟩
    have hgreatest := hcovers.greatest (List.cons_ne_nil _ _)
    simp only [List.mem_singleton, exists_eq_left, forall_eq] at hgreatest
    omega

end Window

end Literate
