import Mathlib.Data.List.DropRight
import Mathlib.Data.List.Induction
import Literate.Watch

/-!
# The course of a watcher

A watcher takes steps in whatever order events, expiries, errors and the word to stop come in, and
the files may change between them. `Course` is everything it can go through. On the way the timer
runs exactly while a change of the input is not yet converted (`Watcher.Pending`), so that no change
is lost and no conversion is made without one (`Watcher.Course.no_change_lost`).
-/

namespace Literate.Watcher

open Bytes Command Watch

variable {w : Watcher} {s s' : State} {step : Step} {steps : List Step} {attempts : List Attempt}
  {log : Logger} {tokens : Nat → Bytes} {files : FileTree} {faults : Faults}

/-! ### One step -/

/-- The event is that the input was written or created. -/
def Changes (w : Watcher) (e : Event) : Prop :=
  Path.clean e.path = w.input ∧ (.write ∈ e.ops ∨ .create ∈ e.ops)

theorem concerns_iff {e : Event} : w.concerns e ↔ w.Changes e := by
  unfold concerns Changes
  rw [Bool.and_eq_true, decide_eq_true_eq, List.any_eq_true]
  constructor
  · rintro ⟨hpath, op, hop, hkind⟩
    rw [Bool.or_eq_true, beq_iff_eq, beq_iff_eq] at hkind
    rcases hkind with rfl | rfl
    · exact ⟨hpath, .inl hop⟩
    · exact ⟨hpath, .inr hop⟩
  · rintro ⟨hpath, hop | hop⟩
    · exact ⟨hpath, _, hop, rfl⟩
    · exact ⟨hpath, _, hop, rfl⟩

/-- What a step does, if it can be taken. -/
theorem step_cases (h : w.step s step = some s') : s.stopped = false ∧
    ((∃ e, step = .event e ∧ s' = { s with armed := s.armed || w.concerns e }) ∨
      (step = .expiry ∧ s.armed = true ∧
        s' = { s with armed := false, conversions := s.conversions + 1 }) ∨
      (step = .error ∧ s' = s) ∨
      (step = .cancel ∧ s' = { s with stopped := true })) := by
  unfold Watcher.step at h
  split at h
  · cases h
  next hstopped =>
  refine ⟨eq_false_of_ne_true hstopped, ?_⟩
  cases step with
  | event e =>
      cases h
      exact .inl ⟨e, rfl, rfl⟩
  | expiry =>
      dsimp only at h
      split at h
      · next harmed =>
        cases h
        exact .inr (.inl ⟨rfl, harmed, rfl⟩)
      · cases h
  | error =>
      cases h
      exact .inr (.inr (.inl ⟨rfl, rfl⟩))
  | cancel =>
      cases h
      exact .inr (.inr (.inr ⟨rfl, rfl⟩))

/-- Until the watcher has stopped, every step can be taken, expiries only while the timer runs. -/
theorem exists_step_iff :
    (∃ s', w.step s step = some s') ↔ s.stopped = false ∧ (step = .expiry → s.armed = true) := by
  constructor
  · rintro ⟨s', h⟩
    obtain ⟨hstopped, ⟨e, rfl, -⟩ | ⟨-, harmed, -⟩ | ⟨rfl, -⟩ | ⟨rfl, -⟩⟩ := step_cases h
    · exact ⟨hstopped, nofun⟩
    · exact ⟨hstopped, fun _ => harmed⟩
    · exact ⟨hstopped, nofun⟩
    · exact ⟨hstopped, nofun⟩
  · rintro ⟨hstopped, harmed⟩
    unfold Watcher.step
    rw [hstopped]
    cases step with
    | event e => exact ⟨_, rfl⟩
    | expiry => exact ⟨_, if_pos (harmed rfl)⟩
    | error => exact ⟨_, rfl⟩
    | cancel => exact ⟨_, rfl⟩

/-- What a step changes: an expiry counts a conversion and stops the timer, a change of the input
starts it, and the word to stop is the only thing that stops the watcher. -/
theorem changes_of_step (h : w.step s step = some s') :
    s'.conversions = s.conversions + [step].count .expiry ∧
      (s'.armed = true ↔
        step ≠ .expiry ∧ (s.armed = true ∨ ∃ e, step = .event e ∧ w.Changes e)) ∧
      (s'.stopped = true ↔ step = .cancel) := by
  obtain ⟨hstopped, ⟨e, rfl, rfl⟩ | ⟨rfl, -, rfl⟩ | ⟨rfl, rfl⟩ | ⟨rfl, rfl⟩⟩ := step_cases h
  · refine ⟨rfl, ?_, by simp [hstopped]⟩
    rw [Bool.or_eq_true, concerns_iff]
    simp
  · exact ⟨rfl, by simp, by simp [hstopped]⟩
  · exact ⟨rfl, by simp, by simp [hstopped]⟩
  · exact ⟨rfl, by simp, by simp⟩

/-- A step that is taken leads to a conversion exactly if it is an expiry, whatever the conversion
comes to. -/
theorem act_of_step (h : w.step s step = some s') :
    (w.act log tokens s files step faults).1 = s' ∧
      (w.act log tokens s files step faults).2.2 =
        if step = .expiry then some (w.convert log tokens files faults) else none := by
  unfold act
  rw [h]
  dsimp only
  obtain ⟨-, ⟨e, rfl, rfl⟩ | ⟨rfl, -, rfl⟩ | ⟨rfl, rfl⟩ | ⟨rfl, rfl⟩⟩ := step_cases h
  · rw [if_pos rfl]
    exact ⟨rfl, rfl⟩
  · rw [if_neg (Nat.succ_ne_self s.conversions)]
    exact ⟨rfl, rfl⟩
  · rw [if_pos rfl]
    exact ⟨rfl, rfl⟩
  · rw [if_pos rfl]
    exact ⟨rfl, rfl⟩

/-! ### Many steps -/

/-- What a watcher can go through: the steps it takes, one after the other, where it stands then, and
the conversions it has made, the first of them before all steps. The files, and what goes wrong, may
be different each time. -/
inductive Course (w : Watcher) : List Step → State → List Attempt → Prop where
  | start (log : Logger) (tokens : Nat → Bytes) (files : FileTree) (faults : Faults) :
      Course w [] {} [w.convert log tokens files faults]
  | next {steps : List Step} {s : State} {attempts : List Attempt} {step : Step} {s' : State}
      (log : Logger) (tokens : Nat → Bytes) (files : FileTree) (faults : Faults) :
      Course w steps s attempts → w.step s step = some s' →
      Course w (steps ++ [step]) (w.act log tokens s files step faults).1
        (attempts ++ (w.act log tokens s files step faults).2.2.toList)

/-- The steps since the latest conversion. -/
def sinceConversion (steps : List Step) : List Step := steps.rtakeWhile (· ≠ .expiry)

/-- The input was changed since the latest conversion. -/
def Pending (w : Watcher) (steps : List Step) : Prop :=
  ∃ e, .event e ∈ sinceConversion steps ∧ w.Changes e

theorem pending_concat_iff : w.Pending (steps ++ [step]) ↔
    step ≠ .expiry ∧ (w.Pending steps ∨ ∃ e, step = .event e ∧ w.Changes e) := by
  unfold Pending sinceConversion
  rw [List.rtakeWhile_concat]
  by_cases hstep : step = .expiry
  · simp [hstep]
  · rw [if_pos (decide_eq_true hstep), and_iff_right hstep]
    constructor
    · rintro ⟨e, hmem, he⟩
      rw [List.mem_append, List.mem_singleton] at hmem
      rcases hmem with hmem | hlast
      · exact .inl ⟨e, hmem, he⟩
      · exact .inr ⟨e, hlast.symm, he⟩
    · rintro (⟨e, hmem, he⟩ | ⟨e, rfl, he⟩)
      · exact ⟨e, List.mem_append_left _ hmem, he⟩
      · exact ⟨e, List.mem_append_right _ (List.mem_singleton_self _), he⟩

/-- What is known of a watcher that has gone through some steps. -/
structure Kept (w : Watcher) (steps : List Step) (s : State) (attempts : List Attempt) : Prop where
  conversions : s.conversions = 1 + steps.count .expiry
  made : attempts.length = s.conversions
  armed : s.armed = true ↔ w.Pending steps
  stopped : s.stopped = true ↔ .cancel ∈ steps

theorem Kept.start (a : Attempt) : w.Kept [] {} [a] := by
  refine ⟨rfl, rfl, ⟨nofun, ?_⟩, nofun, nofun⟩
  rintro ⟨e, hmem, -⟩
  cases hmem

/-- **One step.** -/
theorem Kept.next (h : w.Kept steps s attempts) (hstep : w.step s step = some s') :
    w.Kept (steps ++ [step]) (w.act log tokens s files step faults).1
      (attempts ++ (w.act log tokens s files step faults).2.2.toList) := by
  obtain ⟨hact, hattempt⟩ := @act_of_step _ _ _ _ log tokens files faults hstep
  obtain ⟨hconversions, harmed, hstopped⟩ := changes_of_step hstep
  rw [hact, hattempt]
  refine ⟨?_, ?_, ?_, ?_⟩
  · rw [hconversions, h.conversions, List.count_append, Nat.add_assoc]
  · rw [List.length_append, h.made, hconversions]
    by_cases hexpiry : step = .expiry
    · rw [if_pos hexpiry, hexpiry]
      rfl
    · rw [if_neg hexpiry, List.count_singleton, if_neg (by simpa using hexpiry)]
      rfl
  · rw [harmed, h.armed, pending_concat_iff]
  · -- it had not stopped before, so it had not been told to
    have hbefore : .cancel ∉ steps := by
      rw [← h.stopped, (step_cases hstep).1]
      exact Bool.false_ne_true
    rw [hstopped, List.mem_append, or_iff_right hbefore, List.mem_singleton, eq_comm]

namespace Course

/-- **Many steps.** -/
theorem kept (h : w.Course steps s attempts) : w.Kept steps s attempts := by
  induction h with
  | start log tokens files faults => exact .start _
  | next log tokens files faults _ hstep ih => exact ih.next hstep

theorem goes_on (h : w.Course steps s attempts) (hstep : w.step s step = some s') (log : Logger)
    (tokens : Nat → Bytes) (files : FileTree) (faults : Faults) :
    w.Course (steps ++ [step]) s'
      (attempts ++ if step = .expiry then [w.convert log tokens files faults] else []) := by
  have hnext := h.next log tokens files faults hstep
  obtain ⟨hact, hattempt⟩ := @act_of_step _ _ _ _ log tokens files faults hstep
  rw [hact, hattempt, apply_ite Option.toList] at hnext
  exact hnext

/-- Steps that can be taken one after the other are a course. -/
theorem of_foldlM (h : w.Course steps s attempts) {later : List Step}
    (hlater : later.foldlM w.step s = some s') (log : Logger) (tokens : Nat → Bytes)
    (files : FileTree) (faults : Faults) :
    w.Course (steps ++ later) s'
      (attempts ++ List.replicate (later.count .expiry) (w.convert log tokens files faults)) := by
  induction later generalizing steps s attempts with
  | nil =>
      cases hlater
      simpa using h
  | cons step later ih =>
      rw [List.foldlM_cons] at hlater
      obtain ⟨middle, hstep, hrest⟩ := Option.bind_eq_some_iff.mp hlater
      have hall := ih (h.goes_on hstep log tokens files faults) hrest
      rw [← List.append_cons, List.append_assoc] at hall
      by_cases hexpiry : step = .expiry
      · rw [if_pos hexpiry] at hall
        rw [hexpiry, List.count_cons_self, List.replicate_succ]
        exact hexpiry ▸ hall
      · rw [if_neg hexpiry] at hall
        rw [List.count_cons_of_ne hexpiry]
        exact hall

theorem last (h : w.Course (steps ++ [step]) s attempts) :
    ∃ before attempts', w.Course steps before attempts' ∧ w.step before step = some s := by
  generalize hsteps : steps ++ [step] = all at h
  cases h with
  | start => simp at hsteps
  | next log tokens files faults hcourse hstep =>
      obtain ⟨rfl, hlast⟩ := List.append_inj' hsteps rfl
      cases hlast
      refine ⟨_, _, hcourse, ?_⟩
      rw [(act_of_step hstep).1]
      exact hstep

theorem earlier {later : List Step} (h : w.Course (steps ++ later) s attempts) :
    ∃ s' attempts', w.Course steps s' attempts' := by
  induction later using List.reverseRecOn generalizing s attempts with
  | nil =>
      rw [List.append_nil] at h
      exact ⟨s, attempts, h⟩
  | append_singleton later step ih =>
      rw [← List.append_assoc] at h
      obtain ⟨before, attempts', hbefore, -⟩ := h.last
      exact ih hbefore

/-- Any step of a course was taken where the steps before it had led. -/
theorem taken {before after : List Step} (h : w.Course (before ++ step :: after) s attempts) :
    ∃ s' attempts', w.Course before s' attempts' ∧
      s'.stopped = false ∧ (step = .expiry → s'.armed = true) := by
  rw [List.append_cons] at h
  obtain ⟨_, _, hwith⟩ := h.earlier
  obtain ⟨s', attempts', hbefore, hstep⟩ := hwith.last
  exact ⟨s', attempts', hbefore, exists_step_iff.mp ⟨_, hstep⟩⟩

/-- While the input is not changed, the timer expires once at most, and only if it was running. -/
theorem count_expiry_le {before after : List Step} (h : w.Course (before ++ after) s attempts)
    (hafter : ∀ e, .event e ∈ after → ¬w.Changes e) :
    after.count .expiry + s.armed.toNat ≤ 1 := by
  induction after using List.reverseRecOn generalizing s attempts with
  | nil =>
      rw [List.count_nil, Nat.zero_add]
      exact Bool.toNat_le s.armed
  | append_singleton after step ih =>
      rw [← List.append_assoc] at h
      obtain ⟨s', attempts', hcourse, hstep⟩ := h.last
      have hbefore := ih hcourse fun e he => hafter e (List.mem_append_left _ he)
      rw [List.count_append]
      obtain ⟨-, ⟨e, rfl, rfl⟩ | ⟨rfl, harmed, rfl⟩ | ⟨rfl, rfl⟩ | ⟨rfl, rfl⟩⟩ := step_cases hstep
      · have hother : w.concerns e = false := by
          rw [← Bool.not_eq_true, concerns_iff]
          exact hafter e (List.mem_append_right _ (List.mem_singleton_self _))
        rw [hother, Bool.or_false]
        exact hbefore
      · -- the timer was running, so it had not expired yet
        rw [harmed] at hbefore
        exact hbefore
      · exact hbefore
      · exact hbefore

/-- **A watcher loses no change and makes up none.** Whatever it goes through, and whatever its
conversions come to:

* it has made one conversion at the start and one for each time the timer expired;
* the timer runs exactly while the input was changed since the latest conversion;
* so whenever it expired, the input had been changed since the conversion before;
* it expires once at most for a burst of changes during which it does not;
* until the watcher is told to stop, it can take any step, an expiry if a change is pending;
* the conversion that follows may come to anything, and the watcher has not stopped after it;
* once it was told to stop, nothing happens any more. -/
theorem no_change_lost (h : w.Course steps s attempts) :
    (attempts.length = 1 + steps.count .expiry ∧ s.conversions = attempts.length) ∧
    (s.armed = true ↔ w.Pending steps) ∧
    (∀ before after, steps = before ++ .expiry :: after → w.Pending before) ∧
    (∀ before burst after, steps = before ++ burst ++ after → .expiry ∉ burst →
      (∀ e, .event e ∈ after → ¬w.Changes e) → (burst ++ after).count .expiry ≤ 1) ∧
    (∀ step, (∃ s', w.step s step = some s') ↔
      .cancel ∉ steps ∧ (step = .expiry → w.Pending steps)) ∧
    (.cancel ∉ steps → w.Pending steps → ∀ log tokens files faults, ∃ s',
      w.Course (steps ++ [.expiry]) s' (attempts ++ [w.convert log tokens files faults]) ∧
        s'.stopped = false) ∧
    ∀ before after, steps = before ++ .cancel :: after → after = [] := by
  have hkept := h.kept
  have hsteps (step : Step) : (∃ s', w.step s step = some s') ↔
      .cancel ∉ steps ∧ (step = .expiry → w.Pending steps) := by
    rw [exists_step_iff, hkept.armed, ← hkept.stopped, Bool.not_eq_true]
  refine ⟨⟨hkept.made.trans hkept.conversions, hkept.made.symm⟩, hkept.armed, ?_, ?_, hsteps, ?_, ?_⟩
  · rintro before after rfl
    obtain ⟨s', attempts', hbefore, -, harmed⟩ := h.taken
    exact hbefore.kept.armed.mp (harmed rfl)
  · rintro before burst after rfl hburst hafter
    have hcount := h.count_expiry_le hafter
    rw [List.count_append, List.count_eq_zero_of_not_mem hburst]
    omega
  · intro hgoing hpending log tokens files faults
    obtain ⟨s', hstep⟩ := (hsteps .expiry).mpr ⟨hgoing, fun _ => hpending⟩
    have hnext := h.goes_on hstep log tokens files faults
    refine ⟨s', hnext, ?_⟩
    rw [← Bool.not_eq_true, hnext.kept.stopped, List.mem_append, not_or]
    exact ⟨hgoing, by simp⟩
  · rintro before after rfl
    cases after with
    | nil => rfl
    | cons step after =>
        rw [List.append_cons] at h
        obtain ⟨s', attempts', hbefore, hstopped, -⟩ := h.taken
        have htold : s'.stopped = true := hbefore.kept.stopped.mpr (by simp)
        rw [hstopped] at htold
        cases htold

/-- Two changes in a row lead to one conversion, which fails, and the third one is still pending when
the watcher is told to stop. -/
theorem no_change_lost_burst :
    let w : Watcher := { input := utf8 "/w/a.nw", output := utf8 "/w/a.rst", debounce := 1 }
    let steps : List Step :=
      [.event ⟨utf8 "/w/./a.nw", [.chmod, .write]⟩, .event ⟨utf8 "/w/a.nw", [.create]⟩, .expiry,
        .event ⟨utf8 "/w/a.nw", [.remove]⟩, .error, .event ⟨utf8 "/w/a.nw", [.write]⟩, .cancel]
    ∃ s attempts, w.Course steps s attempts ∧ (∀ a ∈ attempts, a.error ≠ none) ∧
      attempts.length = 2 ∧ s.armed = true ∧ w.Pending (steps.take 2) ∧
      ¬∃ s', w.step s .expiry = some s' := by
  intro w steps
  have hfails : (w.convert ⟨.warn⟩ decimal ⟨[]⟩).error ≠ none := by decide +kernel
  have hstart : w.Course [] {} [w.convert ⟨.warn⟩ decimal ⟨[]⟩] := .start _ _ _ _
  have hsteps : steps.foldlM w.step {} =
      some { armed := true, conversions := 2, stopped := true } := by
    decide +kernel
  have hcourse := hstart.of_foldlM hsteps ⟨.warn⟩ decimal ⟨[]⟩ {}
  obtain ⟨⟨hcount, -⟩, harmed, hexpired, -, hpossible, -⟩ := hcourse.no_change_lost
  refine ⟨_, _, hcourse, ?_, hcount, rfl, ?_, ?_⟩
  · intro a ha
    rcases List.mem_append.mp ha with ha | ha
    · rw [List.mem_singleton.mp ha]
      exact hfails
    · rw [List.eq_of_mem_replicate ha]
      exact hfails
  · exact hexpired (steps.take 2) (steps.drop 3) rfl
  · rw [hpossible .expiry]
    exact fun h => h.1 (by decide)

end Course

end Literate.Watcher
