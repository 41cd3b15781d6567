import Mathlib.Data.List.Forall2
import Literate.Proofs.Noweb.Markup
import Literate.Proofs.Session.Diagnostics

/-!
# Writing under a limit

What is left of a run, or of marking up, when the writer has room for `n` bytes only. Each time the
limited writer is set beside one without a limit:

    session, remarks   the same after every line
    bytes kept         the first `n` of the whole text
    failure            exactly if the whole text is longer than `n`

`Run.Follows` is this relation between two runs, and every line keeps it (`Follows.feed`), also when
the room runs out between two pieces of that line. A run over a whole input looks at the failure at
the end of each line and stops there (`Run.exists_feedAll_eq`); marking up looks once more at its
end (`Noweb.offered_markup`).
-/

namespace Literate

open Bytes

namespace Run

/-! ### Two runs side by side -/

/-- The run `r`, with room for `n` bytes, stands where the run `u` without a limit stands, and its
sink was offered all that `u` has written. -/
structure Follows (n : Nat) (r u : Run Sink) : Prop where
  session : r.session = u.session
  remarks : r.remarks = u.remarks
  unlimited : u.Unlimited
  offered : Sink.Offered n u.out.contents r.out r.failure

namespace Follows

variable {n : Nat} {r u : Run Sink}

theorem fresh (n : Nat) (why : Failure) :
    Follows n { out := { room := some n, failure := why } } { out := {} } where
  session := rfl
  remarks := rfl
  unlimited := ⟨rfl, rfl⟩
  offered := Sink.Offered.fresh n why

/-- **A line keeps the two runs together**, wherever in its pieces the room runs out. -/
theorem feed (h : Follows n r u) (line : Bytes) : Follows n (r.feed line) (u.feed line) := by
  obtain ⟨hnext, hout⟩ := feed_of_unlimited h.unlimited line
  constructor
  · rw [session_feed, session_feed, h.session]
  · rw [remarks_feed, remarks_feed, h.session, h.remarks]
  · exact hnext
  · have hoffered := (Sink.Offered.ledger n).feed h.offered line
    rw [h.session] at hoffered
    rwa [hout, Sink.contents_taking]

theorem foldl_feed (h : Follows n r u) (lines : List Bytes) :
    Follows n (lines.foldl Run.feed r) (lines.foldl Run.feed u) := by
  induction lines generalizing r u with
  | nil => exact h
  | cons line lines ih => exact ih (h.feed line)

theorem forall₂_scanl (h : Follows n r u) (lines : List Bytes) :
    List.Forall₂ (Follows n) (lines.scanl Run.feed r) (lines.scanl Run.feed u) := by
  induction lines generalizing r u with
  | nil =>
      rw [List.scanl_nil, List.scanl_nil]
      exact .cons h .nil
  | cons line lines ih =>
      rw [List.scanl_cons, List.scanl_cons]
      exact .cons h (ih (h.feed line))

theorem diagnostics_eq (h : Follows n r u) : r.diagnostics = u.diagnostics := by
  rw [Run.diagnostics, Run.diagnostics, h.remarks]

end Follows

/-- **A writer that fails does not disturb the session.** After every line, a run with room for `n`
bytes has the session and the diagnostics of a run without a limit. It has kept the first `n` bytes
of the text, and a write has failed exactly if there are more. -/
theorem scanl_feed_limited (n : Nat) (why : Failure) (lines : List Bytes) :
    List.Forall₂
      (fun limited free : Run Sink =>
        limited.session = free.session ∧ limited.diagnostics = free.diagnostics ∧
          limited.out.contents = free.out.contents.take n ∧
          (limited.failure.isSome ↔ n < free.out.contents.length))
      (lines.scanl Run.feed { out := { room := some n, failure := why } })
      (lines.scanl Run.feed { out := {} }) := by
  refine ((Follows.fresh n why).forall₂_scanl lines).imp ?_
  intro limited free h
  exact ⟨h.session, h.diagnostics_eq, h.offered.contents, h.offered.failed⟩

/-! ### Where a run stops -/

/-- A run over many lines takes in the first `k` of them, and all if no write fails. Up to the last
of these lines no write has failed. -/
theorem exists_feedAll_eq {σ : Type} [Writer σ] {r : Run σ} (hr : r.failure = none)
    (lines : List Bytes) :
    ∃ k ≤ lines.length, r.feedAll lines = (lines.take k).foldl feed r ∧
      (∀ j < k, ((lines.take j).foldl feed r).failure = none) ∧
      ((r.feedAll lines).failure = none → k = lines.length) := by
  induction lines generalizing r with
  | nil => exact ⟨0, le_rfl, rfl, by simp, fun _ => rfl⟩
  | cons line lines ih =>
      rw [feedAll_cons]
      split
      · next hfailed =>
        refine ⟨1, by simp, by simp, ?_, ?_⟩
        · intro j hj
          rw [Nat.lt_one_iff.mp hj]
          exact hr
        · intro hnone
          rw [hnone] at hfailed
          cases hfailed
      · next hgoes =>
        rw [Bool.not_eq_true, Option.isSome_eq_false_iff, Option.isNone_iff_eq_none] at hgoes
        obtain ⟨k, hk, heq, hbefore, hall⟩ := ih hgoes
        refine ⟨k + 1, Nat.succ_le_succ hk, heq, ?_, fun hnone => congrArg Nat.succ (hall hnone)⟩
        intro j hj
        cases j with
        | zero => exact hr
        | succ j => exact hbefore j (Nat.lt_of_succ_lt_succ hj)

/-- The run without a limit after the first lines of an input has written the start of what it will
have written after all of them. -/
theorem contents_take_prefix (lines : List Bytes) (k : Nat) :
    ((lines.take k).foldl feed { out := ({} : Sink) }).out.contents <+:
      (lines.foldl feed { out := ({} : Sink) }).out.contents := by
  have hfresh : ({ out := {} } : Run Sink).Unlimited := ⟨rfl, rfl⟩
  have hfirst := (foldl_feed_of_unlimited hfresh (lines.take k)).1
  have hrest := (foldl_feed_of_unlimited hfirst (lines.drop k)).2
  rw [← List.foldl_append, List.take_append_drop] at hrest
  rw [hrest]
  exact List.prefix_append _ _

theorem lineNumber_foldl_take {σ : Type} [Writer σ] (out : σ) {lines : List Bytes} {k : Nat}
    (hk : k ≤ lines.length) : ((lines.take k).foldl feed { out }).session.lineNumber = k := by
  rw [session_foldl_feed, (History.Agrees.after (lines.take k)).lineNumber,
    List.length_take_of_le hk]

theorem diagnostics_foldl_take {σ : Type} [Writer σ] (out : σ) {lines : List Bytes} {k : Nat}
    (hk : k ≤ lines.length) : ((lines.take k).foldl feed { out }).diagnostics =
      (lines.foldl feed { out }).diagnostics.filter (fun d : Diagnostic => d.line ≤ k) := by
  have hfilter := History.filter_diagnostics (lines.take k) (lines.drop k)
  rw [List.take_append_drop, List.length_take_of_le hk] at hfilter
  rw [History.diagnostics_foldl_feed, History.diagnostics_foldl_feed, hfilter]

end Run

namespace Session

variable (n : Nat) (why : Failure) (input : Bytes)

theorem run_free : (Session.run ({} : Sink) ⟨input, none⟩).run =
    (lines input).foldl Run.feed { out := {} } := by
  rw [run_eq]
  exact Run.feedAll_of_unlimited ⟨rfl, rfl⟩ (lines input)

/-- A run over an input stands where a run without a limit stands after the first `k` lines. Before
the last of these everything fitted, and `k` counts all lines if nothing has failed. -/
theorem exists_follows :
    let limited := (Session.run ({ room := some n, failure := why } : Sink) ⟨input, none⟩).run
    let after (k : Nat) : Run Sink := ((lines input).take k).foldl Run.feed { out := {} }
    ∃ k ≤ (lines input).length, Run.Follows n limited (after k) ∧
      (∀ j < k, (after j).out.contents.length ≤ n) ∧
      (limited.failure = none → after k = (Session.run ({} : Sink) ⟨input, none⟩).run) := by
  intro limited after
  have hrun : limited = Run.feedAll _ (lines input) := congrArg Outcome.run (run_eq _ _)
  have hfollows (j : Nat) := (Run.Follows.fresh n why).foldl_feed ((lines input).take j)
  obtain ⟨k, hk, hlimited, hbefore, hall⟩ := Run.exists_feedAll_eq
    (r := { out := ({ room := some n, failure := why } : Sink) }) rfl (lines input)
  refine ⟨k, hk, ?_, ?_, ?_⟩
  · show Run.Follows n limited (after k)
    rw [hrun, hlimited]
    exact hfollows k
  · intro j hj
    have hfits := (hfollows j).offered
    rw [hbefore j hj] at hfits
    exact hfits.length_le
  · intro hnone
    show List.foldl _ _ ((lines input).take k) = _
    rw [run_free, hall (hrun ▸ hnone), List.take_length]

/-- **A run notices every failure**: its sink was offered the whole output in effect, though the run
may have stopped before the last line. -/
theorem offered_run :
    let limited := (Session.run ({ room := some n, failure := why } : Sink) ⟨input, none⟩).run
    Sink.Offered n (Session.run ({} : Sink) ⟨input, none⟩).run.out.contents limited.out
      limited.failure := by
  intro limited
  obtain ⟨k, -, hfollows, -, hall⟩ := exists_follows n why input
  have hoffered := hfollows.offered
  cases hfailure : limited.failure with
  | none =>
      rw [hall hfailure] at hoffered
      rwa [hfailure] at hoffered
  | some failure =>
      obtain ⟨rest, hrest⟩ := Run.contents_take_prefix (lines input) k
      rw [run_free, ← hrest]
      rw [hfailure] at hoffered
      exact hoffered.append rest

/-- Either the output fits and a run takes in all lines, or it stops at the end of the first line
whose text goes past `n`. -/
theorem run_limited_cases :
    let limited := (Session.run ({ room := some n, failure := why } : Sink) ⟨input, none⟩).run
    let free := (Session.run ({} : Sink) ⟨input, none⟩).run
    let after (k : Nat) : Run Sink := ((lines input).take k).foldl Run.feed { out := {} }
    free.out.contents.length ≤ n ∧ limited.session = free.session ∧
        limited.diagnostics = free.diagnostics ∨
      ∃ k, (∀ j < k, (after j).out.contents.length ≤ n) ∧ n < (after k).out.contents.length ∧
        limited.session.lineNumber = k ∧
        limited.diagnostics = free.diagnostics.filter (fun d : Diagnostic => d.line ≤ k) := by
  intro limited free after
  obtain ⟨k, hk, hfollows, hbefore, hall⟩ := exists_follows n why input
  have hoffered := hfollows.offered
  cases hfailure : limited.failure with
  | none =>
      have hfree : after k = free := hall hfailure
      rw [hfailure] at hoffered
      left
      rw [← hfree]
      exact ⟨hoffered.length_le, hfollows.session, hfollows.diagnostics_eq⟩
  | some failure =>
      rw [hfailure] at hoffered
      refine .inr ⟨k, hbefore, hoffered.failed.mp rfl, ?_, ?_⟩
      · rw [hfollows.session]
        exact Run.lineNumber_foldl_take _ hk
      · rw [hfollows.diagnostics_eq]
        show _ = List.filter _ (Session.run ({} : Sink) ⟨input, none⟩).run.diagnostics
        rw [run_free]
        exact Run.diagnostics_foldl_take _ hk

end Session

/-! ### Marking up -/

namespace Noweb

theorem offered_emit {n : Nat} {text : Bytes} {w : Sink} {failure : Option Failure}
    (h : Sink.Offered n text w failure) (ds : List Directive) :
    Sink.Offered n (text ++ (written ds).flatten) (emit w failure ds).1 (emit w failure ds).2 := by
  cases failure with
  | none => exact (Sink.Offered.ledger n).writeAll h (written ds)
  | some why => exact h.append (written ds).flatten

theorem offered_foldUntil_line {n : Nat} {text : Bytes} {k : Marking Sink}
    (h : Sink.Offered n text k.out k.failure) (ls : List Bytes) :
    let done := foldUntil Marking.line Marking.failed k ls
    Sink.Offered n (text ++ (written (k.marker.body ls)).flatten) done.1.out done.1.failure ∧
      (done.2 = false → done.1.marker = k.marker.after ls) := by
  induction ls generalizing text k with
  | nil =>
      refine ⟨?_, fun _ => rfl⟩
      show Sink.Offered n (text ++ []) k.out k.failure
      rwa [List.append_nil]
  | cons line ls ih =>
      have hline : Sink.Offered n _ (k.line line).out (k.line line).failure :=
        offered_emit h (k.marker.line line).2
      rw [foldUntil, Marker.body_cons, written_append, List.flatten_append, ← List.append_assoc]
      dsimp only
      split
      · next hfailed =>
        -- the rest of the lines is not written, as if it were offered in vain
        obtain ⟨why, hwhy⟩ := Option.isSome_iff_exists.mp hfailed
        rw [hwhy] at hline ⊢
        refine ⟨hline.append _, fun hgoes => ?_⟩
        cases hgoes
      · exact ih hline

theorem stream_directives (name : Bytes) (ls : List Bytes) :
    Directive.stream (directives name ls) =
      (written (preamble name)).flatten ++ (written (Marker.body {} ls)).flatten ++
        (written [(Marker.after {} ls).closing]).flatten := by
  show (written (directives name ls)).flatten = _
  rw [directives_eq, written_append, written_append, List.flatten_append, List.flatten_append]

/-- **Marking up notices every failure**, also one before the first line or after the last. -/
theorem offered_markup {n : Nat} {w : Sink} (h : Sink.Offered n [] w none) (name source : Bytes) :
    Sink.Offered n (Directive.stream (directives name (lines source)))
      (markup w name ⟨source, none⟩).1
      ((markup w name ⟨source, none⟩).2.map MarkupError.failure) := by
  have hpreamble := offered_emit h (preamble name)
  rw [List.nil_append] at hpreamble
  let start : Marking Sink :=
    { out := (emit w none (preamble name)).1, failure := (emit w none (preamble name)).2 }
  obtain ⟨hlines, hafter⟩ := @offered_foldUntil_line n _ start hpreamble (lines source)
  have hfailure (e : Failure → MarkupError) (he : ∀ why, (e why).failure = why)
      (f : Option Failure) : (f.map e).map MarkupError.failure = f := by
    cases f with
    | none => rfl
    | some why => exact congrArg some (he why)
  unfold markup
  simp only [Intake.forLines_eq]
  rw [stream_directives]
  rcases hdone : foldUntil Marking.line Marking.failed start (lines source) with ⟨k, stopped⟩
  rw [hdone] at hlines hafter
  cases stopped with
  | true =>
      have hfailed : k.failed := stops_of_foldUntil hdone
      obtain ⟨why, hwhy⟩ := Option.isSome_iff_exists.mp hfailed
      simp only [hfailure .write fun _ => rfl, hwhy] at hlines ⊢
      exact hlines.append _
  | false =>
      have hmarker : k.marker = Marker.after {} (lines source) := hafter rfl
      have hclosing := offered_emit hlines [k.marker.closing]
      rw [hmarker] at hclosing
      simp only [hfailure .frame fun _ => rfl, hmarker]
      exact hclosing

end Noweb

/-- **Output is lost exactly if the call fails.** Both over a tagged stream and in marking up, a
writer with room for `n` bytes is left with the first `n` bytes of the output, and there is an error
exactly if the output is longer. A run over a stream then stops at the end of the first line whose
text goes past `n`, and it has reported just what a run without a limit reports up to that line. -/
theorem run_markup_limited (n : Nat) (why : Failure) (input name : Bytes) :
    (let limited := Session.run ({ room := some n, failure := why } : Sink) ⟨input, none⟩
      let free := Session.run ({} : Sink) ⟨input, none⟩
      let after (k : Nat) : Run Sink := ((lines input).take k).foldl Run.feed { out := {} }
      limited.run.out.contents = free.run.out.contents.take n ∧
        (limited.error.isSome ↔ n < free.run.out.contents.length) ∧
        (free.run.out.contents.length ≤ n ∧ limited.run.session = free.run.session ∧
            limited.run.diagnostics = free.run.diagnostics ∨
          ∃ k, (∀ j < k, (after j).out.contents.length ≤ n) ∧
            n < (after k).out.contents.length ∧ limited.run.session.lineNumber = k ∧
            limited.run.diagnostics =
              free.run.diagnostics.filter (fun d : Diagnostic => d.line ≤ k))) ∧
    (let limited := Noweb.markup ({ room := some n, failure := why } : Sink) name ⟨input, none⟩
      let free := Noweb.markup ({} : Sink) name ⟨input, none⟩
      limited.1.contents = free.1.contents.take n ∧
        (limited.2.isSome ↔ n < free.1.contents.length)) := by
  constructor
  · intro limited free after
    have hoffered := Session.offered_run n why input
    refine ⟨hoffered.contents, ?_, Session.run_limited_cases n why input⟩
    -- the reader does not fail, so an error can only be that of a write
    rw [← hoffered.failed]
    show (limited.run.error? none).isSome ↔ limited.run.failure.isSome
    rw [Run.error?]
    cases limited.run.failure <;> rfl
  · intro limited free
    have hoffered := Noweb.offered_markup (Sink.Offered.fresh n why) name input
    rw [← Noweb.contents_markup] at hoffered
    refine ⟨hoffered.contents, ?_⟩
    rw [← hoffered.failed, Option.isSome_map]

end Literate
