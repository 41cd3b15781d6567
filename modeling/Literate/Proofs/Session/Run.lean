import Literate.Proofs.Intake
import Literate.Proofs.Writer
import Literate.Session.Run

/-!
# Runs of a session

First what each operation of a session does, field by field, so that nothing later opens them. Then
what a session makes of a list of lines, apart from any writer: where it stands after them
(`after`), and what each of them brings about (`effects`). A `Run` goes through just these sessions
and remarks whatever its writer does, and a sink without a limit ends up with all of the output.
-/

namespace Literate

namespace Session

variable (s : Session)

/-! ### One line -/

/-- The session with one more line counted. -/
abbrev counted : Session := { s with lineNumber := s.lineNumber + 1 }

theorem feed_of_parse? {line : Bytes} {d : Directive} (h : Directive.parse? line = some d) :
    s.feed line = s.counted.obey d := by
  simp only [feed, h]

theorem feed_of_parse?_none {line : Bytes} (h : Directive.parse? line = none) :
    s.feed line = (s.counted, { remark := some (.diagnostic s.counted.malformed) }) := by
  simp only [feed, h]

@[simp] theorem lineNumber_define (name : Bytes) :
    (s.define name).1.lineNumber = s.lineNumber := by
  unfold define
  split <;> rfl

@[simp] theorem chunk_define (name : Bytes) : (s.define name).1.chunk = s.chunk := by
  unfold define
  split <;> rfl

@[simp] theorem headerDue_define (name : Bytes) : (s.define name).1.headerDue = s.headerDue := by
  unfold define
  split <;> rfl

@[simp] theorem mem_defined_define {name other : Bytes} :
    other ∈ (s.define name).1.defined ↔ other ∈ s.defined ∨ other = name := by
  unfold define
  split
  · next h =>
    constructor
    · exact .inl
    · rintro (hother | rfl)
      · exact hother
      · exact h
  · rw [List.mem_cons]
    exact or_comm

@[simp] theorem current_define (name : Bytes) :
    (s.define name).1.current = some ⟨name, decide (name ∈ s.defined)⟩ := by
  unfold define
  split <;> simp_all

@[simp] theorem pieces_define (name : Bytes) :
    (s.define name).2.pieces = if name ∈ s.defined then [] else [anchorLine name] := by
  unfold define
  split <;> rfl

@[simp] theorem remark_define (name : Bytes) : (s.define name).2.remark = none := by
  unfold define
  split <;> rfl

@[simp] theorem fst_newline : s.newline.1 = { s with headerDue := false } := by
  unfold newline
  split
  · rfl
  · next h =>
    rw [Bool.not_eq_true] at h
    split <;> simp [← h]

@[simp] theorem pieces_newline :
    s.newline.2.pieces = utf8 "\n" ::
      if s.headerDue then s.header else if s.chunk = some codeKind then [utf8 "\t"] else [] := by
  unfold newline
  split
  · rfl
  · split <;> rfl

@[simp] theorem remark_newline :
    s.newline.2.remark =
      if s.headerDue ∧ s.current = none then some (.undefinedBlock s.lineNumber) else none := by
  unfold newline
  split
  · next h => simp [h]
  · next h => split <;> simp [h]

/-! ### Many lines -/

/-- The session after some lines. -/
def after (lines : List Bytes) : Session := lines.foldl (fun s line => (s.feed line).1) s

/-- The effects of lines, in order. -/
def effects : Session → List Bytes → List Effect
  | _, [] => []
  | s, line :: lines => (s.feed line).2 :: effects (s.feed line).1 lines

/-- The text that lines write. -/
def output (lines : List Bytes) : Bytes := (s.effects lines).flatMap fun e => e.pieces.flatten

/-- The remarks on lines, in order. -/
def remarks (lines : List Bytes) : List Remark := (s.effects lines).filterMap Effect.remark

@[simp] theorem after_nil : s.after [] = s := rfl

@[simp] theorem after_cons (line : Bytes) (lines : List Bytes) :
    s.after (line :: lines) = (s.feed line).1.after lines := rfl

@[simp] theorem after_append (lines lines' : List Bytes) :
    s.after (lines ++ lines') = (s.after lines).after lines' := List.foldl_append

theorem effects_append (lines lines' : List Bytes) :
    s.effects (lines ++ lines') = s.effects lines ++ (s.after lines).effects lines' := by
  induction lines generalizing s with
  | nil => rfl
  | cons line lines ih =>
      rw [List.cons_append, effects, effects, ih]
      rfl

/-- The effect of a line is that of feeding it to the session after the lines before it. -/
theorem effects_eq_mapIdx (lines : List Bytes) :
    s.effects lines = lines.mapIdx fun i line => ((s.after (lines.take i)).feed line).2 := by
  induction lines generalizing s with
  | nil => rfl
  | cons line lines ih =>
      rw [effects, List.mapIdx_cons, ih]
      rfl

@[simp] theorem output_nil : s.output [] = [] := rfl

@[simp] theorem output_cons (line : Bytes) (lines : List Bytes) :
    s.output (line :: lines) = (s.feed line).2.pieces.flatten ++ (s.feed line).1.output lines := by
  rw [output, effects, List.flatMap_cons]
  rfl

theorem output_append (lines lines' : List Bytes) :
    s.output (lines ++ lines') = s.output lines ++ (s.after lines).output lines' := by
  rw [output, effects_append, List.flatMap_append]
  rfl

@[simp] theorem remarks_nil : s.remarks [] = [] := rfl

@[simp] theorem remarks_cons (line : Bytes) (lines : List Bytes) :
    s.remarks (line :: lines) =
      (s.feed line).2.remark.toList ++ (s.feed line).1.remarks lines := by
  rw [remarks, effects, List.filterMap_cons]
  cases (s.feed line).2.remark <;> rfl

theorem remarks_append (lines lines' : List Bytes) :
    s.remarks (lines ++ lines') = s.remarks lines ++ (s.after lines).remarks lines' := by
  rw [remarks, effects_append, List.filterMap_append]
  rfl

end Session

/-! ### Runs, whatever the writer does -/

namespace Run

section

variable {σ : Type} [Writer σ]

theorem session_feed (r : Run σ) (line : Bytes) :
    (r.feed line).session = (r.session.feed line).1 := by
  unfold feed
  cases r.failure <;> rfl

theorem remarks_feed (r : Run σ) (line : Bytes) :
    (r.feed line).remarks = (r.session.feed line).2.remark.toList ++ r.remarks := by
  unfold feed
  cases r.failure <;> rfl

/-- The session of a run does not depend on its writer. -/
theorem session_foldl_feed (r : Run σ) (lines : List Bytes) :
    (lines.foldl feed r).session = r.session.after lines := by
  induction lines generalizing r with
  | nil => rfl
  | cons line lines ih => rw [List.foldl_cons, ih, session_feed, Session.after_cons]

/-- The remarks of a run do not depend on its writer. -/
theorem remarks_foldl_feed (r : Run σ) (lines : List Bytes) :
    (lines.foldl feed r).remarks = (r.session.remarks lines).reverse ++ r.remarks := by
  induction lines generalizing r with
  | nil => rfl
  | cons line lines ih =>
      -- a run keeps its remarks newest first, and a line has at most one
      have hrev (o : Option Remark) : o.toList.reverse = o.toList := by cases o <;> rfl
      rw [List.foldl_cons, ih, remarks_feed, session_feed, Session.remarks_cons,
        List.reverse_append, hrev, List.append_assoc]

/-- The first failed write is kept, and nothing is written after it. -/
theorem foldl_feed_of_failure {r : Run σ} {why : Failure} (hr : r.failure = some why)
    (lines : List Bytes) :
    (lines.foldl feed r).out = r.out ∧ (lines.foldl feed r).failure = some why := by
  induction lines generalizing r with
  | nil => exact ⟨rfl, hr⟩
  | cons line lines ih =>
      have hfeed : (r.feed line).out = r.out ∧ (r.feed line).failure = some why := by
        unfold feed
        rw [hr]
        exact ⟨rfl, rfl⟩
      rw [List.foldl_cons, ← hfeed.1]
      exact ih hfeed.2

theorem feedAll_cons (r : Run σ) (line : Bytes) (lines : List Bytes) :
    r.feedAll (line :: lines) =
      if (r.feed line).failure.isSome then r.feed line else (r.feed line).feedAll lines := by
  unfold feedAll
  rw [foldUntil]
  exact apply_ite Prod.fst ..

/-- A run that stops at a failed write has written what it would have written anyway. If no write
fails it stops nowhere. -/
theorem feedAll_eq (r : Run σ) (lines : List Bytes) :
    (r.feedAll lines).out = (lines.foldl feed r).out ∧
      (r.feedAll lines).failure = (lines.foldl feed r).failure ∧
      ((lines.foldl feed r).failure = none → r.feedAll lines = lines.foldl feed r) := by
  induction lines generalizing r with
  | nil => exact ⟨rfl, rfl, fun _ => rfl⟩
  | cons line lines ih =>
      rw [feedAll_cons, List.foldl_cons]
      split
      · next hfailed =>
        obtain ⟨why, hwhy⟩ := Option.isSome_iff_exists.mp hfailed
        obtain ⟨hout, hfailure⟩ := foldl_feed_of_failure hwhy lines
        rw [hout, hfailure]
        exact ⟨rfl, hwhy, nofun⟩
      · exact ih (r.feed line)

end

/-! ### Runs along a ledger -/

end Run

namespace Writer.Ledger

variable {σ : Type} [Writer σ] {Q : Bytes → σ → Option Failure → Prop} {text : Bytes} {r : Run σ}

theorem feed (hQ : Ledger Q) (h : Q text r.out r.failure) (line : Bytes) :
    Q (text ++ (r.session.feed line).2.pieces.flatten) (r.feed line).out
      (r.feed line).failure := by
  unfold Run.feed
  cases hfailure : r.failure with
  | none =>
      rw [hfailure] at h
      exact hQ.writeAll h (r.session.feed line).2.pieces
  | some why =>
      -- nothing is written any more, and the failure is kept
      rw [hfailure] at h
      exact hQ.append h (r.session.feed line).2.pieces.flatten

/-- A run that stops at a failure has offered all of the output in effect. -/
theorem feedAll (hQ : Ledger Q) (h : Q text r.out r.failure) (lines : List Bytes) :
    Q (text ++ r.session.output lines) (r.feedAll lines).out (r.feedAll lines).failure := by
  induction lines generalizing text r with
  | nil =>
      rw [Session.output_nil, List.append_nil]
      exact h
  | cons line lines ih =>
      have hline := hQ.feed h line
      rw [Run.feedAll_cons, Session.output_cons, ← List.append_assoc]
      split
      · next hfailed =>
        obtain ⟨why, hwhy⟩ := Option.isSome_iff_exists.mp hfailed
        rw [hwhy] at hline ⊢
        exact hQ.append hline _
      · have hrest := ih hline
        rwa [Run.session_feed] at hrest

end Writer.Ledger

namespace Run

/-! ### Runs that write to a sink without a limit -/

/-- A run that writes to a sink without a limit, and nothing has failed so far. -/
structure Unlimited (r : Run Sink) : Prop where
  room : r.out.room = none
  failure : r.failure = none

theorem feed_of_unlimited {r : Run Sink} (hr : r.Unlimited) (line : Bytes) :
    (r.feed line).Unlimited ∧
      (r.feed line).out = r.out.taking (r.session.feed line).2.pieces := by
  have hfeed : (r.feed line).failure = none ∧
      (r.feed line).out = r.out.taking (r.session.feed line).2.pieces := by
    unfold feed
    rw [hr.failure]
    simp only
    rw [Sink.writeAll_of_room hr.room]
    exact ⟨rfl, rfl⟩
  refine ⟨⟨?_, hfeed.1⟩, hfeed.2⟩
  rw [hfeed.2]
  exact hr.room

/-- A sink without a limit takes all that the session writes. -/
theorem foldl_feed_of_unlimited {r : Run Sink} (hr : r.Unlimited) (lines : List Bytes) :
    (lines.foldl feed r).Unlimited ∧
      (lines.foldl feed r).out.contents = r.out.contents ++ r.session.output lines := by
  induction lines generalizing r with
  | nil => simpa using hr
  | cons line lines ih =>
      obtain ⟨hnext, hout⟩ := feed_of_unlimited hr line
      obtain ⟨hlast, hrest⟩ := ih hnext
      refine ⟨hlast, ?_⟩
      rw [List.foldl_cons, hrest, hout, Sink.contents_taking, session_feed, Session.output_cons,
        List.append_assoc]

/-- A run that cannot fail takes in all lines. -/
theorem feedAll_of_unlimited {r : Run Sink} (hr : r.Unlimited) (lines : List Bytes) :
    r.feedAll lines = lines.foldl feed r :=
  (r.feedAll_eq lines).2.2 (foldl_feed_of_unlimited hr lines).1.failure

end Run

/-- A run takes in the lines of its input, and ends as the input does unless a write fails. -/
theorem Session.run_eq {σ : Type} [Writer σ] (out : σ) (input : Intake) :
    Session.run out input =
      { run := Run.feedAll { out } (Bytes.lines input.bytes)
        error := (Run.feedAll { out } (Bytes.lines input.bytes)).error? input.failure } := by
  rw [Session.run, Intake.forLines_eq]
  rfl

/-- How the input ends makes no difference to the run over what it delivers. -/
theorem Session.run_ending {σ : Type} [Writer σ] (out : σ) (input : Intake) :
    (Session.run out input).run = (Session.run out ⟨input.bytes, none⟩).run := by
  rw [Session.run_eq, Session.run_eq]

/-- Over input that is read to its end, a session writes all of its output. -/
theorem Session.run_of_unlimited (input : Bytes) :
    (Session.run ({} : Sink) ⟨input, none⟩).error = none ∧
      (Session.run ({} : Sink) ⟨input, none⟩).run.remarks.reverse =
        Session.remarks {} (Bytes.lines input) ∧
      (Session.run ({} : Sink) ⟨input, none⟩).run.out.contents =
        Session.output {} (Bytes.lines input) := by
  have hfresh : ({ out := {} } : Run Sink).Unlimited := ⟨rfl, rfl⟩
  obtain ⟨hend, hcontents⟩ := Run.foldl_feed_of_unlimited hfresh (Bytes.lines input)
  have hremarks := Run.remarks_foldl_feed ({ out := {} } : Run Sink) (Bytes.lines input)
  simp only [Session.run_eq, Run.feedAll_of_unlimited hfresh]
  refine ⟨?_, ?_, hcontents⟩
  · rw [Run.error?, hend.failure]
    rfl
  · rw [hremarks, List.append_nil, List.reverse_reverse]

end Literate
