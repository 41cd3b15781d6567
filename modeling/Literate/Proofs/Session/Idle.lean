import Literate.Proofs.Session.Diagnostics

/-!
# Lines that mean nothing

A line that is no directive, names the source, or has a keyword without a meaning is only counted.
Put anywhere between other lines, it shows in nothing but the numbers of the lines after it:

    xs, z, ys     ends as     xs, ys     with what is said about ys one line later

A session that has counted one line more does the same with a line as before, and says the same
about it one line later (`Session.feed_counted`). So from the idle line on, the run with it is ahead
of the run without it by one line and by nothing else (`Run.Ahead`), whatever was open or due when
the line came.
-/

namespace Literate

open Bytes

/-- What stands before the first space of a line. -/
def firstWord (line : Bytes) : Bytes := line.takeWhile (· != space)

/-- Lines that mean nothing to a session. -/
inductive Idle (line : Bytes) : Prop
  /-- An empty line, or one that does not start with `@`. -/
  | malformed : line.head? ≠ some atSign → Idle line
  /-- The name of the source. -/
  | file : firstWord line = utf8 "@file" → Idle line
  /-- A directive with none of the keywords that there are. -/
  | unknown : (firstWord line).head? = some atSign → (∀ k : Keyword, firstWord line ≠ k.bytes) →
      Idle line

theorem head?_of_firstWord {line : Bytes} (h : (firstWord line).head? = some atSign) :
    line.head? = some atSign := by
  rw [firstWord, List.head?_takeWhile, Option.filter_eq_some_iff] at h
  exact h.1

/-- **An idle line is only counted.** It is remarked on, but only a malformed one is reported. -/
theorem Idle.feed_eq {line : Bytes} (h : Idle line) (s : Session) :
    (s.feed line).1 = s.counted ∧ (s.feed line).2.pieces = [] ∧
      (s.feed line).2.remark.bind Remark.diagnostic? =
        if line.head? = some atSign then none else some s.counted.malformed := by
  cases h with
  | malformed hat =>
      rw [s.feed_of_parse?_none (Directive.parse?_eq_none_iff.mpr hat), if_neg hat]
      exact ⟨rfl, rfl, rfl⟩
  | file hword =>
      have hat : line.head? = some atSign := by
        apply head?_of_firstWord
        rw [hword]
        decide
      have hparse : Directive.parse? line = some (.file (cut space line).2) := by
        rw [Directive.parse?, if_pos hat]
        exact congrArg some ((congrArg (Directive.ofKeyword · _) hword).trans
          (Directive.ofKeyword_bytes .file _))
      rw [s.feed_of_parse? hparse, if_pos hat]
      exact ⟨rfl, rfl, rfl⟩
  | unknown hstart hword =>
      have hat := head?_of_firstWord hstart
      have hparse : Directive.parse? line = some (.unknown (firstWord line)) := by
        rw [Directive.parse?, if_pos hat]
        exact congrArg some (Directive.ofKeyword_of_forall_ne hword _)
      rw [s.feed_of_parse? hparse, if_pos hat]
      exact ⟨rfl, rfl, rfl⟩

/-! ### One line later -/

/-- The same diagnostic about the next line. -/
def Diagnostic.later (d : Diagnostic) : Diagnostic := { d with line := d.line + 1 }

/-- The same remark about the next line. -/
def Remark.later : Remark → Remark
  | .diagnostic d => .diagnostic d.later
  | .ignored line keyword => .ignored (line + 1) keyword
  | .undefinedBlock line => .undefinedBlock (line + 1)

/-- The same effect of the next line. -/
def Effect.later (e : Effect) : Effect := { e with remark := e.remark.map Remark.later }

theorem Remark.diagnostic?_later (r : Remark) :
    r.later.diagnostic? = r.diagnostic?.map Diagnostic.later := by
  cases r <;> rfl

namespace Session

variable (s : Session)

theorem newline_counted : s.counted.newline = (s.newline.1.counted, s.newline.2.later) := by
  unfold newline
  split
  · cases s.current <;> rfl
  · split <;> rfl

theorem define_counted (name : Bytes) :
    s.counted.define name = ((s.define name).1.counted, (s.define name).2.later) := by
  unfold define
  split <;> rfl

theorem mismatch?_counted (kind : Bytes) :
    s.counted.mismatch? kind = (s.mismatch? kind).map Diagnostic.later := by
  unfold mismatch?
  split <;> rfl

theorem closeChunk_counted (kind : Bytes) :
    s.counted.closeChunk kind = ((s.closeChunk kind).1.counted, (s.closeChunk kind).2.later) := by
  unfold closeChunk
  rw [mismatch?_counted]
  cases s.mismatch? kind <;> rfl

/-- The number of the line is looked at for remarks only. -/
theorem obey_counted (d : Directive) :
    s.counted.obey d = ((s.obey d).1.counted, (s.obey d).2.later) := by
  cases d with
  | newline => exact s.newline_counted
  | defn name => exact s.define_counted name
  | endChunk arg => exact s.closeChunk_counted _
  | text | file | quote | endquote | use | beginChunk | unknown => rfl

/-- **A session does the same with a line however many lines it has counted.** -/
theorem feed_counted (line : Bytes) :
    s.counted.feed line = ((s.feed line).1.counted, (s.feed line).2.later) := by
  unfold feed
  cases Directive.parse? line with
  | none => rfl
  | some d => exact s.counted.obey_counted d

theorem remarks_counted (lines : List Bytes) :
    s.counted.remarks lines = (s.remarks lines).map Remark.later := by
  induction lines generalizing s with
  | nil => rfl
  | cons line lines ih =>
      rw [remarks_cons, remarks_cons, feed_counted, List.map_append, ih]
      cases h : (s.feed line).2.remark <;> simp [Effect.later, h]

end Session

/-! ### Two runs, one of them a line ahead -/

namespace Run

variable {σ : Type} [Writer σ]

/-- The run `r'` has counted one line more than the run `r`, and differs in nothing else but
remarks. -/
structure Ahead (r r' : Run σ) : Prop where
  session : r'.session = r.session.counted
  out : r'.out = r.out
  failure : r'.failure = r.failure

theorem ahead_of_idle (r : Run σ) {line : Bytes} (h : Idle line) : Ahead r (r.feed line) := by
  obtain ⟨hsession, hpieces, -⟩ := h.feed_eq r.session
  have hwritten : (r.feed line).out = r.out ∧ (r.feed line).failure = r.failure := by
    unfold feed
    simp only [hpieces, Writer.writeAll]
    cases r.failure <;> exact ⟨rfl, rfl⟩
  exact ⟨by rw [session_feed, hsession], hwritten.1, hwritten.2⟩

theorem Ahead.feed {r r' : Run σ} (h : Ahead r r') (line : Bytes) :
    Ahead (r.feed line) (r'.feed line) := by
  have hpieces : (r'.session.feed line).2.pieces = (r.session.feed line).2.pieces := by
    rw [h.session, Session.feed_counted]
    rfl
  have hwritten : (r'.feed line).out = (r.feed line).out ∧
      (r'.feed line).failure = (r.feed line).failure := by
    unfold Run.feed
    simp only [h.out, h.failure, hpieces]
    cases r.failure <;> exact ⟨rfl, rfl⟩
  refine ⟨?_, hwritten.1, hwritten.2⟩
  rw [session_feed, session_feed, h.session, Session.feed_counted]

theorem Ahead.foldl_feed {r r' : Run σ} (h : Ahead r r') (lines : List Bytes) :
    Ahead (lines.foldl Run.feed r) (lines.foldl Run.feed r') := by
  induction lines generalizing r r' with
  | nil => exact h
  | cons line lines ih => exact ih (h.feed line)

end Run

/-! ### Diagnostics around an idle line -/

namespace History

/-- What is reported about lines that come after others. -/
def furtherDiagnostics (before lines : List Bytes) : List Diagnostic :=
  ((Session.after {} before).remarks lines).filterMap Remark.diagnostic?

theorem diagnostics_append (before lines : List Bytes) :
    diagnostics (before ++ lines) = diagnostics before ++ furtherDiagnostics before lines := by
  rw [diagnostics, Session.remarks_append, List.filterMap_append]
  rfl

theorem furtherDiagnostics_of_idle {line : Bytes} (h : Idle line) (before lines : List Bytes) :
    furtherDiagnostics (before ++ [line]) lines =
      (furtherDiagnostics before lines).map Diagnostic.later := by
  have hafter : Session.after {} (before ++ [line]) = (Session.after {} before).counted := by
    rw [Session.after_append]
    exact (h.feed_eq _).1
  rw [furtherDiagnostics, hafter, Session.remarks_counted, List.filterMap_map, furtherDiagnostics,
    List.map_filterMap]
  congr 1
  funext r
  exact r.diagnostic?_later

theorem diagnostics_concat_idle {line : Bytes} (h : Idle line) (before : List Bytes) :
    diagnostics (before ++ [line]) = diagnostics before ++
      if line.head? = some atSign then []
      else [{ line := before.length + 1, fault := some .malformedLine }] := by
  rw [diagnostics_concat, ← (Agrees.after before).diagnostic_feed, (h.feed_eq _).2.2]
  split
  · rfl
  · simp [Session.malformed, (Agrees.after before).lineNumber]

end History

/-- **Idle lines are invisible.** Put an idle line anywhere between other lines. Whatever the writer
does, the same is written as without it, and the session ends in the same state, with one more line
counted. What is reported about the lines before it stays, what is reported about those after it is
said of the next line, and in between there is one new diagnostic if the idle line is malformed, and
none if it is not. -/
theorem foldl_feed_idle {σ : Type} [Writer σ] (out : σ) (xs ys : List Bytes) (z : Bytes)
    (hz : Idle z) :
    let before := xs.foldl Run.feed { out }
    let without := (xs ++ ys).foldl Run.feed { out }
    let r := (xs ++ [z] ++ ys).foldl Run.feed { out }
    r.out = without.out ∧ r.failure = without.failure ∧
      r.session = { without.session with lineNumber := without.session.lineNumber + 1 } ∧
      ∃ rest, without.diagnostics = before.diagnostics ++ rest ∧
        r.diagnostics = before.diagnostics ++
          (if z.head? = some atSign then []
            else [{ line := xs.length + 1, fault := some .malformedLine }]) ++
          rest.map fun d => { d with line := d.line + 1 } := by
  intro before without r
  have hahead : Run.Ahead without r := by
    show Run.Ahead ((xs ++ ys).foldl Run.feed _) ((xs ++ [z] ++ ys).foldl Run.feed _)
    rw [List.foldl_append, List.foldl_append, List.foldl_append]
    exact (before.ahead_of_idle hz).foldl_feed ys
  refine ⟨hahead.out, hahead.failure, hahead.session, History.furtherDiagnostics xs ys, ?_, ?_⟩
  · rw [History.diagnostics_foldl_feed, History.diagnostics_foldl_feed, History.diagnostics_append]
  · rw [History.diagnostics_foldl_feed, History.diagnostics_foldl_feed, History.diagnostics_append,
      History.diagnostics_concat_idle hz, History.furtherDiagnostics_of_idle hz]
    rfl

/-- A line of text that nobody marked stands between the beginning of a code chunk and its first
newline, which still is followed by the head of the block. -/
theorem foldl_feed_idle_before_header :
    let xs := [utf8 "@begin code 1", utf8 "@defn a", utf8 "@end x"]
    let ys := [utf8 "@nl", utf8 "@end code"]
    let z := utf8 "stray"
    let r := (xs ++ [z] ++ ys).foldl Run.feed { out := ({} : Sink) }
    Idle z ∧
      r.out.contents = utf8 ".. _a:\n\n.. highlight:: c\n\n``⟨a⟩≡`` ::\n\t\n\t" ∧
      r.session.lineNumber = 6 ∧
      r.diagnostics = [⟨3, some .mismatchedEnd, utf8 "x", utf8 "code"⟩,
        ⟨4, some .malformedLine, [], []⟩, ⟨6, some .mismatchedEnd, utf8 "code", utf8 "none"⟩] := by
  intro xs ys z r
  have hz : Idle z := .malformed (by decide)
  obtain ⟨hout, -, hsession, rest, hwithout, hdiagnostics⟩ :=
    foldl_feed_idle ({} : Sink) xs ys z hz
  have hbefore : (xs.foldl Run.feed { out := ({} : Sink) }).diagnostics =
      [⟨3, some .mismatchedEnd, utf8 "x", utf8 "code"⟩] := by
    decide +kernel
  have hrest : rest = [⟨5, some .mismatchedEnd, utf8 "code", utf8 "none"⟩] := by
    rw [hbefore] at hwithout
    exact (List.append_cancel_left (hwithout.symm.trans (by decide +kernel)))
  refine ⟨hz, ?_, ?_, ?_⟩
  · rw [hout]
    decide +kernel
  · rw [hsession]
    decide +kernel
  · rw [hdiagnostics, hbefore, hrest]
    decide +kernel

end Literate
