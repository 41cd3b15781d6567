import Literate.Command.Convert
import Literate.Proofs.Format

/-!
# Converting inputs one after the other

`Inputs.read` says what there is to read under some names: one source each, up to and with the first
that breaks off. What is written for them is what each of them gives alone, in order, whatever the
writer makes of it (`Covers.convertAllFrom`). Nothing of one source shows in the next, except that
the standard input can be read only once (`Inputs.read_eq_sources`).
-/

namespace Literate

namespace Command

open Bytes

/-! ### One source -/

/-- An input and the name it goes by. -/
structure Source where
  name : Bytes
  input : Intake
deriving DecidableEq, Repr

/-- The conversion of one source alone, with nothing in the way of its output. -/
def Source.alone (source : Source) : Conversion Sink :=
  (Format.ofFileName source.name).convert (streamName source.name) source.input {}

/-- The line that a diagnostic of the named input is shown in. -/
def diagnosticLine (name : Bytes) (d : Diagnostic) : Bytes :=
  (if name = stdinName then [] else name ++ utf8 ":") ++ d.text

def Source.diagnosticLines (source : Source) : List Bytes :=
  source.alone.diagnostics.map (diagnosticLine source.name)

theorem Logger.note_debug {log : Logger} (hlog : log.level ≠ .debug) {r : Log.Record}
    (hr : r.level = .debug) : log.note r = [] := by
  obtain ⟨level⟩ := log
  rw [Logger.note, hr]
  cases level with
  | debug => exact absurd rfl hlog
  | info | warn | error => rfl

theorem level_record (r : Remark) : r.record.level = .debug := by
  cases r <;> rfl

theorem remarkNotices_of_quiet {log : Logger} (hlog : log.level ≠ .debug) (name : Bytes)
    (r : Remark) : remarkNotices log name r =
      (r.diagnostic?.map fun d => Notice.line (diagnosticLine name d)).toList := by
  have hrecord : (r.record.under [(utf8 "file", .text name)]).level = .debug := level_record r
  rw [remarkNotices, Logger.note_debug hlog hrecord]
  rfl

section

variable (log : Logger) (name : Bytes) (origin : Origin) (out : Buffered)

theorem out_convertInput : (convertInput log name origin out).out =
    (origin.convert (.ofFileName name) (streamName name) out).out := by
  unfold convertInput
  dsimp only
  split <;> rfl

theorem error_convertInput : (convertInput log name origin out).error =
    (origin.convert (.ofFileName name) (streamName name) out).error.map (.conversion name) := by
  unfold convertInput
  dsimp only
  split
  · next hsome => rw [hsome, Option.map_some]
  · next hnone => rw [hnone, Option.map_none]

/-- A logger that leaves out what is there for debugging lets only the diagnostics through. -/
theorem notices_convertInput (hlog : log.level ≠ .debug) :
    (convertInput log name origin out).notices =
      (origin.convert (.ofFileName name) (streamName name) out).diagnostics.map fun d =>
        Notice.line (diagnosticLine name d) := by
  have hquiet (message : Bytes) (attributes : List (Bytes × Log.Value)) :
      log.note { level := .debug, message, attributes } = [] := Logger.note_debug hlog rfl
  have hremarks (remarks : List Remark) : remarks.flatMap (remarkNotices log name) =
      (remarks.filterMap Remark.diagnostic?).map fun d => Notice.line (diagnosticLine name d) := by
    rw [List.map_filterMap, List.filterMap_eq_flatMap_toList]
    exact congrArg (remarks.flatMap ·) (funext (remarkNotices_of_quiet hlog name))
  unfold convertInput
  dsimp only
  split
  · rw [hquiet, List.nil_append, hremarks]
    rfl
  · rw [hquiet, hquiet, List.nil_append, List.append_nil, hremarks]
    rfl

end

/-! ### What there is to read -/

namespace Inputs

/-- The named input as it is read, if it can be opened. -/
def intake? (inputs : Inputs) (name : Bytes) : Except Failure Intake :=
  if name = stdinName then .ok inputs.stdin
  else (inputs.files.openAt inputs.cwd name).map (·.intake name)

/-- What is read under the given names, and does an input fail to open or to be read? Nothing is
read after that. -/
def read (inputs : Inputs) : List Bytes → List Source × Bool
  | [] => ([], false)
  | name :: names =>
    match inputs.intake? name with
    | .error _ => ([], true)
    | .ok input =>
      let rest := if input.failure.isSome then ([], true) else (inputs.after name).read names
      (⟨name, input⟩ :: rest.1, rest.2)

/-- The output does not go to the named input. -/
def Apart (inputs : Inputs) (name : Bytes) : Prop :=
  name ≠ stdinName → ∀ o, inputs.files.openAt inputs.cwd name = .ok o →
    inputs.output ≠ some o.place

theorem apart_of_output {inputs : Inputs} (h : inputs.output = none) (name : Bytes) :
    inputs.Apart name := by
  intro _ o _
  rw [h]
  nofun

theorem open?_of_apart {inputs : Inputs} {name : Bytes} (h : inputs.Apart name) :
    inputs.open? name = (inputs.intake? name).map Origin.intake := by
  rw [open?, intake?]
  split
  · rfl
  · next hname =>
    split
    · next herror =>
      rw [herror]
      rfl
    · next o hok =>
      rw [if_neg (h hname o hok), hok]
      rfl

@[simp] theorem files_after (inputs : Inputs) (name : Bytes) :
    (inputs.after name).files = inputs.files := by
  unfold after
  split <;> rfl

@[simp] theorem cwd_after (inputs : Inputs) (name : Bytes) :
    (inputs.after name).cwd = inputs.cwd := by
  unfold after
  split <;> rfl

@[simp] theorem output_after (inputs : Inputs) (name : Bytes) :
    (inputs.after name).output = inputs.output := by
  unfold after
  split <;> rfl

theorem Apart.after {inputs : Inputs} {name : Bytes} (h : inputs.Apart name) (earlier : Bytes) :
    (inputs.after earlier).Apart name := by
  rw [Apart, files_after, cwd_after, output_after]
  exact h

end Inputs

/-- The sources under some names, all of which can be read to their ends. The first `-` is all of
the standard input, and any later one is empty. -/
def sources (contents : Bytes → Bytes) (stdin : Bytes) (names : List Bytes) : List Source :=
  names.mapIdx fun i name =>
    { name
      input :=
        { bytes :=
            if name ≠ stdinName then contents name
            else if stdinName ∈ names.take i then [] else stdin
          failure := none } }

theorem sources_cons (contents : Bytes → Bytes) (stdin name : Bytes) (names : List Bytes) :
    sources contents stdin (name :: names) =
      ⟨name, ⟨if name ≠ stdinName then contents name else stdin, none⟩⟩ ::
        sources contents (if name = stdinName then [] else stdin) names := by
  rw [sources, List.mapIdx_cons, sources]
  congr 1
  apply congrArg (names.mapIdx ·)
  funext i other
  by_cases hname : name = stdinName
  · simp [hname]
  · simp [hname, Ne.symm hname]

/-- Inputs that can all be read are read to their ends. -/
theorem Inputs.read_eq_sources {contents : Bytes → Bytes} {inputs : Inputs} {names : List Bytes}
    (hstdin : inputs.stdin.failure = none)
    (h : ∀ name ∈ names, name ≠ stdinName → inputs.intake? name = .ok ⟨contents name, none⟩) :
    inputs.read names = (sources contents inputs.stdin.bytes names, false) := by
  induction names generalizing inputs with
  | nil => rfl
  | cons name names ih =>
      have hfirst : inputs.intake? name =
          .ok ⟨if name ≠ stdinName then contents name else inputs.stdin.bytes, none⟩ := by
        by_cases hname : name = stdinName
        · rw [intake?, if_pos hname, if_neg (not_not_intro hname), ← hstdin]
        · rw [h name List.mem_cons_self hname, if_pos hname]
      have hafter : (inputs.after name).stdin =
          ⟨if name = stdinName then [] else inputs.stdin.bytes, none⟩ := by
        unfold after
        split <;> rw [← hstdin]
      have hrest : ∀ other ∈ names, other ≠ stdinName →
          (inputs.after name).intake? other = .ok ⟨contents other, none⟩ := by
        intro other hother hne
        rw [← h other (List.mem_cons_of_mem name hother) hne, intake?, intake?, if_neg hne,
          if_neg hne, files_after, cwd_after]
      have hread := ih (congrArg Intake.failure hafter) hrest
      rw [hafter] at hread
      rw [read, hfirst, hread, sources_cons]
      rfl

/-! ### Along a ledger -/

/-- What the sources give, each alone and one after the other. -/
def outputOf (sources : List Source) : Bytes := sources.flatMap fun s => s.alone.out.contents

def diagnosticLines (sources : List Source) : List Bytes :=
  sources.flatMap Source.diagnosticLines

theorem outputOf_cons (source : Source) (sources : List Source) :
    outputOf (source :: sources) = outputOf [source] ++ outputOf sources := by
  simp [outputOf]

theorem diagnosticLines_cons (source : Source) (sources : List Source) :
    diagnosticLines (source :: sources) = diagnosticLines [source] ++ diagnosticLines sources := by
  simp [diagnosticLines]

/-- The outcome of converting what there was to read: the writer, which had been offered `text`, was
offered the output of the sources too. As long as the writer does not fail, only a source can, and
the notices go on after those `said` before with the diagnostics of each source in turn. -/
def Converted.Covers (Q : Bytes → Buffered → Option Failure → Prop) (log : Logger) (text : Bytes)
    (said : List Notice) (read : List Source × Bool) (c : Converted) : Prop :=
  ∃ failure, Q (text ++ outputOf read.1) c.out failure ∧
    (failure = none → c.error.isSome = read.2 ∧
      (log.level ≠ .debug → c.notices = said ++ (diagnosticLines read.1).map Notice.line)) ∧
    (failure ≠ none → c.error.isSome)

namespace Converted.Covers

variable {Q : Bytes → Buffered → Option Failure → Prop} {log : Logger} {text : Bytes}
  {said : List Notice} {out : Buffered} {source : Source} {rest : List Source × Bool}
  {c c' : Converted}

theorem nothing (h : Q text out none) (said : List Notice) (error : Option Error) :
    Covers Q log text said ([], error.isSome) { out, notices := said, error } := by
  refine ⟨none, ?_, fun _ => ⟨rfl, fun _ => ?_⟩, fun hne => absurd rfl hne⟩
  · show Q (text ++ []) out none
    rw [List.append_nil]
    exact h
  · exact (List.append_nil said).symm

theorem convertInput (hQ : Writer.Ledger Q) (h : Q text out none) (log : Logger)
    (source : Source) : Covers Q log text [] ([source], source.input.failure.isSome)
      (convertInput log source.name (.intake source.input) out) := by
  obtain ⟨failure, hoffered, hsame, hfailed⟩ :=
    hQ.convert h (.ofFileName source.name) (streamName source.name) source.input
  refine ⟨failure, ?_, ?_, ?_⟩
  · rw [out_convertInput, outputOf, List.flatMap_singleton]
    exact hoffered
  · intro hnone
    obtain ⟨herror, hremarks⟩ := hsame hnone
    refine ⟨?_, fun hlog => ?_⟩
    · rw [error_convertInput, Option.isSome_map, Origin.convert, herror,
        Format.isSome_error_convert]
    · rw [notices_convertInput _ _ _ _ hlog, Origin.convert, Conversion.diagnostics, hremarks,
        diagnosticLines, List.flatMap_singleton, Source.diagnosticLines, List.map_map]
      rfl
  · intro hsome
    rw [error_convertInput, Option.isSome_map]
    exact hfailed hsome

/-- If converting did not fail, neither the writer nor a source did. -/
theorem of_error {read : List Source × Bool} (h : Covers Q log text said read c)
    (hc : c.error = none) :
    Q (text ++ outputOf read.1) c.out none ∧ read.2 = false ∧
      (log.level ≠ .debug → c.notices = said ++ (diagnosticLines read.1).map Notice.line) := by
  obtain ⟨failure, hoffered, hgoing, hfailed⟩ := h
  rw [hc] at hgoing hfailed
  obtain rfl : failure = none := by
    by_contra hsome
    exact Bool.false_ne_true (hfailed hsome)
  obtain ⟨hread, hnotices⟩ := hgoing rfl
  exact ⟨hoffered, hread.symm, hnotices⟩

/-- If a source or the writer fails, converting ends there. After such a source nothing is read, and
after the writer it does not matter what else there is to read. -/
theorem stop (hQ : Writer.Ledger Q)
    (h : Covers Q log text [] ([source], source.input.failure.isSome) c) {why : Error}
    (hc : c.error = some why) (hrest : source.input.failure.isSome → rest = ([], true)) :
    Covers Q log text said (source :: rest.1, rest.2)
      { out := c.out, notices := said ++ c.notices, error := some why } := by
  obtain ⟨failure, hoffered, hgoing, -⟩ := h
  rw [hc] at hgoing
  cases failure with
  | none =>
      obtain ⟨hbroken, hnotices⟩ := hgoing rfl
      rw [hrest hbroken.symm]
      refine ⟨none, hoffered, fun _ => ⟨rfl, fun hlog => ?_⟩, fun hne => absurd rfl hne⟩
      rw [hnotices hlog]
      rfl
  | some failed =>
      refine ⟨some failed, ?_, nofun, fun _ => rfl⟩
      rw [outputOf_cons, ← List.append_assoc]
      exact hQ.append hoffered _

/-- Otherwise the source was read to its end, and converting goes on with the rest. -/
theorem go (h : Covers Q log text [] ([source], source.input.failure.isSome) c)
    (hc : c.error = none)
    (hgo : source.input.failure.isSome = false → Q (text ++ outputOf [source]) c.out none →
      Covers Q log (text ++ outputOf [source]) (said ++ c.notices) rest c') :
    Covers Q log text said (source :: rest.1, rest.2) c' := by
  obtain ⟨hoffered, hwhole, hnotices⟩ := h.of_error hc
  obtain ⟨failure, hoffered', hgoing', hfailed'⟩ := hgo hwhole hoffered
  refine ⟨failure, ?_, fun hnone => ?_, hfailed'⟩
  · rw [outputOf_cons, ← List.append_assoc]
    exact hoffered'
  · obtain ⟨hbroken, hnotices'⟩ := hgoing' hnone
    refine ⟨hbroken, fun hlog => ?_⟩
    rw [hnotices' hlog, hnotices hlog, diagnosticLines_cons source rest.1, List.map_append,
      List.nil_append, List.append_assoc]

/-- **Inputs that are converted in order give what each of them gives alone.** -/
theorem convertAllFrom (hQ : Writer.Ledger Q) (h : Q text out none) {inputs : Inputs}
    {names : List Bytes} (hapart : ∀ name ∈ names, inputs.Apart name) (done : List (List Notice)) :
    Covers Q log text done.reverse.flatten (inputs.read names)
      (convertAllFrom log inputs done out names) := by
  induction names generalizing inputs done text out with
  | nil => exact nothing h done.reverse.flatten none
  | cons name names ih =>
      unfold Command.convertAllFrom Inputs.read
      rw [Inputs.open?_of_apart (hapart name List.mem_cons_self)]
      cases inputs.intake? name with
      | error why => exact nothing h done.reverse.flatten (some (.openInput why))
      | ok input =>
          have hfirst := convertInput hQ h log ⟨name, input⟩
          have hsaid (notices : List Notice) :
              (notices :: done).reverse.flatten = done.reverse.flatten ++ notices := by
            rw [List.reverse_cons, List.flatten_append, List.flatten_singleton]
          simp only [Except.map]
          cases herror : (Command.convertInput log name (.intake input) out).error with
          | some why =>
              dsimp only
              rw [hsaid]
              exact hfirst.stop hQ herror fun hbroken => if_pos hbroken
          | none =>
              apply hfirst.go herror
              intro hwhole hoffered
              have hrest : ∀ other ∈ names, (inputs.after name).Apart other := by
                intro other hother
                exact (hapart other (List.mem_cons_of_mem name hother)).after name
              rw [if_neg (Bool.not_eq_true _ ▸ hwhole), ← hsaid]
              exact ih hoffered hrest _

end Converted.Covers

end Command

end Literate
