import Literate.Command
import Literate.Proofs.Command.Inputs
import Literate.Proofs.FileTree
import Literate.Proofs.Writer.Buffered

/-!
# The conversion command

All inputs go through one buffer to one output. If everything can be read and the output takes it,
what arrives is what each input gives alone, one after the other (`Context.convert_delivers`). If an
input fails or the output runs out of room, what arrives is a start of that, and the command says so
(`Context.convert_limited`).
-/

namespace Literate.Command

open Bytes

/-! ### Opening the output -/

/-- The standard output, open. -/
def Invocation.stdoutOutlet (i : Invocation) : Outlet :=
  { sink := i.stdoutSink, destination := .stdout, files := i.files }

section

variable {i : Invocation} {name : Bytes} {outlet : Outlet}

theorem Invocation.openOutput_stdout (i : Invocation) (h : name = [] ∨ name = stdinName) :
    i.openOutput name = .ok i.stdoutOutlet := by
  rw [openOutput, if_pos]
  · rfl
  · rwa [List.isEmpty_iff]

/-- An output is the standard output, a device that was there before, or a file that is now empty
and has room for anything. The files differ from those before in that file only. -/
theorem Invocation.openOutput_cases (h : i.openOutput name = .ok outlet) :
    outlet.sink.contents = [] ∧
      ((name = [] ∨ name = stdinName) ∧ outlet.destination = .stdout ∧ outlet.files = i.files ∨
      ¬(name = [] ∨ name = stdinName) ∧ ∃ o, outlet.files.openAt i.place name = .ok o ∧
        ((∃ d, o.entry = .device d) ∧ outlet.destination = .device ∧ outlet.files = i.files ∨
          o.entry = .file [] ∧ outlet.destination = .file o.place ∧ outlet.sink.room = none ∧
            outlet.files = i.files.put o.place (.file []) ∧
            ¬FileTree.LeadsOn (i.files.at? o.place))) := by
  rw [openOutput] at h
  split at h
  · next hname =>
    cases h
    rw [List.isEmpty_iff] at hname
    exact ⟨rfl, .inl ⟨hname, rfl, rfl⟩⟩
  next hname =>
  rw [List.isEmpty_iff] at hname
  cases hcreate : i.files.create i.place name with
  | error why =>
      rw [hcreate] at h
      cases h
  | ok created =>
      obtain ⟨files, o⟩ := created
      rw [hcreate] at h
      have hopen := FileTree.openAt_of_create hcreate
      obtain ⟨-, -, -, ⟨d, hdevice, -, hfiles⟩ | ⟨hfile, hrest⟩⟩ := FileTree.create_cases hcreate
      · obtain ⟨place, entry⟩ := o
        obtain rfl : entry = .device d := hdevice
        cases d <;> cases h <;> exact ⟨rfl, .inr ⟨hname, _, hopen, .inl ⟨⟨_, rfl⟩, rfl, hfiles⟩⟩⟩
      · obtain ⟨place, entry⟩ := o
        obtain rfl : entry = .file [] := hfile
        cases h
        exact ⟨rfl, .inr ⟨hname, _, hopen, .inr ⟨rfl, rfl, rfl, hrest⟩⟩⟩

/-- What could be opened before and is not the output can still be opened. -/
theorem Outlet.openAt_files (h : i.openOutput name = .ok outlet) {cwd : Place} {path : Bytes}
    {o : FileTree.Opened} (hpath : i.files.openAt cwd path = .ok o)
    (hapart : outlet.destination.place? ≠ some o.place) : outlet.files.openAt cwd path = .ok o := by
  obtain ⟨-, ⟨-, -, hfiles⟩ | ⟨-, made, -, hmade⟩⟩ := i.openOutput_cases h
  · rw [hfiles, hpath]
  obtain ⟨-, -, hfiles⟩ | ⟨-, hdestination, -, hfiles, hentry⟩ := hmade
  · rw [hfiles, hpath]
  · rw [hfiles]
    apply FileTree.openAt_put hpath hentry
    intro hsame
    rw [hdestination, hsame] at hapart
    exact hapart rfl

end

namespace Context

/-- The names of the inputs. -/
def names (c : Context) : List Bytes := if c.words.isEmpty then [stdinName] else c.words

/-- The inputs as they are before the output is opened. -/
def inputs (c : Context) : Inputs := { cwd := c.place, files := c.files, stdin := c.stdin }

/-- What is given to the command if all of its inputs can be read. -/
def sources (c : Context) : List Source :=
  Command.sources (fun name => (c.files.contents? c.place name).getD []) c.stdin.bytes c.names

/-- The command leaves `text` where its output goes, and nothing else changes. A device takes the
text and keeps nothing. -/
inductive Delivers (c : Context) (text : Bytes) (d : Completion) : Prop
  | stdout : c.output = [] ∨ c.output = stdinName → d.stdout = text → d.files = c.files →
      Delivers c text d
  | file {place : Place} : ¬(c.output = [] ∨ c.output = stdinName) → d.stdout = [] →
      d.files.openAt c.place c.output = .ok ⟨place, .file text⟩ →
      (∀ other ≠ place, d.files.at? other = c.files.at? other) → Delivers c text d
  | device {place : Place} {device : Device} : ¬(c.output = [] ∨ c.output = stdinName) →
      d.stdout = [] → c.files.openAt c.place c.output = .ok ⟨place, .device device⟩ →
      d.files = c.files → Delivers c text d

/-- The named file can be read to its end, and the output does not go there. -/
def Readable (c : Context) (outlet : Outlet) (name : Bytes) : Prop :=
  ∃ o, c.files.openAt c.place name = .ok o ∧ (o.intake name).failure = none ∧
    outlet.destination.place? ≠ some o.place

variable {c : Context} {outlet : Outlet}

theorem delivers_close (h : c.openOutput c.output = .ok outlet) {text : Bytes} {d : Completion}
    (hstdout : d.stdout = outlet.shown text) (hfiles : d.files = outlet.close text) :
    c.Delivers text d := by
  rw [Outlet.shown] at hstdout
  rw [Outlet.close] at hfiles
  obtain ⟨-, ⟨hname, hdestination, hsame⟩ | ⟨hname, o, hopen, hmade⟩⟩ :=
    c.toInvocation.openOutput_cases h
  · rw [hdestination] at hstdout hfiles
    exact .stdout hname hstdout (hfiles.trans hsame)
  obtain ⟨place, entry⟩ := o
  obtain ⟨⟨device, hentry⟩, hdestination, hsame⟩ | ⟨hentry, hdestination, -, hsame, hplace⟩ :=
    hmade
  · obtain rfl : entry = .device device := hentry
    rw [hdestination] at hstdout hfiles
    rw [hsame] at hopen
    exact .device hname hstdout hopen (hfiles.trans hsame)
  · obtain rfl : entry = .file [] := hentry
    rw [hdestination] at hstdout hfiles
    replace hfiles : d.files = outlet.files.put place (.file text) := hfiles
    refine @Delivers.file _ _ _ place hname hstdout ?_ fun other hother => ?_
    · rw [hfiles]
      exact FileTree.openAt_put_same hopen nofun text
    · have hroot := FileTree.ne_nil_of_not_leadsOn hplace
      rw [hfiles, FileTree.at?_put_of_ne hroot _ hother, hsame,
        FileTree.at?_put_of_ne hroot _ hother]

end Context

/-! ### The end of the conversion -/

/-- The buffer and the error once nothing more is converted. The last of the output is only written
if nothing has failed before. -/
def Converted.finish (c : Converted) : Buffered × Option Error :=
  match c.error with
  | some why => (c.out, some why)
  | none =>
    match c.out.flush with
    | (out, failure) => (out, failure.map .flush)

/-- Either nothing has failed up to the last write, which brings the sink all that the sources give,
or the command fails with what the buffer stands for by then. -/
theorem Converted.Covers.finish_cases {P : Bytes → Sink → Option Failure → Prop}
    (hP : Writer.Ledger P) {log : Logger} {text : Bytes} {said : List Notice}
    {read : List Source × Bool} {c : Converted}
    (h : Covers (Buffered.Carries P) log text said read c) :
    (read.2 = false ∧ (∃ failure, P (text ++ outputOf read.1) c.finish.1.sink failure ∧
        c.finish.2.isSome = failure.isSome) ∧
      (log.level ≠ .debug → c.notices = said ++ (diagnosticLines read.1).map Notice.line)) ∨
      c.finish.2.isSome ∧
        ∃ failure, Buffered.Carries P (text ++ outputOf read.1) c.finish.1 failure ∧
          (failure = none → read.2 = true) := by
  cases herror : c.error with
  | some why =>
      have hfinish : c.finish = (c.out, some why) := by rw [finish, herror]
      obtain ⟨failure, hcarries, hgoing, -⟩ := h
      rw [hfinish]
      refine .inr ⟨rfl, failure, hcarries, ?_⟩
      intro hnone
      rw [← (hgoing hnone).1, herror]
      rfl
  | none =>
      have hfinish : c.finish = (c.out.flush.1, c.out.flush.2.map .flush) := by
        rw [finish, herror]
      obtain ⟨hcarries, hread, hnotices⟩ := h.of_error herror
      rw [hfinish]
      refine .inl ⟨hread, ⟨c.out.flush.2, hcarries.flush_offered hP, ?_⟩, hnotices⟩
      rw [Option.isSome_map]

/-- **What comes of converting is settled by what there is to read and by the room for it.** It
fails exactly if an input does or if not all of the output fits, and otherwise the sink ends up with
all of it. -/
theorem Converted.Covers.finish_eq_none_iff {P : Bytes → Sink → Option Failure → Prop} {sink : Sink}
    (hP : sink.Takes P) {log : Logger} {text : Bytes} {said : List Notice}
    {read : List Source × Bool} {c : Converted}
    (h : Covers (Buffered.Carries P) log text said read c) :
    (c.finish.2 = none ↔ read.2 = false ∧ sink.Fits (text ++ outputOf read.1)) ∧
      (c.finish.2 = none → c.finish.1.sink.contents = text ++ outputOf read.1 ∧
        (log.level ≠ .debug → c.notices = said ++ (diagnosticLines read.1).map Notice.line)) := by
  obtain ⟨hread, ⟨failure, hoffered, hsame⟩, hnotices⟩ | ⟨herror, failure, hcarries, hbroken⟩ :=
    h.finish_cases hP.ledger
  · have hfailure : c.finish.2 = none ↔ failure = none := by
      rw [← Option.not_isSome_iff_eq_none, hsame, Option.not_isSome_iff_eq_none]
    rw [hfailure, hP.failure_iff hoffered]
    refine ⟨⟨fun hfits => ⟨hread, hfits⟩, fun hall => hall.2⟩, fun hfits => ⟨?_, hnotices⟩⟩
    obtain rfl := (hP.failure_iff hoffered).mpr hfits
    exact hP.contents hoffered
  · have hsome : c.finish.2 ≠ none := Option.isSome_iff_ne_none.mp herror
    refine ⟨iff_of_false hsome ?_, fun hnone => absurd hnone hsome⟩
    rintro ⟨hread, hfits⟩
    cases hcarries with
    | going =>
        rw [hbroken rfl] at hread
        cases hread
    | failed _ hsink hstart => cases (hP.failure_iff hsink).mpr (hfits.of_prefix hstart)

theorem finish_convertInput (log : Logger) (source : Source) {sink : Sink}
    (hempty : sink.contents = []) :
    let c := convertInput log source.name (.intake source.input) { sink }
    (c.finish.2 = none ↔ source.input.failure = none ∧ sink.Fits source.alone.out.contents) ∧
      (c.finish.2 = none → c.finish.1.sink.contents = source.alone.out.contents) := by
  dsimp only
  obtain ⟨P, hP⟩ := Sink.exists_takes hempty
  have hcovers := Converted.Covers.convertInput (Buffered.Carries.ledger hP.ledger)
    (.fresh hP.fresh) log source
  have houtput : [] ++ outputOf [source] = source.alone.out.contents := List.append_nil _
  have hfinish := hcovers.finish_eq_none_iff hP
  rw [houtput] at hfinish
  refine ⟨hfinish.1.trans (and_congr_left fun _ => ?_), fun hnone => (hfinish.2 hnone).1⟩
  simp

namespace Context

/-- The inputs once the output is open. -/
def inputsBeside (c : Context) (outlet : Outlet) : Inputs :=
  { c.inputs with files := outlet.files, output := outlet.destination.place? }

/-- What has become of the inputs before the last of the output is written. -/
def converted (c : Context) (outlet : Outlet) : Converted :=
  convertAll c.log (c.inputsBeside outlet) { sink := outlet.sink } c.names

variable {c : Context} {outlet : Outlet}

theorem convert_eq (h : c.openOutput c.output = .ok outlet) :
    c.convert =
      { stdout := outlet.shown (c.converted outlet).finish.1.sink.contents
        notices := (c.converted outlet).notices
        files := outlet.close (c.converted outlet).finish.1.sink.contents
        ending := .ofError? (c.converted outlet).finish.2 } := by
  unfold convert
  rw [h]
  rfl

theorem error?_convert (h : c.openOutput c.output = .ok outlet) :
    c.convert.error? = (c.converted outlet).finish.2 := by
  rw [convert_eq h, Completion.error?]
  cases (c.converted outlet).finish.2 <;> rfl

/-- The inputs that can be read and are apart from the output. -/
theorem read_inputsBeside (h : c.openOutput c.output = .ok outlet) (hstdin : c.stdin.failure = none)
    (hreadable : ∀ name ∈ c.words, name ≠ stdinName → c.Readable outlet name) :
    (c.inputsBeside outlet).read c.names = (c.sources, false) ∧
      ∀ name ∈ c.names, (c.inputsBeside outlet).Apart name := by
  have hnames : ∀ name ∈ c.names, name ≠ stdinName → name ∈ c.words := by
    intro name hname hne
    rw [names] at hname
    split at hname
    · exact absurd (List.mem_singleton.mp hname) hne
    · exact hname
  refine ⟨Inputs.read_eq_sources hstdin ?_, ?_⟩
  · intro name hname hne
    obtain ⟨o, hopen, hread, hapart⟩ := hreadable name (hnames name hname hne) hne
    rw [Inputs.intake?, if_neg hne]
    show (outlet.files.openAt c.place name).map _ = _
    rw [Outlet.openAt_files h hopen hapart]
    show Except.ok (o.intake name) = _
    rw [FileTree.intake_of_openAt hopen hread]
  · intro name hname hne o hopen'
    obtain ⟨o', hopen, -, hapart⟩ := hreadable name (hnames name hname hne) hne
    replace hopen' : outlet.files.openAt c.place name = .ok o := hopen'
    rw [Outlet.openAt_files h hopen hapart] at hopen'
    cases hopen'
    exact hapart

theorem covers_converted {P : Bytes → Sink → Option Failure → Prop} (hP : Writer.Ledger P)
    (hfresh : P [] outlet.sink none)
    (hapart : ∀ name ∈ c.names, (c.inputsBeside outlet).Apart name) :
    Converted.Covers (Buffered.Carries P) c.log [] [] ((c.inputsBeside outlet).read c.names)
      (c.converted outlet) :=
  .convertAllFrom (Buffered.Carries.ledger hP) (.fresh hfresh) hapart []

/-- A file has room for any text. -/
theorem fits_of_openOutput (h : c.openOutput c.output = .ok outlet) {text : Bytes}
    (hroom : outlet.destination.place? = none → ∀ n, outlet.sink.room = some n → text.length ≤ n) :
    outlet.sink.Fits text := by
  obtain ⟨-, ⟨-, hdestination, -⟩ | ⟨-, o, -, ⟨-, hdestination, -⟩ | ⟨-, -, hnone, -⟩⟩⟩ :=
    c.toInvocation.openOutput_cases h
  · exact hroom (by rw [hdestination]; rfl)
  · exact hroom (by rw [hdestination]; rfl)
  · intro n hsome
    cases hnone.symm.trans hsome

/-- If everything can be read and there is room for the output, nothing fails, and the sink ends up
with all of it. -/
theorem finish_converted (h : c.openOutput c.output = .ok outlet) (hstdin : c.stdin.failure = none)
    (hreadable : ∀ name ∈ c.words, name ≠ stdinName → c.Readable outlet name)
    (hfits : outlet.sink.Fits (outputOf c.sources)) :
    (c.converted outlet).finish.1.sink.contents = outputOf c.sources ∧
      (c.converted outlet).finish.2 = none ∧
      (c.log.level ≠ .debug →
        (c.converted outlet).notices = (diagnosticLines c.sources).map Notice.line) := by
  obtain ⟨hread, hapart⟩ := read_inputsBeside h hstdin hreadable
  obtain ⟨P, hP⟩ := Sink.exists_takes (c.toInvocation.openOutput_cases h).1
  have hcovers := covers_converted hP.ledger hP.fresh hapart
  rw [hread] at hcovers
  obtain ⟨hfinish, hdone⟩ := hcovers.finish_eq_none_iff hP
  have hnone := hfinish.mpr ⟨rfl, hfits⟩
  obtain ⟨hcontents, hnotices⟩ := hdone hnone
  exact ⟨hcontents, hnone, hnotices⟩

/-- **The inputs of one command are converted independently.** If all of them can be read, and the
output is a file or takes what they give, the command succeeds: the output gets what each input gives alone, in
the order of their names, and the error output gets their diagnostics in the same order. Without
names there is just the standard input. -/
theorem convert_delivers (c : Context) :
    ({ c with words := [] } : Context).convert =
        ({ c with words := [stdinName] } : Context).convert ∧
      ∀ outlet, c.openOutput c.output = .ok outlet →
        (outlet.destination.place? = none →
          ∀ n, outlet.sink.room = some n → (outputOf c.sources).length ≤ n) →
        c.log.level ≠ .debug → c.stdin.failure = none →
        (∀ name ∈ c.words, name ≠ stdinName → c.Readable outlet name) →
        c.convert.ending = .done ∧ c.Delivers (outputOf c.sources) c.convert ∧
          ∀ form stamp, ({ c.convert with form := form } : Completion).stderr stamp =
            (diagnosticLines c.sources).flatMap (· ++ [lf]) := by
  refine ⟨rfl, fun outlet hopen hroom hlog hstdin hreadable => ?_⟩
  obtain ⟨hcontents, herror, hnotices⟩ :=
    finish_converted hopen hstdin hreadable (fits_of_openOutput hopen hroom)
  have hconvert := convert_eq hopen
  rw [hcontents, herror, hnotices hlog] at hconvert
  refine ⟨?_, ?_, fun form stamp => ?_⟩
  · rw [hconvert]
    rfl
  · apply delivers_close hopen
    · rw [hconvert]
    · rw [hconvert]
  · rw [Completion.stderr, hconvert, List.flatMap_map]
    rfl

theorem convert_delivers_in_order :
    let c : Context :=
      { cwd := utf8 "/w"
        files := ⟨[([utf8 "w"], .directory),
          ([utf8 "w", utf8 "a.nw"], .file (utf8 "Intro.\n")),
          ([utf8 "w", utf8 "t"], .file (utf8 "@text tail\nbad\n"))]⟩
        stdin := ⟨utf8 "@text and\n", none⟩
        tokens := fun _ => []
        settings := {}
        log := ⟨.warn⟩
        output := utf8 "out.rst"
        words := [utf8 "a.nw", stdinName, utf8 "t", stdinName] }
    c.convert.ending = .done ∧ c.Delivers (utf8 "Intro.\n\nandtail") c.convert ∧
      ∀ form stamp, ({ c.convert with form := form } : Completion).stderr stamp =
        utf8 "t:2: Line too short or does not start with @\n" := by
  intro c
  let outlet : Outlet :=
    { sink := {}
      destination := .file [utf8 "w", utf8 "out.rst"]
      files := c.files.put [utf8 "w", utf8 "out.rst"] (.file []) }
  have hopen : c.openOutput c.output = .ok outlet := rfl
  have hnoweb : c.Readable outlet (utf8 "a.nw") :=
    ⟨⟨[utf8 "w", utf8 "a.nw"], .file (utf8 "Intro.\n")⟩, rfl, rfl, by decide⟩
  have htagged : c.Readable outlet (utf8 "t") :=
    ⟨⟨[utf8 "w", utf8 "t"], .file (utf8 "@text tail\nbad\n")⟩, rfl, rfl, by decide⟩
  have hreadable : ∀ name ∈ c.words, name ≠ stdinName → c.Readable outlet name := by
    simp [c, hnoweb, htagged]
  have hsources : outputOf c.sources = utf8 "Intro.\n\nandtail" := by decide +kernel
  have hlines : (diagnosticLines c.sources).flatMap (· ++ [lf]) =
      utf8 "t:2: Line too short or does not start with @\n" := by decide +kernel
  rw [← hsources, ← hlines]
  exact (convert_delivers c).2 outlet hopen nofun nofun rfl hreadable

/-- **A standard output with room for `n` bytes gets a start of what the inputs give, and nothing is
lost silently.** If no input fails, it gets all that fits, and the command fails if not all does. If
an input fails where there is room enough, so does the command, and no more is missing than the
buffer can hold. -/
theorem convert_limited (c : Context) {n : Nat} (hroom : c.stdoutRoom = some n)
    (hstdout : c.output = [] ∨ c.output = stdinName) :
    let read := c.inputs.read c.names
    let text := outputOf read.1
    c.convert.stdout <+: text ∧
      (read.2 = false →
        c.convert.stdout = text.take n ∧ (c.convert.error?.isSome ↔ n < text.length)) ∧
      (read.2 = true → text.length ≤ n →
        c.convert.error?.isSome ∧
          ∃ lost, text = c.convert.stdout ++ lost ∧ lost.length ≤ 4096) := by
  intro read text
  have hopen := c.toInvocation.openOutput_stdout hstdout
  have hfresh : Sink.Offered n [] c.stdoutSink none := by
    rw [Invocation.stdoutSink, hroom]
    exact .fresh n _
  have hcovers : Converted.Covers _ c.log [] [] read (c.converted c.stdoutOutlet) :=
    covers_converted (Sink.Offered.ledger n) hfresh fun name _ => Inputs.apart_of_output rfl name
  have hshown : c.convert.stdout = (c.converted c.stdoutOutlet).finish.1.sink.contents := by
    rw [convert_eq hopen]
    rfl
  rw [error?_convert hopen, hshown]
  obtain ⟨hread, ⟨failure, hoffered, hsame⟩, -⟩ | ⟨herror, failure, hcarries, hbroken⟩ :=
    hcovers.finish_cases (Sink.Offered.ledger n)
  · -- the last write settles it
    rw [List.nil_append] at hoffered
    refine ⟨?_, fun _ => ⟨hoffered.contents, ?_⟩, fun hfailed => ?_⟩
    · rw [hoffered.contents]
      exact List.take_prefix n text
    · rw [hsame]
      exact hoffered.failed
    · rw [hread] at hfailed
      cases hfailed
  · rw [List.nil_append] at hcarries
    refine ⟨hcarries.contents_isPrefix, ?_, ?_⟩
    · intro hread
      cases failure with
      | none =>
          rw [hbroken rfl] at hread
          cases hread
      | some why =>
          obtain ⟨hcontents, hlt⟩ := hcarries.contents_of_failed
          exact ⟨hcontents, iff_of_true herror hlt⟩
    · intro _ hle
      cases failure with
      | none => exact ⟨herror, hcarries.exists_missing⟩
      | some why => exact absurd hcarries.contents_of_failed.2 (Nat.not_lt.mpr hle)

theorem convert_limited_seven :
    let c (words : List Bytes) : Context :=
      { cwd := utf8 "/w"
        files := ⟨[([utf8 "w"], .directory), ([utf8 "w", utf8 "t"], .file (utf8 "@text world\n"))]⟩
        stdin := ⟨utf8 "@text hello\n", none⟩
        stdoutRoom := some 7
        tokens := fun _ => []
        settings := {}
        log := ⟨.warn⟩
        output := []
        words }
    ((c [stdinName, utf8 "t"]).convert.stdout = utf8 "hellowo" ∧
        (c [stdinName, utf8 "t"]).convert.error?.isSome) ∧
      (c [stdinName, utf8 "u"]).convert.error?.isSome ∧
        ∃ lost, utf8 "hello" = (c [stdinName, utf8 "u"]).convert.stdout ++ lost ∧
          lost.length ≤ 4096 := by
  intro c
  obtain ⟨-, hwhole, -⟩ := convert_limited (c [stdinName, utf8 "t"]) rfl (.inl rfl)
  obtain ⟨-, -, hbroken⟩ := convert_limited (c [stdinName, utf8 "u"]) rfl (.inl rfl)
  obtain ⟨hshown, herror⟩ := hwhole (by decide +kernel)
  refine ⟨⟨?_, ?_⟩, ?_⟩
  · rw [hshown]
    decide +kernel
  · rw [herror]
    decide +kernel
  · have htext : outputOf ((c [stdinName, utf8 "u"]).inputs.read [stdinName, utf8 "u"]).1 =
        utf8 "hello" := by decide +kernel
    rw [show (c [stdinName, utf8 "u"]).names = [stdinName, utf8 "u"] from rfl, htext] at hbroken
    exact hbroken (by decide +kernel) (by decide +kernel)

end Context

end Literate.Command
