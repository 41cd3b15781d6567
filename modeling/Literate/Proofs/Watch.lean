import Literate.Proofs.Command.Replace
import Literate.Watch

/-!
# Converting a watched file

The output of a watcher is replaced as a whole or not at all (`Watcher.convert_all_or_nothing`).
The paths that a watcher keeps are clean (`Watcher.paths_of_create`), so without links input and
output are different places. By way of a link they may be one, and then the conversion overwrites
its input (`Watcher.convert_overwrites_input`).
-/

namespace Literate.Watcher

open Bytes Command FileTree Literate.Path

variable {w : Watcher} {log : Logger} {tokens : Nat → Bytes} {files : FileTree} {faults : Faults}
  {opened : Opened} {inNames outNames : List Bytes}

/-! ### The paths of a watcher -/

/-- The names on the way to the input and to the output of a watcher. -/
structure Paths (w : Watcher) (inNames outNames : List Bytes) : Prop where
  input_eq : w.input = rooted inNames
  output_eq : w.output = rooted outNames
  isName_input : ∀ name ∈ inNames, IsName name
  isName_output : ∀ name ∈ outNames, IsName name
  ne : inNames ≠ outNames

theorem paths_of_create {cwd input output : Bytes} {debounce : Int} (hcwd : isAbsolute cwd)
    (h : create cwd input output debounce = .ok w) :
    ∃ inNames outNames, w.Paths inNames outNames := by
  obtain ⟨inNames, hin, hinput⟩ := exists_absolute_eq_rooted hcwd input
  obtain ⟨outNames, hout, houtput⟩ := exists_absolute_eq_rooted hcwd output
  unfold create at h
  dsimp only at h
  split at h
  · cases h
  next hne =>
  cases h
  refine ⟨inNames, outNames, hinput, houtput, hin, hout, ?_⟩
  rintro rfl
  exact hne (hinput.trans houtput.symm)

/-! ### Filling the new output -/

/-- What the input is converted to, as it was opened. -/
def text (w : Watcher) (opened : Opened) : Bytes :=
  (Source.mk w.input (opened.intake w.input)).alone.out.contents

/-- The input can be read to its end, and the temporary file takes what it is converted to. -/
structure Provides (w : Watcher) (faults : Faults) (opened : Opened) : Prop where
  reads : faults.reading = none ∧ (opened.intake w.input).failure = none
  takes : ∀ n, faults.room = some n → (w.text opened).length ≤ n

theorem failure_intake_iff {path : Bytes} :
    (faults.intake path (opened.intake path)).failure = none ↔
      faults.reading = none ∧ (opened.intake path).failure = none := by
  rw [Faults.intake]
  cases faults.reading with
  | some reading => exact ⟨nofun, fun h => nomatch h.1⟩
  | none => exact (and_iff_right rfl).symm

theorem openInput_eq_ok_iff : w.openInput faults files = .ok opened ↔
    faults.opening = none ∧ files.openAt [] w.input = .ok opened := by
  rw [openInput]
  split
  · next why hopening =>
    refine ⟨nofun, ?_⟩
    rintro ⟨hnone, -⟩
    cases hopening.symm.trans hnone
  · next hopening => rw [and_iff_right hopening]

/-- **The new output is filled with the whole conversion of the input, or filling it fails.** -/
theorem finish_fill_cases (w : Watcher) (log : Logger) (faults : Faults) (files : FileTree)
    (tempPath : Bytes) :
    let done := (w.fill log faults files (faults.writer tempPath)).finish
    (done.2 = none ∧ ∃ opened, w.openInput faults files = .ok opened ∧ w.Provides faults opened ∧
        done.1.sink.contents = w.text opened) ∨
      done.2 ≠ none ∧
        ∀ opened, w.openInput faults files = .ok opened → ¬w.Provides faults opened := by
  dsimp only
  unfold fill
  cases hopen : w.openInput faults files with
  | error why => exact .inr ⟨nofun, nofun⟩
  | ok opened =>
      let source : Source := ⟨w.input, faults.intake w.input (opened.intake w.input)⟩
      have hsource (hreading : faults.reading = none) :
          source.alone.out.contents = w.text opened := by
        show (Source.mk w.input (faults.intake w.input _)).alone.out.contents = _
        rw [Faults.intake, hreading]
        rfl
      have hprovides : w.Provides faults opened ↔ source.input.failure = none ∧
          (faults.writer tempPath).sink.Fits source.alone.out.contents := by
        constructor
        · intro h
          refine ⟨failure_intake_iff.mpr h.reads, ?_⟩
          rw [hsource h.reads.1]
          exact h.takes
        · rintro ⟨hfailure, hfits⟩
          have hreads := failure_intake_iff.mp hfailure
          rw [hsource hreads.1] at hfits
          exact ⟨hreads, hfits⟩
      obtain ⟨hiff, hcontents⟩ :=
        @finish_convertInput log source (faults.writer tempPath).sink rfl
      rw [← hprovides] at hiff
      by_cases hprovided : w.Provides faults opened
      · have hnone := hiff.mpr hprovided
        exact .inl ⟨hnone, opened, rfl, hprovided,
          (hcontents hnone).trans (hsource hprovided.reads.1)⟩
      · refine .inr ⟨fun hnone => hprovided (hiff.mp hnone), ?_⟩
        rintro other ⟨⟩
        exact hprovided

/-! ### All or nothing -/

/-- What the input is opened as while there is a temporary file at `temp`: as what it was before, or,
if there was nothing where its path leads, as the temporary file, should this be there now. -/
def Finds (w : Watcher) (files : FileTree) (temp : Place) (opened : Opened) : Prop :=
  files.openAt [] w.input = .ok opened ∨
    files.resolve [] w.input = .ok ⟨temp, none⟩ ∧ ¬asksDirectory w.input ∧
      opened = ⟨temp, .file []⟩

/-- Nothing is in the way of a conversion of the input as it is opened: a temporary file can be
created, filled, closed, and moved to the output's place, where there is no directory. -/
structure Clear (w : Watcher) (tokens : Nat → Bytes) (files : FileTree) (faults : Faults)
    (opened : Opened) (place : Place) : Prop extends w.Provides faults opened where
  creates : faults.creating = none
  opens : faults.opening = none ∧ ∃ n temp,
    Workplace.FirstFree { cwd := [], files, tokens, faults } w.output n temp ∧
      w.Finds files temp opened
  closes : faults.closing = none
  moves : faults.moving = none ∧
    ∃ found, files.locate [] w.output = .ok ⟨place, found⟩ ∧ found ≠ some .directory

theorem openInput_put_iff {n : Nat} {temp : Place}
    (hfirst : Workplace.FirstFree { cwd := [], files, tokens, faults } w.output n temp) :
    w.openInput faults (files.put temp (.file [])) = .ok opened ↔
      faults.opening = none ∧ w.Finds files temp opened := by
  have hfree : files.at? temp = none := (entry_of_resolveTo hfirst.free).symm
  rw [openInput_eq_ok_iff, openAt_put_iff hfree, Finds]

/-- What it takes to replace the output is that nothing is in the way of the conversion. -/
theorem replaces_iff {place : Place} {contents : Bytes} :
    Replaces { cwd := [], files, tokens, faults } w.output (w.fill log faults) place contents ↔
      ∃ opened, w.Clear tokens files faults opened place ∧ contents = w.text opened := by
  constructor
  · rintro ⟨hcreates, ⟨n, temp, hfirst, hnone, hcontents⟩, hcloses, hmoves, htarget⟩
    obtain ⟨-, opened, hopen, hprovides, htext⟩ | ⟨hsome, -⟩ := w.finish_fill_cases log faults
      (files.put temp (.file [])) (tempPath w.output (tokens n))
    · obtain ⟨hopening, hfinds⟩ := (openInput_put_iff hfirst).mp hopen
      exact ⟨opened, ⟨hprovides, hcreates, ⟨hopening, n, temp, hfirst, hfinds⟩, hcloses,
        hmoves, htarget⟩, hcontents.symm.trans htext⟩
    · exact absurd hnone hsome
  · rintro ⟨opened, ⟨hprovides, hcreates, ⟨hopening, n, temp, hfirst, hfinds⟩, hcloses, hmoves,
      htarget⟩, rfl⟩
    have hopen := (openInput_put_iff hfirst).mpr ⟨hopening, hfinds⟩
    obtain ⟨hnone, other, hother, -, htext⟩ | ⟨-, hnot⟩ := w.finish_fill_cases log faults
      (files.put temp (.file [])) (tempPath w.output (tokens n))
    · cases hopen.symm.trans hother
      exact ⟨hcreates, ⟨n, temp, hfirst, hnone, htext⟩, hcloses, hmoves, htarget⟩
    · exact absurd hprovides (hnot opened hopen)

/-- What a conversion of the input as it was opened makes of the files if the output is at `place`.
Nothing but that place changes. Unless it was a link, the output is found there by its path, and so
is the input by its own as before, if it is elsewhere. Without links it always is. -/
structure Converted (w : Watcher) (files : FileTree) (opened : Opened) (place : Place)
    (files' : FileTree) : Prop where
  at_place : files'.at? place = some (.file (w.text opened))
  at_others : ∀ other ≠ place, files'.at? other = files.at? other
  opens_output : ¬(files.at? place).any Entry.isLink →
    files'.openAt [] w.output = .ok ⟨place, .file (w.text opened)⟩
  opens_input : ¬(files.at? place).any Entry.isLink → files.openAt [] w.input = .ok opened →
    opened.place ≠ place → files'.openAt [] w.input = .ok opened
  apart : (∀ there target, files.at? there ≠ some (.link target)) → opened.place ≠ place

/-- Where there are no links, input and output are apart. -/
theorem Paths.place_ne (h : w.Paths inNames outNames)
    (hlinks : ∀ there target, files.at? there ≠ some (.link target)) {last last' : Bool}
    {cwd cwd' : Place} {spot spot' : Spot} (hin : files.resolveTo last cwd w.input = .ok spot)
    (hout : files.resolveTo last' cwd' w.output = .ok spot') : spot.place ≠ spot'.place := by
  rw [h.input_eq] at hin
  rw [h.output_eq] at hout
  have hin := (leads_of_resolveTo_rooted h.isName_input hin).place_eq hlinks h.isName_input
  have hout := (leads_of_resolveTo_rooted h.isName_output hout).place_eq hlinks h.isName_output
  rw [hin, hout]
  exact h.ne

theorem Finds.exists_resolve {temp : Place} (h : w.Finds files temp opened) :
    ∃ found, files.resolve [] w.input = .ok ⟨opened.place, found⟩ := by
  obtain hopen | ⟨hresolve, -, rfl⟩ := h
  · exact ⟨_, (openAt_eq_ok_iff.mp hopen).1⟩
  · exact ⟨_, hresolve⟩

theorem Paths.converted (h : w.Paths inNames outNames) {place : Place}
    (hclear : w.Clear tokens files faults opened place) :
    w.Converted files opened place (files.put place (.file (w.text opened))) := by
  obtain ⟨-, found, hlocate, hfile⟩ := hclear.moves
  obtain ⟨-, n, temp, -, hfinds⟩ := hclear.opens
  obtain ⟨seen, hresolve⟩ := hfinds.exists_resolve
  have hentry : found = files.at? place := entry_of_resolveTo hlocate
  have hroot : place ≠ [] := ne_nil_of_at? (hentry ▸ hfile)
  have hplace (hlink : ¬(files.at? place).any Entry.isLink) : ¬LeadsOn (files.at? place) := by
    rintro (hdir | hlink')
    · exact hfile (hentry.trans hdir)
    · exact hlink hlink'
  refine ⟨at?_put_self hroot _, fun other => at?_put_of_ne hroot _, fun hlink => ?_,
    fun hlink hopen hapart => ?_, fun hlinks => h.place_ne hlinks hresolve hlocate⟩
  · have hthere := resolve_of_resolveTo hlocate (hentry ▸ hlink)
    refine openAt_eq_ok_iff.mpr ⟨resolveTo_put_same hthere (hplace hlink) _, ?_⟩
    rintro ⟨hasks, -⟩
    rw [h.output_eq] at hasks hlocate
    cases eq_nil_of_asksDirectory_rooted h.isName_output hasks
    cases (files.locate_root []).symm.trans hlocate
    exact hfile rfl
  · exact FileTree.openAt_put hopen (hplace hlink) hapart _

/-- **A conversion replaces the output as a whole or changes nothing.** If anything is in the way,
it fails and all files are as they were. If nothing is, what is at the output's place is what the
input is converted to, and everything else is what it was: no temporary file is left. -/
theorem convert_all_or_nothing {cwd input output : Bytes} {debounce : Int}
    (hcwd : isAbsolute cwd) (hw : create cwd input output debounce = .ok w)
    (htokens : ∀ n, slash ∉ tokens n) (log : Logger) (files : FileTree) (faults : Faults) :
    let done := w.convert log tokens files faults
    (done.error ≠ none ∧ done.files = files ∧
        ∀ opened place, ¬w.Clear tokens files faults opened place) ∨
      done.error = none ∧ ∃ opened place, w.Clear tokens files faults opened place ∧
        w.Converted files opened place done.files := by
  obtain ⟨inNames, outNames, h⟩ := paths_of_create hcwd hw
  have hcases := @replaceFile_cases { cwd := [], files, tokens, faults } outNames
    (w.fill log faults) h.isName_output htokens
  rw [← h.output_eq] at hcases
  obtain ⟨hnone, place, contents, hreplaces, hfiles⟩ | ⟨hsome, hfiles, hnot⟩ := hcases
  · right
    obtain ⟨opened, hclear, rfl⟩ := replaces_iff.mp hreplaces
    refine ⟨hnone, opened, place, hclear, ?_⟩
    have hdone : (w.convert log tokens files faults).files = _ := hfiles
    rw [hdone]
    exact h.converted hclear
  · left
    refine ⟨hsome, hfiles, fun opened place hclear => hnot place (w.text opened) ?_⟩
    exact replaces_iff.mpr ⟨opened, hclear, rfl⟩

theorem convert_all_or_nothing_taken :
    let w : Watcher :=
      { input := utf8 "/w/a.nw", output := utf8 "/w/out.rst", debounce := defaultDebounce }
    let files : FileTree :=
      ⟨[([utf8 "w"], .directory), ([utf8 "w", utf8 "a.nw"], .file (utf8 "Intro.\n")),
        ([utf8 "w", utf8 ".out.rst.0.tmp"], .link (utf8 "a.nw"))]⟩
    create (utf8 "/w") (utf8 "./a.nw") (utf8 "d/../out.rst") 0 = .ok w ∧
      (w.convert ⟨.warn⟩ decimal files).error = none ∧
      (w.convert ⟨.warn⟩ decimal files).files.contents? [] w.output = some (utf8 "Intro.\n\n") ∧
      (w.convert ⟨.warn⟩ decimal files { room := some 3 }).error ≠ none ∧
      (w.convert ⟨.warn⟩ decimal files { room := some 3 }).files = files := by
  intro w files
  have hcreate : create (utf8 "/w") (utf8 "./a.nw") (utf8 "d/../out.rst") 0 = .ok w := by
    decide +kernel
  have htokens : ∀ n, slash ∉ decimal n := by
    intro n hmem
    cases isDigit_of_mem_decimal hmem
  have hopen : files.openAt [] w.input =
      .ok ⟨[utf8 "w", utf8 "a.nw"], .file (utf8 "Intro.\n")⟩ := by
    rfl
  have hlocate : files.locate [] w.output = .ok ⟨[utf8 "w", utf8 "out.rst"], none⟩ := by
    rfl
  have htext : w.text ⟨[utf8 "w", utf8 "a.nw"], .file (utf8 "Intro.\n")⟩ = utf8 "Intro.\n\n" := by
    decide +kernel
  have hdone : (w.convert ⟨.warn⟩ decimal files).error = none := by
    decide +kernel
  have habsolute : isAbsolute (utf8 "/w") := rfl
  have hfound {faults : Faults} {opened : Opened} {place : Place}
      (hclear : w.Clear decimal files faults opened place) :
      opened = ⟨[utf8 "w", utf8 "a.nw"], .file (utf8 "Intro.\n")⟩ := by
    obtain ⟨-, n, temp, -, hfinds | ⟨hresolve, -⟩⟩ := hclear.opens
    · exact Except.ok.inj (hfinds.symm.trans hopen)
    · cases (openAt_eq_ok_iff.mp hopen).1.symm.trans hresolve
  refine ⟨hcreate, hdone, ?_, ?_⟩
  · obtain ⟨hfailed, -⟩ | ⟨-, opened, place, hclear, hconverted⟩ :=
      convert_all_or_nothing habsolute hcreate htokens ⟨.warn⟩ files {}
    · exact absurd hdone hfailed
    · obtain ⟨-, found, hthere, -⟩ := hclear.moves
      cases hlocate.symm.trans hthere
      rw [contents?, hconverted.opens_output Bool.false_ne_true, hfound hclear, htext]
  · obtain ⟨hfailed, hfiles, -⟩ | ⟨-, opened, place, hclear, -⟩ :=
      convert_all_or_nothing habsolute hcreate htokens ⟨.warn⟩ files { room := some 3 }
    · exact ⟨hfailed, hfiles⟩
    · have hshort := hclear.takes 3 rfl
      rw [hfound hclear, htext] at hshort
      exact absurd hshort (by decide)

/-- A watcher compares paths only: by way of a link that leads back, the output is the input, which
is then overwritten. And an input that does not exist is found after all, empty, if its path is that
of the temporary file. -/
theorem convert_overwrites_input :
    let aliased : Watcher :=
      { input := utf8 "/w/a.nw", output := utf8 "/w/back/a.nw", debounce := defaultDebounce }
    let absent : Watcher :=
      { input := utf8 "/w/.out.rst.0.tmp", output := utf8 "/w/out.rst", debounce := defaultDebounce }
    let files : FileTree :=
      ⟨[([utf8 "w"], .directory), ([utf8 "w", utf8 "a.nw"], .file (utf8 "x\n")),
        ([utf8 "w", utf8 "back"], .link (utf8 ".")),
        ([utf8 "w", utf8 "out.rst"], .file (utf8 "old"))]⟩
    (create (utf8 "/w") (utf8 "a.nw") (utf8 "back/a.nw") 0 = .ok aliased ∧
        files.contents? [] aliased.input = some (utf8 "x\n") ∧
        (aliased.convert ⟨.warn⟩ decimal files).error = none ∧
        (aliased.convert ⟨.warn⟩ decimal files).files.contents? [] aliased.input =
          some (utf8 "x\n\n")) ∧
      create (utf8 "/w") (utf8 ".out.rst.0.tmp") (utf8 "out.rst") 0 = .ok absent ∧
      files.contents? [] absent.input = none ∧
      (absent.convert ⟨.warn⟩ decimal files).error = none ∧
      (absent.convert ⟨.warn⟩ decimal files).files.contents? [] absent.output = some [] := by
  decide +kernel

end Literate.Watcher
