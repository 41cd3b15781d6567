import Literate.Proofs.Command.Convert

/-!
# Writing to an input

The output is opened, and emptied, before the first input is read. An input that the output does not
go to is as it was when the command is done, whatever becomes of the command. One that it does go to
is lost: what was in it has no part in anything that the command leaves behind, not even in the
conversion that takes its place (`Context.convert_keeps_inputs`).
-/

namespace Literate.Command

/-- Two invocations in which a file can be created alike open it alike. -/
theorem Invocation.openOutput_congr {i i' : Invocation} {name : Bytes}
    (hname : ¬(name.isEmpty ∨ name = stdinName))
    (h : i'.files.create i'.place name = i.files.create i.place name) :
    i'.openOutput name = i.openOutput name := by
  rw [openOutput, openOutput, if_neg hname, if_neg hname, h]

/-- What is in the output file before it is opened does not matter. -/
theorem Invocation.openOutput_put {i : Invocation} {name : Bytes} {outlet : Outlet} {place : Place}
    (h : i.openOutput name = .ok outlet) (hplace : outlet.destination.place? = some place)
    (contents : Bytes) :
    ({ i with files := i.files.put place (.file contents) } : Invocation).openOutput name =
      .ok outlet := by
  by_cases hname : name.isEmpty ∨ name = stdinName
  · rw [openOutput, if_pos hname] at h
    cases h
    cases hplace
  rw [← h]
  apply openOutput_congr hname
  rw [openOutput, if_neg hname] at h
  cases hcreate : i.files.create i.place name with
  | error why =>
      rw [hcreate] at h
      cases h
  | ok created =>
      obtain ⟨files, there, entry⟩ := created
      rw [hcreate] at h
      obtain ⟨-, -, -, ⟨d, hdevice, -⟩ | ⟨hfile, -⟩⟩ := FileTree.create_cases hcreate
      · obtain rfl : entry = .device d := hdevice
        cases d <;> cases h <;> cases hplace
      · obtain rfl : entry = .file [] := hfile
        cases h
        cases hplace
        exact FileTree.create_put hcreate contents

/-- Once an output is closed, nothing has changed but the file that it goes to, if any. -/
theorem Outlet.close_cases {i : Invocation} {name : Bytes} {outlet : Outlet}
    (h : i.openOutput name = .ok outlet) (text : Bytes) :
    outlet.close text = i.files ∨ ∃ place, outlet.destination.place? = some place ∧
      ¬FileTree.LeadsOn (i.files.at? place) ∧
      outlet.close text = i.files.put place (.file text) := by
  rw [close]
  obtain ⟨-, ⟨-, hdestination, hfiles⟩ | ⟨-, o, -, hmade⟩⟩ := i.openOutput_cases h
  · rw [hdestination]
    exact .inl hfiles
  obtain ⟨-, hdestination, hfiles⟩ | ⟨-, hdestination, -, hfiles, hentry⟩ := hmade
  · rw [hdestination]
    exact .inl hfiles
  · rw [hdestination]
    refine .inr ⟨o.place, rfl, hentry, ?_⟩
    show outlet.files.put o.place (.file text) = _
    rw [hfiles, FileTree.put_put]

namespace Context

/-- The output goes to the file at this place. -/
def WritesTo (c : Context) (place : Place) : Prop :=
  ∃ outlet, c.openOutput c.output = .ok outlet ∧ outlet.destination.place? = some place

variable {c : Context} {place : Place}

theorem files_convert (c : Context) :
    c.convert.files = c.files ∨ ∃ place text, c.WritesTo place ∧
      ¬FileTree.LeadsOn (c.files.at? place) ∧
      c.convert.files = c.files.put place (.file text) := by
  cases hopen : c.openOutput c.output with
  | error why =>
      unfold convert
      rw [hopen]
      exact .inl rfl
  | ok outlet =>
      rw [convert_eq hopen]
      obtain hsame | ⟨place, hplace, hentry, hput⟩ := Outlet.close_cases hopen
        (c.converted outlet).finish.1.sink.contents
      · exact .inl hsame
      · exact .inr ⟨place, _, ⟨outlet, hopen, hplace⟩, hentry, hput⟩

theorem openAt_convert {name : Bytes} {o : FileTree.Opened}
    (h : c.files.openAt c.place name = .ok o) (hapart : ¬ c.WritesTo o.place) :
    c.convert.files.openAt c.place name = .ok o := by
  obtain hsame | ⟨place, text, hwrites, hentry, hput⟩ := c.files_convert
  · rw [hsame]
    exact h
  · rw [hput]
    apply FileTree.openAt_put h hentry
    rintro rfl
    exact hapart hwrites

theorem convert_put (h : c.WritesTo place) (contents : Bytes) :
    ({ c with files := c.files.put place (.file contents) } : Context).convert = c.convert := by
  obtain ⟨outlet, hopen, hplace⟩ := h
  have hopen' := Invocation.openOutput_put hopen hplace contents
  rw [convert_eq hopen]
  exact convert_eq hopen'

/-- **Converting leaves every input as it is, unless the output goes there.** Whatever comes of the
command, an input that its output does not go to is found as it was before. But if the output goes
to a file, be it an input or not, what was in that file has no part in anything that the command
leaves behind. -/
theorem convert_keeps_inputs (c : Context) :
    (∀ name ∈ c.words, ∀ o, c.files.openAt c.place name = .ok o → ¬ c.WritesTo o.place →
      c.convert.files.openAt c.place name = .ok o) ∧
    ∀ place, c.WritesTo place → ∀ contents : Bytes,
      ({ c with files := c.files.put place (.file contents) } : Context).convert = c.convert :=
  ⟨fun _ _ _ h hapart => openAt_convert h hapart, fun _ h contents => convert_put h contents⟩

/-- Of two inputs one is the output too. The other one stays, and what was in the first makes no
difference. -/
theorem convert_keeps_inputs_beside :
    let a := utf8 "a.nw"
    let b := utf8 "b.nw"
    let c (contents : Bytes) : Context :=
      { cwd := utf8 "/w"
        files := ⟨[([utf8 "w"], .directory), ([utf8 "w", a], .file contents),
          ([utf8 "w", b], .file (utf8 "y\n"))]⟩
        tokens := fun _ => []
        settings := {}
        log := ⟨.warn⟩
        output := utf8 "../w/a.nw"
        words := [b, a] }
    let before := c (utf8 "x\n")
    before.convert.files.contents? before.place b = some (utf8 "y\n") ∧
      (c []).convert = before.convert := by
  intro a b c before
  obtain ⟨hkeep, hlose⟩ := convert_keeps_inputs before
  have hwrites : before.WritesTo [utf8 "w", a] := ⟨_, rfl, rfl⟩
  have hapart : ¬ before.WritesTo [utf8 "w", b] := by
    rintro ⟨outlet, hopen, hplace⟩
    cases hopen
    revert hplace
    decide
  have hopen := hkeep b (by decide) ⟨[utf8 "w", b], .file (utf8 "y\n")⟩ rfl hapart
  refine ⟨?_, hlose _ hwrites []⟩
  rw [FileTree.contents?, hopen]

/-- An input that is the output too ends up neither as it was nor converted. -/
theorem convert_loses_input :
    let a := utf8 "a.nw"
    let c : Context :=
      { cwd := utf8 "/w"
        files := ⟨[([utf8 "w"], .directory), ([utf8 "w", a], .file (utf8 "x\n"))]⟩
        tokens := fun _ => []
        settings := {}
        log := ⟨.warn⟩
        output := a
        words := [a] }
    c.files.contents? c.place a = some (utf8 "x\n") ∧
      c.convert.files.contents? c.place a ≠ some (utf8 "x\n") ∧
      c.convert.files.contents? c.place a ≠ some (outputOf c.sources) := by
  decide +kernel

end Context

end Literate.Command
