import Literate.Command.Replace
import Literate.Proofs.Command.Convert
import Literate.Proofs.FileTree
import Literate.Proofs.Path

/-!
# Replacing a file as a whole

A temporary name is longer than that of the file, and not in use before. So the temporary file is
neither in the way of the file itself nor of any other, wherever links lead, and removing it in the
end leaves either the files as they were or just the new file in its place (`replaceFile_cases`).
-/

namespace Literate.Command

open Bytes Literate.Path

/-! ### Temporary names -/

section TempName

variable {name token last : Bytes} {init : List Bytes}

theorem slash_mem_tempName : slash ∈ tempName name token ↔ slash ∈ name ∨ slash ∈ token := by
  have hdot : slash ≠ dot := by decide
  have hend : slash ∉ utf8 ".tmp" := by decide
  simp [tempName, hdot, hend]

theorem length_lt_length_tempName (name token : Bytes) :
    name.length + 5 < (tempName name token).length := by
  simp only [tempName, List.length_append, List.length_cons]
  have : (utf8 ".tmp").length = 4 := rfl
  omega

theorem isName_tempName (hname : slash ∉ name) (htoken : slash ∉ token) :
    IsName (tempName name token) := by
  have hlong := length_lt_length_tempName name token
  refine ⟨?_, ?_, ?_, ?_⟩
  · exact List.cons_ne_nil _ _
  · rw [slash_mem_tempName]
    exact not_or_intro hname htoken
  · intro heq
    have hshort : (tempName name token).length = 1 := by rw [heq]; rfl
    omega
  · intro heq
    have hshort : (tempName name token).length = 2 := by rw [heq]; rfl
    omega

theorem inDirectory_rooted (hinit : ∀ name ∈ init, IsName name) (last : Bytes) :
    inDirectory (rooted init) last = rooted (init ++ [last]) := by
  rw [rooted_append, inDirectory]
  rcases List.eq_nil_or_concat init with rfl | ⟨init', last', rfl⟩
  · rfl
  · have hlast' : IsName last' := hinit last' (by simp)
    rw [List.concat_eq_append, if_neg (getLast?_rooted hlast' init'), rooted_of_ne_nil (by simp)]

/-- **A temporary file is next to the file that it is for.** -/
theorem tempPath_rooted (hinit : ∀ name ∈ init, IsName name) (hlast : IsName last)
    (token : Bytes) :
    tempPath (rooted (init ++ [last])) token = rooted (init ++ [tempName last token]) := by
  rw [tempPath, dir_rooted hinit hlast, base_rooted hlast, inDirectory_rooted hinit]

end TempName

/-! ### The first name that is not in use -/

namespace Workplace

variable (w : Workplace) (path : Bytes)

/-- Something has the `n`-th temporary name already. -/
def Taken (n : Nat) : Prop :=
  ∃ there entry, w.files.locate w.cwd (tempPath path (w.tokens n)) = .ok ⟨there, some entry⟩

/-- The `n`-th temporary name can be used and leads to `temp`. -/
def Free (n : Nat) (temp : Place) : Prop :=
  w.files.locate w.cwd (tempPath path (w.tokens n)) = .ok ⟨temp, none⟩

/-- The `n`-th temporary name is the first that is not in use. -/
structure FirstFree (n : Nat) (temp : Place) : Prop where
  tried : n < tempAttempts
  taken : ∀ m < n, w.Taken path m
  free : w.Free path n temp

variable {w path} {n n' : Nat} {temp temp' : Place}

theorem Free.not_taken (h : w.Free path n temp) : ¬w.Taken path n := by
  rintro ⟨there, entry, htaken⟩
  cases h.symm.trans htaken

theorem FirstFree.eq (h : w.FirstFree path n temp) (h' : w.FirstFree path n' temp') :
    n = n' ∧ temp = temp' := by
  obtain rfl : n = n' := by
    rcases Nat.lt_trichotomy n n' with hlt | heq | hlt
    · exact absurd (h'.taken n hlt) h.free.not_taken
    · exact heq
    · exact absurd (h.taken n' hlt) h'.free.not_taken
  cases h.free.symm.trans h'.free
  exact ⟨rfl, rfl⟩

end Workplace

section CreateTemp

variable {w : Workplace} {path : Bytes} {made : FileTree × Place × Bytes}

theorem createTempFrom_eq_ok_iff {tries start : Nat} :
    createTempFrom w path tries start = .ok made ↔ w.faults.creating = none ∧
      ∃ n temp, start ≤ n ∧ n < start + tries ∧ (∀ m, start ≤ m → m < n → w.Taken path m) ∧
        w.Free path n temp ∧
        made = (w.files.put temp (.file []), temp, tempPath path (w.tokens n)) := by
  induction tries generalizing start with
  | zero =>
      refine ⟨nofun, ?_⟩
      rintro ⟨-, n, temp, hle, hlt, -⟩
      omega
  | succ tries ih =>
      -- nothing after a name that is not in use is tried
      have hfirst (hstart : ¬w.Taken path start) {n : Nat} (hle : start ≤ n)
          (htaken : ∀ m, start ≤ m → m < n → w.Taken path m) : n = start := by
        by_contra hne
        exact hstart (htaken start (Nat.le_refl start) (by omega))
      rw [createTempFrom]
      split
      · next why hresolve =>
        refine ⟨nofun, ?_⟩
        rintro ⟨-, n, temp, hle, -, htaken, hfree, -⟩
        have hstart : ¬w.Taken path start := by
          rintro ⟨there, entry, hthere⟩
          cases hresolve.symm.trans hthere
        obtain rfl := hfirst hstart hle htaken
        cases hresolve.symm.trans hfree
      · next there entry hresolve =>
        have hstart : w.Taken path start := ⟨there, entry, hresolve⟩
        rw [ih]
        refine and_congr_right fun _ => exists_congr fun n => exists_congr fun temp => ?_
        constructor
        · rintro ⟨hle, hlt, htaken, hrest⟩
          refine ⟨by omega, by omega, fun m hm hmn => ?_, hrest⟩
          rcases Nat.eq_or_lt_of_le hm with rfl | hlt
          · exact hstart
          · exact htaken m hlt hmn
        · rintro ⟨hle, hlt, htaken, hfree, hmade⟩
          have hne : n ≠ start := by
            rintro rfl
            exact hfree.not_taken hstart
          exact ⟨by omega, by omega, fun m hm => htaken m (by omega), hfree, hmade⟩
      · next place hresolve =>
        have hfree : w.Free path start place := hresolve
        split
        · next why hcreating =>
          refine ⟨nofun, ?_⟩
          rintro ⟨hnone, -⟩
          cases hcreating.symm.trans hnone
        · next hcreating =>
          constructor
          · intro h
            cases h
            exact ⟨hcreating, start, place, Nat.le_refl start, by omega, fun m hm hmn => by omega,
              hfree, rfl⟩
          · rintro ⟨-, n, temp, hle, -, htaken, hfree', rfl⟩
            obtain rfl := hfirst hfree.not_taken hle htaken
            cases hfree.symm.trans hfree'
            rfl

/-- **A temporary file is created under the first name that is not in use.** -/
theorem createTemp_eq_ok_iff : createTemp w path = .ok made ↔
    slash ∉ base path ∧ w.faults.creating = none ∧ ∃ n temp, w.FirstFree path n temp ∧
      made = (w.files.put temp (.file []), temp, tempPath path (w.tokens n)) := by
  have hpattern : (tempName (base path) anyToken).contains slash = true ↔ slash ∈ base path := by
    rw [List.contains_iff_mem, slash_mem_tempName]
    exact or_iff_left (by decide)
  unfold createTemp
  dsimp only
  split
  · next hcontains => exact ⟨nofun, fun h => absurd (hpattern.mp hcontains) h.1⟩
  · next hcontains =>
    rw [createTempFrom_eq_ok_iff, and_iff_right fun hmem => hcontains (hpattern.mpr hmem)]
    refine and_congr_right fun _ => exists_congr fun n => exists_congr fun temp => ?_
    constructor
    · rintro ⟨-, hlt, htaken, hfree, hmade⟩
      exact ⟨⟨by omega, fun m => htaken m (Nat.zero_le m), hfree⟩, hmade⟩
    · rintro ⟨⟨htried, htaken, hfree⟩, hmade⟩
      exact ⟨Nat.zero_le n, by omega, fun m _ => htaken m, hfree, hmade⟩

end CreateTemp

/-! ### Filling and moving -/

/-- The buffer and the error once nothing more is filled in. -/
def Filled.finish (f : Filled) : Buffered × Option Error :=
  ({ out := f.out, notices := f.notices, error := f.error } : Converted).finish

section Move

variable {w : Workplace} {files files' : FileTree} {temp : Place} {tempPath path contents : Bytes}

theorem moveTo_eq_ok_iff : moveTo w files temp tempPath path contents = .ok files' ↔
    w.faults.moving = none ∧ ∃ place found, files.locate w.cwd path = .ok ⟨place, found⟩ ∧
      found ≠ some .directory ∧ files' = (files.erase temp).put place (.file contents) := by
  rw [moveTo]
  split
  · next why hmoving =>
    refine ⟨nofun, ?_⟩
    rintro ⟨hnone, -⟩
    cases hmoving.symm.trans hnone
  next hmoving =>
  rw [and_iff_right hmoving]
  split
  · next why hresolve =>
    refine ⟨nofun, ?_⟩
    rintro ⟨place, found, hfound, -⟩
    cases hresolve.symm.trans hfound
  · next there hresolve =>
    refine ⟨nofun, ?_⟩
    rintro ⟨place, found, hfound, hfile, -⟩
    cases hresolve.symm.trans hfound
    exact absurd rfl hfile
  · next place found hfile hresolve =>
    constructor
    · intro h
      cases h
      exact ⟨place, found, hresolve, hfile, rfl⟩
    · rintro ⟨place', found', hfound, -, rfl⟩
      cases hresolve.symm.trans hfound
      rfl

/-- Filling and moving goes through if each step does; if one does not, nothing is moved. -/
theorem fillAndMove_cases (w : Workplace) (files : FileTree) (temp : Place) (tempPath path : Bytes)
    (fill : FileTree → Buffered → Filled) :
    let done := fillAndMove w files temp tempPath path fill
    let last := (fill files (w.faults.writer tempPath)).finish
    (done.2.2 = none ∧ last.2 = none ∧ w.faults.closing = none ∧
        moveTo w files temp tempPath path last.1.sink.contents = .ok done.1) ∨
      done.2.2 ≠ none ∧ done.1 = files ∧ ¬(last.2 = none ∧ w.faults.closing = none ∧
        ∃ files', moveTo w files temp tempPath path last.1.sink.contents = .ok files') := by
  dsimp only
  generalize hfilled : fill files (w.faults.writer tempPath) = filled
  unfold fillAndMove
  dsimp only
  rw [hfilled]
  cases herror : filled.error with
  | some why =>
      have hlast : filled.finish = (filled.out, some why) := by
        unfold Filled.finish Converted.finish
        rw [herror]
      rw [hlast]
      exact .inr ⟨nofun, rfl, fun h => nomatch h.1⟩
  | none =>
      have hlast : filled.finish = (filled.out.flush.1, filled.out.flush.2.map .flush) := by
        unfold Filled.finish Converted.finish
        rw [herror]
      rw [hlast]
      rcases filled.out.flush with ⟨out, _ | why⟩
      · cases hclosing : w.faults.closing with
        | some why => exact .inr ⟨nofun, rfl, fun h => nomatch h.2.1⟩
        | none =>
            dsimp only
            cases hmove : moveTo w files temp tempPath path out.sink.contents with
            | error why =>
                refine .inr ⟨nofun, rfl, ?_⟩
                rintro ⟨-, -, files', hmoved⟩
                cases hmoved
            | ok files' => exact .inl ⟨rfl, rfl, rfl, rfl⟩
      · exact .inr ⟨nofun, rfl, fun h => nomatch h.1⟩

end Move

/-! ### All or nothing -/

/-- What comes of filling the `n`-th temporary file for the file at `path`. -/
def Workplace.fillTemp (w : Workplace) (path : Bytes) (fill : FileTree → Buffered → Filled)
    (n : Nat) (temp : Place) : Buffered × Option Error :=
  (fill (w.files.put temp (.file [])) (w.faults.writer (tempPath path (w.tokens n)))).finish

/-- All that it takes to replace what `path` names, which is at `place`: a temporary file can be
created, filled with `contents`, closed, and moved to where there is no directory. -/
structure Replaces (w : Workplace) (path : Bytes) (fill : FileTree → Buffered → Filled)
    (place : Place) (contents : Bytes) : Prop where
  creates : w.faults.creating = none
  fills : ∃ n temp, w.FirstFree path n temp ∧ (w.fillTemp path fill n temp).2 = none ∧
    (w.fillTemp path fill n temp).1.sink.contents = contents
  closes : w.faults.closing = none
  moves : w.faults.moving = none
  target : ∃ found, w.files.locate w.cwd path = .ok ⟨place, found⟩ ∧ found ≠ some .directory

section Replace

variable {w : Workplace} {names init : List Bytes} {last : Bytes}
  {fill : FileTree → Buffered → Filled} {place : Place} {contents : Bytes}

/-- The root cannot be replaced. -/
theorem Replaces.ne_nil (h : Replaces w (rooted names) fill place contents) : names ≠ [] := by
  rintro rfl
  obtain ⟨found, hlocate, hfile⟩ := h.target
  cases (w.files.locate_root w.cwd).symm.trans hlocate
  exact hfile rfl

theorem slash_not_mem_base_iff (hnames : ∀ name ∈ names, IsName name) :
    slash ∉ base (rooted names) ↔ names ≠ [] := by
  rcases List.eq_nil_or_concat names with rfl | ⟨init, last, rfl⟩
  · exact iff_of_false (fun h => h (by decide)) (fun h => h rfl)
  · rw [List.concat_eq_append] at hnames ⊢
    have hlast : IsName last := hnames last (by simp)
    rw [base_rooted hlast]
    exact iff_of_true hlast.slash_not_mem (by simp)

theorem ne_tempName (last token : Bytes) : last ≠ tempName last token := by
  intro heq
  have hlong := length_lt_length_tempName last token
  rw [← heq] at hlong
  omega

variable (hinit : ∀ name ∈ init, IsName name) (hlast : IsName last)

include hinit hlast

theorem Workplace.Free.resolveTo_eq {n : Nat} (htoken : slash ∉ w.tokens n) {temp : Place}
    (h : w.Free (rooted (init ++ [last])) n temp) :
    w.files.resolveTo false w.cwd (rooted (init ++ [tempName last (w.tokens n)])) =
      .ok ⟨temp, none⟩ := by
  rw [Workplace.Free, tempPath_rooted hinit hlast,
    FileTree.locate_rooted (isName_tempName hlast.slash_not_mem htoken)] at h
  exact h

/-- A temporary name is never the name of the file itself, wherever the paths lead. -/
theorem place_ne_of_resolveTo {token : Bytes} (htoken : slash ∉ token) {files files' : FileTree}
    {cwd cwd' : Place} {spot spot' : Spot}
    (h : files.resolveTo false cwd (rooted (init ++ [last])) = .ok spot)
    (h' : files'.resolveTo false cwd' (rooted (init ++ [tempName last token])) = .ok spot') :
    spot.place ≠ spot'.place := by
  obtain ⟨dir, hplace⟩ := FileTree.exists_place_of_locate hinit hlast h
  obtain ⟨dir', hplace'⟩ :=
    FileTree.exists_place_of_locate hinit (isName_tempName hlast.slash_not_mem htoken) h'
  rw [hplace, hplace']
  intro heq
  exact ne_tempName last token (by simpa using (List.append_inj' heq rfl).2)

/-- A temporary file is moved as if it had not been there before. -/
theorem moveTo_put_iff {n : Nat} (htoken : slash ∉ w.tokens n) {temp : Place}
    (hfree : w.Free (rooted (init ++ [last])) n temp) {tempPath : Bytes} {files' : FileTree} :
    moveTo w (w.files.put temp (.file [])) temp tempPath (rooted (init ++ [last])) contents =
        .ok files' ↔
      w.faults.moving = none ∧ ∃ place found,
        w.files.locate w.cwd (rooted (init ++ [last])) = .ok ⟨place, found⟩ ∧
          found ≠ some .directory ∧ files' = w.files.put place (.file contents) := by
  have htemp := hfree.resolveTo_eq hinit hlast htoken
  have hnone : w.files.at? temp = none := (FileTree.entry_of_resolveTo htemp).symm
  rw [moveTo_eq_ok_iff, FileTree.erase_put hnone]
  refine and_congr_right fun _ => exists_congr fun place => exists_congr fun found => ?_
  rw [FileTree.locate_rooted hlast, FileTree.locate_rooted hlast]
  constructor
  · rintro ⟨hthere, hrest⟩
    have hapart : place ≠ temp := place_ne_of_resolveTo hinit hlast htoken hthere htemp
    exact ⟨(FileTree.resolveTo_put_iff hnone hapart []).mp hthere, hrest⟩
  · rintro ⟨hthere, hrest⟩
    have hapart : place ≠ temp := place_ne_of_resolveTo hinit hlast htoken hthere htemp
    exact ⟨(FileTree.resolveTo_put_iff hnone hapart []).mpr hthere, hrest⟩

/-- **A file is replaced as a whole, or nothing happens**, once there is a temporary file. -/
theorem fillAndMove_remove_cases {n : Nat} (htoken : slash ∉ w.tokens n) {temp : Place}
    (hcreates : w.faults.creating = none)
    (hfirst : w.FirstFree (rooted (init ++ [last])) n temp) :
    let path := rooted (init ++ [last])
    let done := fillAndMove w (w.files.put temp (.file [])) temp (tempPath path (w.tokens n)) path
      fill
    let files := done.1.remove w.cwd (tempPath path (w.tokens n))
    (done.2.2 = none ∧ ∃ place contents, Replaces w path fill place contents ∧
        files = w.files.put place (.file contents)) ∨
      done.2.2 ≠ none ∧ files = w.files ∧ ∀ place contents, ¬Replaces w path fill place contents := by
  intro path done files
  have htemp := hfirst.free.resolveTo_eq hinit hlast htoken
  have hpath := tempPath_rooted hinit hlast (w.tokens n)
  obtain ⟨herror, hfilled, hcloses, hmove⟩ | ⟨herror, hfiles, hnot⟩ := fillAndMove_cases w
    (w.files.put temp (.file [])) temp (tempPath path (w.tokens n)) path fill
  · obtain ⟨hmoves, place, found, hlocate, hfile, hfiles⟩ :=
      (moveTo_put_iff hinit hlast htoken hfirst.free).mp hmove
    refine .inl ⟨herror, place, _,
      ⟨hcreates, ⟨n, temp, hfirst, hfilled, rfl⟩, hcloses, hmoves, found, hlocate, hfile⟩, ?_⟩
    -- the temporary file has been moved away, so there is nothing to remove
    rw [FileTree.locate_rooted hlast] at hlocate
    obtain ⟨dir, hdir⟩ := FileTree.exists_place_of_locate hinit hlast hlocate
    have hroot : place ≠ [] := by
      rw [show place = dir ++ [last] from hdir]
      simp
    have hgone := FileTree.remove_of_free htemp hroot (w.fillTemp path fill n temp).1.sink.contents
      fun spot hspot => (place_ne_of_resolveTo hinit hlast htoken hlocate hspot).symm
    rw [← hpath] at hgone
    show done.1.remove w.cwd _ = _
    rw [show done.1 = _ from hfiles]
    exact hgone
  · refine .inr ⟨herror, ?_, ?_⟩
    · show done.1.remove w.cwd _ = _
      rw [show done.1 = _ from hfiles, hpath]
      exact FileTree.remove_put (isName_tempName hlast.slash_not_mem htoken) htemp []
    · rintro place contents ⟨-, ⟨n', temp', hfirst', hfilled, -⟩, hcloses, hmoves, found, hlocate,
        hfile⟩
      obtain ⟨rfl, rfl⟩ := hfirst.eq hfirst'
      exact hnot ⟨hfilled, hcloses, _, (moveTo_put_iff hinit hlast htoken hfirst.free).mpr
        ⟨hmoves, place, found, hlocate, hfile, rfl⟩⟩

omit hinit hlast

/-- **A file is replaced as a whole, or nothing happens.** -/
theorem replaceFile_cases (hnames : ∀ name ∈ names, IsName name)
    (htokens : ∀ n, slash ∉ w.tokens n) :
    let done := replaceFile w (rooted names) fill
    (done.2.2 = none ∧ ∃ place contents, Replaces w (rooted names) fill place contents ∧
        done.1 = w.files.put place (.file contents)) ∨
      done.2.2 ≠ none ∧ done.1 = w.files ∧
        ∀ place contents, ¬Replaces w (rooted names) fill place contents := by
  dsimp only
  unfold replaceFile
  cases hcreate : createTemp w (rooted names) with
  | error why =>
      refine .inr ⟨nofun, rfl, fun place contents h => ?_⟩
      obtain ⟨n, temp, hfirst, -⟩ := h.fills
      have hmade := createTemp_eq_ok_iff.mpr
        ⟨(slash_not_mem_base_iff hnames).mpr h.ne_nil, h.creates, n, temp, hfirst, rfl⟩
      cases hcreate.symm.trans hmade
  | ok made =>
      obtain ⟨hbase, hcreates, n, temp, hfirst, rfl⟩ := createTemp_eq_ok_iff.mp hcreate
      rcases List.eq_nil_or_concat names with rfl | ⟨init, last, rfl⟩
      · exact absurd rfl ((slash_not_mem_base_iff hnames).mp hbase)
      rw [List.concat_eq_append] at hnames hfirst ⊢
      obtain ⟨hinit, hlast⟩ := List.forall_mem_append.mp hnames
      rw [List.forall_mem_singleton] at hlast
      exact fillAndMove_remove_cases hinit hlast (htokens n) hcreates hfirst

end Replace

end Literate.Command
