import Mathlib.Tactic.ByContra
import Literate.Path
import Literate.Proofs.Bytes

/-!
# Laws of paths

A path from the root is clean if it is made of names: `rooted names`. Cleaning an absolute path
gives one of this form (`exists_clean_eq_rooted`), and different names make different paths, since
they are the components of the path (`components_rooted`).
-/

namespace Literate.Path

open Bytes

/-! ### Components -/

theorem splitOn_ne_nil (sep : UInt8) (s : Bytes) : splitOn sep s ≠ [] := by
  cases s with
  | nil => exact List.cons_ne_nil _ _
  | cons b s =>
      rw [splitOn, List.foldr_cons]
      split
      · exact List.cons_ne_nil _ _
      · split <;> exact List.cons_ne_nil _ _

theorem splitOn_cons_self (sep : UInt8) (s : Bytes) :
    splitOn sep (sep :: s) = [] :: splitOn sep s :=
  if_pos rfl

theorem splitOn_cons_of_ne {sep b : UInt8} (hb : b ≠ sep) {s piece : Bytes} {others : List Bytes}
    (h : splitOn sep s = piece :: others) : splitOn sep (b :: s) = (b :: piece) :: others := by
  rw [splitOn] at h
  rw [splitOn, List.foldr_cons, if_neg hb, h]

theorem splitOn_append_sep (sep : UInt8) (before after : Bytes) :
    splitOn sep (before ++ sep :: after) = splitOn sep before ++ splitOn sep after := by
  induction before with
  | nil => exact splitOn_cons_self sep after
  | cons b before ih =>
      obtain ⟨piece, others, hbefore⟩ := List.exists_cons_of_ne_nil (splitOn_ne_nil sep before)
      rw [hbefore] at ih
      rw [List.cons_append]
      by_cases hb : b = sep
      · subst hb
        rw [splitOn_cons_self, splitOn_cons_self, ih, hbefore]
        rfl
      · rw [splitOn_cons_of_ne hb ih, splitOn_cons_of_ne hb hbefore]
        rfl

theorem splitOn_of_not_mem {sep : UInt8} {s : Bytes} (h : sep ∉ s) : splitOn sep s = [s] := by
  induction s with
  | nil => rfl
  | cons b s ih =>
      have hb : b ≠ sep := Ne.symm (List.ne_of_not_mem_cons h)
      exact splitOn_cons_of_ne hb (ih (List.not_mem_of_not_mem_cons h))

theorem sep_not_mem_of_mem_splitOn {sep : UInt8} {s piece : Bytes} (h : piece ∈ splitOn sep s) :
    sep ∉ piece := by
  induction s generalizing piece with
  | nil =>
      obtain rfl := List.mem_singleton.mp h
      exact List.not_mem_nil
  | cons b s ih =>
      obtain ⟨first, others, hs⟩ := List.exists_cons_of_ne_nil (splitOn_ne_nil sep s)
      by_cases hb : b = sep
      · subst hb
        rw [splitOn_cons_self] at h
        rcases List.mem_cons.mp h with rfl | hmem
        · exact List.not_mem_nil
        · exact ih hmem
      · rw [splitOn_cons_of_ne hb hs] at h
        rw [hs] at ih
        rcases List.mem_cons.mp h with rfl | hmem
        · exact List.not_mem_cons_of_ne_of_not_mem (Ne.symm hb) (ih List.mem_cons_self)
        · exact ih (List.mem_cons_of_mem first hmem)

theorem components_append_slash (before after : Bytes) :
    components (before ++ slash :: after) = components before ++ components after := by
  rw [components, splitOn_append_sep, List.filter_append]
  rfl

theorem mem_components {path c : Bytes} (h : c ∈ components path) : c ≠ [] ∧ slash ∉ c := by
  obtain ⟨hmem, hne⟩ := List.mem_filter.mp h
  refine ⟨?_, sep_not_mem_of_mem_splitOn hmem⟩
  rintro rfl
  cases hne

/-! ### Paths from the root -/

/-- A name that something in a directory can have. -/
structure IsName (name : Bytes) : Prop where
  ne_nil : name ≠ []
  slash_not_mem : slash ∉ name
  ne_here : name ≠ here
  ne_above : name ≠ above

/-- The path that leads from the root along some names. -/
def rooted (names : List Bytes) : Bytes := slash :: join names

@[simp] theorem isAbsolute_rooted (names : List Bytes) : isAbsolute (rooted names) = true := rfl

variable {names init : List Bytes} {last : Bytes}

theorem bne_of_not_mem {sep : UInt8} {s : Bytes} (h : sep ∉ s) :
    ∀ b ∈ s.reverse, (b != sep) = true := by
  intro b hb
  rw [bne_iff_ne]
  rintro rfl
  exact h (List.mem_reverse.mp hb)

theorem components_of_isName {name : Bytes} (h : IsName name) : components name = [name] := by
  rw [components, splitOn_of_not_mem h.slash_not_mem, List.filter_cons_of_pos]
  · rfl
  · simp [h.ne_nil]

theorem components_join (h : ∀ name ∈ names, IsName name) : components (join names) = names := by
  induction names with
  | nil => rfl
  | cons name names ih =>
      obtain ⟨hname, hnames⟩ := List.forall_mem_cons.mp h
      cases names with
      | nil =>
          rw [join, List.flatMap_nil, List.append_nil]
          exact components_of_isName hname
      | cons second names =>
          have hjoin : join (name :: second :: names) =
              name ++ slash :: join (second :: names) := by
            simp [join]
          rw [hjoin, components_append_slash, components_of_isName hname, ih hnames]
          rfl

/-- **The components of a path made of names are these names.** -/
theorem components_rooted (h : ∀ name ∈ names, IsName name) :
    components (rooted names) = names := by
  have hslash : rooted names = [] ++ slash :: join names := rfl
  rw [hslash, components_append_slash, components_join h]
  rfl

theorem rooted_of_ne_nil (h : names ≠ []) : rooted names = names.flatMap (slash :: ·) := by
  cases names with
  | nil => exact absurd rfl h
  | cons name names => simp [rooted, join]

theorem rooted_append (init : List Bytes) (last : Bytes) :
    rooted (init ++ [last]) = init.flatMap (slash :: ·) ++ slash :: last := by
  rw [rooted_of_ne_nil (by simp), List.flatMap_append, List.flatMap_singleton]

/-! ### Cleaning -/

theorem foldl_cleanStep_of_isName {isRooted : Bool} (h : ∀ name ∈ names, IsName name)
    (kept : List Bytes) : names.foldl (cleanStep isRooted) kept = names.reverse ++ kept := by
  induction names generalizing kept with
  | nil => rfl
  | cons name names ih =>
      obtain ⟨hname, hnames⟩ := List.forall_mem_cons.mp h
      have hstep : cleanStep isRooted kept name = name :: kept := by
        rw [cleanStep.eq_def, if_neg hname.ne_here, if_neg hname.ne_above]
      rw [List.foldl_cons, hstep, ih hnames, List.reverse_cons, List.append_assoc]
      rfl

theorem clean_of_components {path : Bytes} (habsolute : isAbsolute path)
    (hnames : ∀ name ∈ components path, IsName name) : clean path = rooted (components path) := by
  unfold clean
  dsimp only
  rw [if_pos habsolute, foldl_cleanStep_of_isName hnames, List.append_nil, List.reverse_reverse]
  rfl

/-- At the root there is no way up, so all that is kept are names. -/
theorem isName_cleanStep {kept : List Bytes} (hkept : ∀ name ∈ kept, IsName name) {c : Bytes}
    (hc : c ≠ [] ∧ slash ∉ c) : ∀ name ∈ cleanStep true kept c, IsName name := by
  unfold cleanStep
  split
  · exact hkept
  next hhere =>
  split
  · split
    · obtain ⟨hlast, hothers⟩ := List.forall_mem_cons.mp hkept
      rw [if_neg hlast.ne_above]
      exact hothers
    · exact hkept
  next habove =>
  exact List.forall_mem_cons.mpr ⟨⟨hc.1, hc.2, hhere, habove⟩, hkept⟩

theorem isName_foldl_cleanStep {cs kept : List Bytes} (hkept : ∀ name ∈ kept, IsName name)
    (hcs : ∀ c ∈ cs, c ≠ [] ∧ slash ∉ c) :
    ∀ name ∈ cs.foldl (cleanStep true) kept, IsName name := by
  induction cs generalizing kept with
  | nil => exact hkept
  | cons c cs ih =>
      obtain ⟨hc, hrest⟩ := List.forall_mem_cons.mp hcs
      rw [List.foldl_cons]
      exact ih (isName_cleanStep hkept hc) hrest

/-- **Cleaning an absolute path leaves nothing but names.** -/
theorem exists_clean_eq_rooted {path : Bytes} (h : isAbsolute path) :
    ∃ names, (∀ name ∈ names, IsName name) ∧ clean path = rooted names := by
  refine ⟨((components path).foldl (cleanStep true) []).reverse, ?_, ?_⟩
  · intro name hname
    rw [List.mem_reverse] at hname
    exact isName_foldl_cleanStep (List.forall_mem_nil _) (fun c hc => mem_components hc) name hname
  · unfold clean
    dsimp only
    rw [h, if_pos rfl]
    rfl

theorem exists_absolute_eq_rooted {cwd : Bytes} (h : isAbsolute cwd) (path : Bytes) :
    ∃ names, (∀ name ∈ names, IsName name) ∧ absolute cwd path = rooted names := by
  rw [absolute]
  split
  · next hpath => exact exists_clean_eq_rooted hpath
  · apply exists_clean_eq_rooted
    rw [isAbsolute, decide_eq_true_eq] at h
    rw [isAbsolute, List.head?_append, h]
    rfl

/-! ### The last name -/

theorem getLast?_rooted (h : IsName last) (init : List Bytes) :
    (rooted (init ++ [last])).getLast? ≠ some slash := by
  rw [rooted_append, List.getLast?_append, List.getLast?_cons]
  intro hlast
  have hmem : slash ∈ last.getLast? := by
    cases hget : last.getLast? with
    | none => exact absurd (List.getLast?_eq_none_iff.mp hget) h.ne_nil
    | some b =>
        rw [hget] at hlast
        exact hlast
  exact h.slash_not_mem (List.mem_of_mem_getLast? hmem)

theorem reverse_rooted (init : List Bytes) (last : Bytes) : (rooted (init ++ [last])).reverse =
    last.reverse ++ slash :: (init.flatMap (slash :: ·)).reverse := by
  rw [rooted_append, List.reverse_append, List.reverse_cons, List.append_assoc]
  rfl

/-- The last component is what stands behind the last slash, unless the path ends there. -/
theorem base_eq_rtakeWhile {path : Bytes} (hne : path ≠ []) (hlast : path.getLast? ≠ some slash) :
    base path = path.rtakeWhile (· != slash) := by
  obtain ⟨b, before, hpath⟩ := List.exists_cons_of_ne_nil (List.reverse_ne_nil_iff.mpr hne)
  have hb : b ≠ slash := by
    rintro rfl
    rw [← List.head?_reverse, hpath] at hlast
    exact hlast rfl
  have hdrop : (path.reverse.dropWhile (· == slash)) = path.reverse := by
    rw [hpath]
    exact List.dropWhile_cons_of_neg (by simpa using hb)
  unfold base
  rw [if_neg (by simpa using hne)]
  dsimp only
  rw [hdrop, ← List.rtakeWhile, if_neg]
  rw [List.isEmpty_iff, List.rtakeWhile, List.reverse_eq_nil_iff, hpath,
    List.takeWhile_cons_of_pos (by simpa using hb)]
  exact List.cons_ne_nil _ _

theorem base_rooted (h : IsName last) (init : List Bytes) :
    base (rooted (init ++ [last])) = last := by
  have hne : rooted (init ++ [last]) ≠ [] := List.cons_ne_nil _ _
  rw [base_eq_rtakeWhile hne (getLast?_rooted h init), List.rtakeWhile, reverse_rooted,
    List.takeWhile_append_of_pos (bne_of_not_mem h.slash_not_mem),
    List.takeWhile_cons_of_neg (by decide), List.append_nil, List.reverse_reverse]

theorem dir_rooted (hinit : ∀ name ∈ init, IsName name) (h : IsName last) :
    dir (rooted (init ++ [last])) = rooted init := by
  have hdrop : ((rooted (init ++ [last])).reverse.dropWhile (· != slash)).reverse =
      init.flatMap (slash :: ·) ++ [slash] := by
    rw [reverse_rooted, List.dropWhile_append_of_pos (bne_of_not_mem h.slash_not_mem),
      List.dropWhile_cons_of_neg (by decide), List.reverse_cons, List.reverse_reverse]
  have hcomponents : components (init.flatMap (slash :: ·) ++ [slash]) = init := by
    rw [components_append_slash]
    cases init with
    | nil => rfl
    | cons name init =>
        rw [← rooted_of_ne_nil (List.cons_ne_nil name init), components_rooted hinit]
        exact List.append_nil _
  have habsolute : isAbsolute (init.flatMap (slash :: ·) ++ [slash]) := by
    cases init <;> rfl
  rw [dir, hdrop, clean_of_components habsolute, hcomponents]
  rwa [hcomponents]

end Literate.Path
