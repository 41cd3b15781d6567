import Literate.Proofs.Path

/-!
# Safe names

A name from outside is only ever shown, but it may be shown where it is taken for a path. So it is
made a base name without separators and without `..`:

    ../../etc/prog.nw  ──▶  prog.nw        ..\a  ──▶  __a        .  ──▶  (no name)

No step brings back what an earlier one has removed, and the safe names are those that stay as they
are (`IsSafe.sanitize_eq`).
-/

namespace Literate.Path

open Bytes

/-- The separator of other systems. -/
abbrev backslash : UInt8 := 92

/-- What stands where something was replaced. -/
abbrev underscore : UInt8 := 95

/-- A base name that says nothing about any directory, or no name at all. -/
structure IsSafe (name : Bytes) : Prop where
  slash_not_mem : slash ∉ name
  backslash_not_mem : backslash ∉ name
  above_not_infix : ¬ above <:+: name
  ne_here : name ≠ here

theorem isSafe_nil : IsSafe [] where
  slash_not_mem := List.not_mem_nil
  backslash_not_mem := List.not_mem_nil
  above_not_infix := by decide
  ne_here := by decide

/-- The last component without separators. It may still be `.`, and it may hold `..`. -/
def flat (name : Bytes) : Bytes :=
  replaceByte backslash underscore (replaceByte slash underscore (base name))

/-- The dots of a name in pairs, each replaced by one byte. -/
def undotted (name : Bytes) : Bytes := replaceAll above [underscore] name

theorem sanitize_eq {name : Bytes} (h : name ≠ []) :
    sanitize name = if undotted (flat name) = here then [] else undotted (flat name) := by
  unfold sanitize
  rw [if_neg (by simpa using h)]
  rfl

theorem mem_flat {name : Bytes} {b : UInt8} (h : b ∈ flat name) :
    b ∈ base name ∧ b ≠ slash ∧ b ≠ backslash ∨ b = underscore := by
  rcases mem_replaceByte h with ⟨h, hback⟩ | h
  · rcases mem_replaceByte h with ⟨h, hslash⟩ | h
    · exact .inl ⟨h, hslash, hback⟩
    · exact .inr h
  · exact .inr h

theorem mem_undotted {name : Bytes} {b : UInt8} (h : b ∈ undotted name) :
    b ∈ name ∨ b = underscore := by
  rcases mem_replaceAll (by decide) h with h | h
  · exact .inr (List.mem_singleton.mp h)
  · exact .inl h

/-! ### What a safe name is made of -/

theorem mem_base {path : Bytes} {b : UInt8} (h : b ∈ base path) :
    b ∈ path ∨ b = dot ∨ b = slash := by
  unfold base at h
  split at h
  · exact .inr (.inl (List.mem_singleton.mp h))
  · dsimp only at h
    split at h
    · exact .inr (.inr (List.mem_singleton.mp h))
    · rw [List.mem_reverse] at h
      have hmem := (List.dropWhile_suffix _).subset ((List.takeWhile_prefix _).subset h)
      exact .inl (List.mem_reverse.mp hmem)

/-- A safe name brings in no byte but `.` and `_`. -/
theorem mem_sanitize {name : Bytes} {b : UInt8} (h : b ∈ sanitize name) :
    b ∈ name ∨ b = dot ∨ b = underscore := by
  by_cases hname : name = []
  · subst hname
    cases h
  rw [sanitize_eq hname] at h
  split at h
  · cases h
  rcases mem_undotted h with h | h
  · rcases mem_flat h with ⟨h, hslash, -⟩ | h
    · rcases mem_base h with h | h | h
      · exact .inl h
      · exact .inr (.inl h)
      · exact absurd h hslash
    · exact .inr (.inr h)
  · exact .inr (.inr h)

theorem lf_not_mem_sanitize {name : Bytes} (h : lf ∉ name) : lf ∉ sanitize name := by
  intro hmem
  rcases mem_sanitize hmem with hname | hb | hb
  · exact h hname
  · exact absurd hb (by decide)
  · exact absurd hb (by decide)

/-! ### Safe names stay as they are -/

theorem base_of_slash_not_mem {name : Bytes} (hne : name ≠ []) (h : slash ∉ name) :
    base name = name := by
  have hlast : name.getLast? ≠ some slash := fun hlast => h (List.mem_of_getLast? hlast)
  rw [base_eq_rtakeWhile hne hlast, List.rtakeWhile_eq_self_iff]
  exact fun b hb => bne_of_not_mem h b (List.mem_reverse.mpr hb)

theorem IsSafe.sanitize_eq {name : Bytes} (h : IsSafe name) : sanitize name = name := by
  by_cases hne : name = []
  · rw [hne]
    rfl
  have hflat : flat name = name := by
    rw [flat, base_of_slash_not_mem hne h.slash_not_mem, replaceByte_of_not_mem h.slash_not_mem,
      replaceByte_of_not_mem h.backslash_not_mem]
  have hundotted : undotted name = name := replaceAll_of_not_infix h.above_not_infix
  rw [Path.sanitize_eq hne, hflat, hundotted, if_neg h.ne_here]

/-- The dots in pairs are replaced last, by a byte that is neither a dot nor a separator. -/
theorem isSafe_sanitize (name : Bytes) : IsSafe (sanitize name) := by
  by_cases hne : name = []
  · rw [hne]
    exact isSafe_nil
  have hmem {b : UInt8} (h : b ∈ undotted (flat name)) :
      b ≠ slash ∧ b ≠ backslash ∨ b = underscore := by
    rcases mem_undotted h with h | h
    · exact (mem_flat h).imp_left And.right
    · exact .inr h
  rw [sanitize_eq hne]
  split
  · exact isSafe_nil
  next hhere =>
  refine ⟨fun h => ?_, fun h => ?_, ?_, hhere⟩
  · exact absurd (hmem h) (by decide)
  · exact absurd (hmem h) (by decide)
  · have hapart : ∀ b ∈ above, b ∉ [underscore] := by
      show ∀ b ∈ [dot, dot], b ∉ [underscore]
      rw [List.forall_mem_cons, List.forall_mem_singleton]
      decide
    exact not_infix_replaceAll (by decide) (by decide) hapart (flat name)

/-- **Sanitising gives a safe name, and to do it twice is to do it once.** The names that it leaves
as they are are just the safe ones. -/
theorem sanitize_sanitize (name : Bytes) :
    IsSafe (sanitize name) ∧ sanitize (sanitize name) = sanitize name ∧
      (sanitize name = name ↔ IsSafe name) := by
  have hsafe := isSafe_sanitize name
  refine ⟨hsafe, hsafe.sanitize_eq, ?_, IsSafe.sanitize_eq⟩
  intro h
  rwa [h] at hsafe

end Literate.Path
