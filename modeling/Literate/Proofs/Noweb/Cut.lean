import Mathlib.Data.List.Infix
import Literate.Proofs.Bytes

/-!
# Cutting a line at its brackets

Documentation quotes code between `[[` and `]]`, and code uses a chunk between `<<` and `>>`. Either
way a line is cut at its bracketed parts, from the left:

    a [[b]] c [[d]] e [[f   ──▶   a [[b]], c [[d]], e [[f

A part goes from the first opening bracket to the first closing one after it, and the next part is
looked for behind that. `Brackets.IsLeftmost` says so of a cut without cutting anything, and
`IsLeftmost.unique` that a line has no more than one such cut. An opening bracket need not count:
in code one that is escaped does not.
-/

namespace Literate.Noweb

open Bytes

/-- A pair of brackets. An opening one counts or not, by what stands before it. -/
structure Brackets where
  opening : Bytes
  closing : Bytes
  counts : Bytes → Bool
  opening_ne : opening ≠ []
  closing_ne : closing ≠ []

/-- A part of a line in brackets, and what stands before it. -/
@[ext]
structure Bracketed where
  before : Bytes
  inside : Bytes
deriving DecidableEq, Repr

/-- A line cut at its bracketed parts. -/
structure Cut where
  parts : List Bracketed
  /-- What stands after the last of them. -/
  last : Bytes
deriving DecidableEq, Repr

namespace Brackets

variable (k : Brackets)

/-- The line that was cut. -/
def join (c : Cut) : Bytes :=
  c.parts.flatMap (fun p => p.before ++ k.opening ++ p.inside ++ k.closing) ++ c.last

/-- Some opening bracket counts. -/
def Opens (s : Bytes) : Prop := ∃ front rest, s = front ++ k.opening ++ rest ∧ k.counts front

/-- Some opening bracket counts and has the pattern behind it. -/
def OpensBefore (pattern s : Bytes) : Prop :=
  ∃ front rest, s = front ++ k.opening ++ rest ∧ k.counts front ∧ pattern <:+: rest

/-- An opening bracket after this text is the first one that counts: none starts in the text, not
even one that reaches over its end. -/
def IsFirst (front : Bytes) : Prop :=
  k.counts front ∧ ¬ k.Opens (front ++ k.opening.dropLast)

/-- Every bracketed part goes from the first opening bracket that counts to the first closing one
after it, and no such part is left. -/
structure IsLeftmost (c : Cut) : Prop where
  first : ∀ p ∈ c.parts, k.IsFirst p.before
  closed : ∀ p ∈ c.parts, ¬ k.closing <:+: p.inside ++ k.closing.dropLast
  last : ¬ k.OpensBefore k.closing c.last

@[simp] theorem join_nil (last : Bytes) : k.join ⟨[], last⟩ = last := rfl

@[simp] theorem join_cons (p : Bracketed) (parts : List Bracketed) (last : Bytes) :
    k.join ⟨p :: parts, last⟩ =
      p.before ++ k.opening ++ (p.inside ++ k.closing ++ k.join ⟨parts, last⟩) := by
  simp [join]

variable {k}

theorem isLeftmost_cons {p : Bracketed} {parts : List Bracketed} {last : Bytes} :
    k.IsLeftmost ⟨p :: parts, last⟩ ↔
      k.IsFirst p.before ∧ ¬ k.closing <:+: p.inside ++ k.closing.dropLast ∧
        k.IsLeftmost ⟨parts, last⟩ := by
  constructor
  · intro h
    have hfirst := List.forall_mem_cons.mp h.first
    have hclosed := List.forall_mem_cons.mp h.closed
    exact ⟨hfirst.1, hclosed.1, hfirst.2, hclosed.2, h.last⟩
  · intro ⟨hfirst, hclosed, h⟩
    exact ⟨List.forall_mem_cons.mpr ⟨hfirst, h.first⟩,
      List.forall_mem_cons.mpr ⟨hclosed, h.closed⟩, h.last⟩

/-! ### Looking for brackets -/

theorem opensBefore_iff {pattern s : Bytes} :
    k.OpensBefore pattern s ↔ ∃ i ∈ List.range (s.length + 1), k.opening <+: s.drop i ∧
      k.counts (s.take i) ∧ pattern <:+: s.drop (i + k.opening.length) := by
  constructor
  · intro ⟨front, rest, hs, hcounts, hin⟩
    subst hs
    refine ⟨front.length, ?_, ?_⟩
    · simp only [List.mem_range, List.length_append]
      omega
    · simpa [List.append_assoc] using ⟨hcounts, hin⟩
  · intro ⟨i, _, ⟨rest, hrest⟩, hcounts, hin⟩
    refine ⟨s.take i, rest, ?_, hcounts, ?_⟩
    · rw [List.append_assoc, hrest, List.take_append_drop]
    · rwa [← List.drop_drop, ← hrest, List.drop_left] at hin

instance (pattern s : Bytes) : Decidable (k.OpensBefore pattern s) :=
  decidable_of_iff _ opensBefore_iff.symm

theorem opensBefore_nil_iff {s : Bytes} : k.OpensBefore [] s ↔ k.Opens s := by
  simp [OpensBefore, Opens]

instance (s : Bytes) : Decidable (k.Opens s) := decidable_of_iff _ opensBefore_nil_iff

instance (front : Bytes) : Decidable (k.IsFirst front) := inferInstanceAs (Decidable (_ ∧ _))

/-! ### The first bracket -/

/-- If an opening bracket counts, there is a first one that does. -/
theorem Opens.exists_isFirst {s : Bytes} (h : k.Opens s) :
    ∃ front rest, s = front ++ k.opening ++ rest ∧ k.IsFirst front := by
  obtain ⟨front, rest, hs, hcounts⟩ := h
  -- on the length of the text before the bracket: an earlier one shortens it
  induction hn : front.length using Nat.strongRecOn generalizing front rest with
  | _ n ih =>
      by_cases hopens : k.Opens (front ++ k.opening.dropLast)
      · obtain ⟨front', rest', hfront, hcounts'⟩ := hopens
        have hpre : front' ++ k.opening <+: s := by
          have := @front_of_occurrence k.opening front rest
          rw [hfront, ← hs] at this
          exact (List.prefix_append _ rest').trans this
        obtain ⟨rest'', hs'⟩ := hpre
        have hlen := congrArg List.length hfront
        have hpos := List.length_pos_iff.mpr k.opening_ne
        simp only [List.length_append, List.length_dropLast] at hlen
        exact ih front'.length (by omega) front' rest'' hs'.symm hcounts' rfl
      · exact ⟨front, rest, hs, hcounts, hopens⟩

/-- The first opening bracket that counts comes before all others that do. -/
theorem IsFirst.length_le {s front rest front' rest' : Bytes} (h : k.IsFirst front)
    (hs : s = front ++ k.opening ++ rest) (hs' : s = front' ++ k.opening ++ rest')
    (hcounts : k.counts front') : front.length ≤ front'.length := by
  by_contra hlt
  apply h.2
  have hpos := List.length_pos_iff.mpr k.opening_ne
  have hfront : front ++ k.opening.dropLast <+: s := hs ▸ front_of_occurrence front rest
  have hother : front' ++ k.opening <+: s := hs' ▸ List.prefix_append _ _
  obtain ⟨tail, htail⟩ := List.prefix_of_prefix_length_le hother hfront (by
    simp only [List.length_append, List.length_dropLast]
    omega)
  exact ⟨front', tail, htail.symm, hcounts⟩

theorem IsFirst.unique {front rest front' rest' : Bytes} (h : k.IsFirst front)
    (h' : k.IsFirst front') (heq : front ++ k.opening ++ rest = front' ++ k.opening ++ rest') :
    front = front' ∧ rest = rest' := by
  have hle := h.length_le rfl heq h'.1
  have hle' := h'.length_le rfl heq.symm h.1
  rw [List.append_assoc, List.append_assoc] at heq
  obtain ⟨hfront, hrest⟩ := List.append_inj heq (Nat.le_antisymm hle hle')
  exact ⟨hfront, List.append_cancel_left hrest⟩

/-- What follows an opening bracket that counts ends what follows the first one. -/
theorem IsFirst.suffix {s front rest front' rest' : Bytes} (h : k.IsFirst front)
    (hs : s = front ++ k.opening ++ rest) (hs' : s = front' ++ k.opening ++ rest')
    (hcounts : k.counts front') : rest' <:+ rest := by
  have hle := h.length_le hs hs' hcounts
  have hlen := congrArg List.length (hs.symm.trans hs')
  simp only [List.length_append] at hlen
  exact List.suffix_of_suffix_length_le ⟨_, hs'.symm⟩ ⟨_, hs.symm⟩ (by omega)

/-- Whatever stands behind some opening bracket that counts stands behind the first one. -/
theorem IsFirst.opensBefore_iff {front rest pattern : Bytes} (h : k.IsFirst front) :
    k.OpensBefore pattern (front ++ k.opening ++ rest) ↔ pattern <:+: rest := by
  constructor
  · intro ⟨front', rest', hs, hcounts, hin⟩
    exact hin.trans (h.suffix rfl hs hcounts).isInfix
  · intro hin
    exact ⟨front, rest, rfl, h.1, hin⟩

theorem OpensBefore.opens {pattern s : Bytes} (h : k.OpensBefore pattern s) : k.Opens s := by
  obtain ⟨front, rest, hs, hcounts, -⟩ := h
  exact ⟨front, rest, hs, hcounts⟩

/-! ### The leftmost cut -/

theorem exists_isLeftmost (k : Brackets) (s : Bytes) : ∃ c, k.IsLeftmost c ∧ k.join c = s := by
  induction hn : s.length using Nat.strongRecOn generalizing s with
  | _ n ih =>
      by_cases hcloses : k.OpensBefore k.closing s
      · obtain ⟨front, rest, rfl, hfirst⟩ := hcloses.opens.exists_isFirst
        obtain ⟨⟨inside, after⟩, hbreak⟩ := Option.ne_none_iff_exists'.mp fun hnone =>
          (breakOn_eq_none_iff k.closing_ne).mp hnone (hfirst.opensBefore_iff.mp hcloses)
        obtain ⟨rfl, hclosed⟩ := (breakOn_eq_some_iff k.closing_ne).mp hbreak
        have hpos := List.length_pos_iff.mpr k.opening_ne
        simp only [List.length_append] at hn
        obtain ⟨⟨parts, last⟩, hleft, rfl⟩ := ih after.length (by omega) after rfl
        exact ⟨⟨⟨front, inside⟩ :: parts, last⟩, isLeftmost_cons.mpr ⟨hfirst, hclosed, hleft⟩,
          k.join_cons _ _ _⟩
      · exact ⟨⟨[], s⟩, ⟨by simp, by simp, hcloses⟩, rfl⟩

theorem not_isLeftmost_of_join_cons {p : Bracketed} {parts : List Bracketed} {last last' : Bytes}
    (hfirst : k.IsFirst p.before) (heq : last' = k.join ⟨p :: parts, last⟩) :
    ¬ k.IsLeftmost ⟨[], last'⟩ := by
  intro h
  apply h.last
  rw [heq, join_cons]
  exact hfirst.opensBefore_iff.mpr ⟨p.inside, k.join ⟨parts, last⟩, rfl⟩

/-- **A line has one leftmost cut.** -/
theorem IsLeftmost.unique {c c' : Cut} (h : k.IsLeftmost c) (h' : k.IsLeftmost c')
    (heq : k.join c = k.join c') : c = c' := by
  obtain ⟨parts, last⟩ := c
  obtain ⟨parts', last'⟩ := c'
  induction parts generalizing parts' with
  | nil =>
      cases parts' with
      | nil => rw [join_nil, join_nil] at heq; rw [heq]
      | cons p parts' =>
          exact absurd h (not_isLeftmost_of_join_cons (isLeftmost_cons.mp h').1 heq)
  | cons p parts ih =>
      obtain ⟨hfirst, hclosed, hrest⟩ := isLeftmost_cons.mp h
      cases parts' with
      | nil => exact absurd h' (not_isLeftmost_of_join_cons hfirst heq.symm)
      | cons p' parts' =>
          obtain ⟨hfirst', hclosed', hrest'⟩ := isLeftmost_cons.mp h'
          rw [join_cons, join_cons] at heq
          obtain ⟨hbefore, hinner⟩ := hfirst.unique hfirst' heq
          have hbreak := breakOn_append k.closing_ne hclosed (k.join ⟨parts, last⟩)
          rw [hinner, breakOn_append k.closing_ne hclosed'] at hbreak
          obtain ⟨hinside, hjoin⟩ := Prod.mk.inj (Option.some.inj hbreak)
          have hp : p = p' := Bracketed.ext hbefore hinside.symm
          have hparts := ih hrest parts' hrest' hjoin.symm
          cases hparts
          rw [hp]

end Brackets
end Literate.Noweb
