import Literate.Proofs.Path.Safe

/-!
# Extensions

An extension starts at the last dot of a base name. There may be more dots in a row, and they matter
once the name is made safe, since dots are replaced in pairs from the left:

    prog.nw  ──▶  prog.nw        prog..nw  ──▶  prog_nw        prog...nw  ──▶  prog_.nw

`EndsIn` takes a path apart there. What sanitising does to these parts is said step by step:
`EndsIn.base`, `EndsIn.replaceByte` and `EndsIn.exists_undotted`.
-/

namespace Literate.Path

open Bytes

/-- How many dots there are in a row at the last dot of a path. -/
def extDots (path : Bytes) : Nat := ((path.rdropWhile (· != dot)).rtakeWhile (· == dot)).length

/-- The path ends in `word`, and right before that there are so many dots and no more. -/
structure EndsIn (path : Bytes) (dots : Nat) (word : Bytes) : Prop where
  exists_front : ∃ front : Bytes, path = front ++ (List.replicate dots dot ++ word) ∧
    front.getLast? ≠ some dot
  dot_not_mem : dot ∉ word

theorem exists_endsIn (path : Bytes) : ∃ word, EndsIn path (extDots path) word := by
  have hrun : List.replicate (extDots path) dot =
      (path.rdropWhile (· != dot)).rtakeWhile (· == dot) := by
    symm
    apply List.eq_replicate_of_mem
    intro b hb
    simpa using List.mem_rtakeWhile_imp hb
  let front := (path.rdropWhile (· != dot)).rdropWhile (· == dot)
  refine ⟨path.rtakeWhile (· != dot), ⟨front, ?_, ?_⟩, ?_⟩
  · rw [hrun, ← List.append_assoc, List.rdropWhile_append_rtakeWhile,
      List.rdropWhile_append_rtakeWhile]
  · intro hlast
    obtain ⟨hne, hdot⟩ := List.mem_getLast?_eq_getLast hlast
    apply List.rdropWhile_last_not _ _ hne
    rw [← hdot]
    rfl
  · intro hdot
    simpa using List.mem_rtakeWhile_imp hdot

theorem dot_not_mem_of_extDots {path : Bytes} (h : extDots path = 0) : dot ∉ path := by
  have hnil : path.rdropWhile (· != dot) = [] := by
    by_contra hne
    apply List.rtakeWhile_eq_nil_iff.mp (List.eq_nil_of_length_eq_zero h) hne
    simpa using List.rdropWhile_last_not _ _ hne
  intro hmem
  simpa using List.rdropWhile_eq_nil_iff.mp hnil dot hmem

/-- A path with a dot, taken apart at its last one. -/
theorem EndsIn.exists_append {path word : Bytes} {dots : Nat} (h : EndsIn path (dots + 1) word) :
    ∃ front, path = front ++ dot :: word := by
  obtain ⟨front, hpath, -⟩ := h.exists_front
  refine ⟨front ++ List.replicate dots dot, ?_⟩
  rw [hpath, List.replicate_succ']
  simp

theorem exists_append_of_dot_mem {path : Bytes} (h : dot ∈ path) :
    ∃ front word, path = front ++ dot :: word ∧ dot ∉ word := by
  obtain ⟨word, hends⟩ := exists_endsIn path
  cases hdots : extDots path with
  | zero => exact absurd h (dot_not_mem_of_extDots hdots)
  | succ dots =>
      rw [hdots] at hends
      obtain ⟨front, hpath⟩ := hends.exists_append
      exact ⟨front, word, hpath, hends.dot_not_mem⟩

/-! ### The extension of a path -/

theorem ext_of_dot_not_mem {path : Bytes} (h : dot ∉ path.rtakeWhile (· != slash)) :
    ext path = [] := by
  rw [List.rtakeWhile, List.mem_reverse] at h
  exact if_neg (by simpa using h)

theorem ext_append {front word : Bytes} (hdot : dot ∉ word) :
    ext (front ++ dot :: word) = if slash ∈ word then [] else dot :: word := by
  split
  · next hslash =>
    -- the last component starts within the word
    apply ext_of_dot_not_mem
    have hnot : slash ∉ (front ++ dot :: word).rtakeWhile (· != slash) :=
      fun hmem => by simpa using List.mem_rtakeWhile_imp hmem
    intro hmem
    rcases List.suffix_or_suffix_of_suffix (List.rtakeWhile_suffix (· != slash) _)
      (List.suffix_append front (dot :: word)) with h | h
    · rcases List.suffix_cons_iff.mp h with h | h
      · rw [h] at hnot
        exact hnot (List.mem_cons_of_mem dot hslash)
      · exact hdot (h.subset hmem)
    · exact hnot (h.subset (List.mem_cons_of_mem dot hslash))
  · next hslash =>
    have hlast : (front ++ dot :: word).reverse.takeWhile (· != slash) =
        word.reverse ++ dot :: front.reverse.takeWhile (· != slash) := by
      rw [List.reverse_append, List.reverse_cons, List.append_assoc,
        List.takeWhile_append_of_pos (bne_of_not_mem hslash)]
      rfl
    unfold ext
    dsimp only
    rw [hlast, if_pos (by simp), List.takeWhile_append_of_pos (bne_of_not_mem hdot),
      List.takeWhile_cons_of_neg (by decide)]
    simp

/-! ### Sanitising, step by step -/

namespace EndsIn

variable {path word : Bytes} {dots : Nat}

/-- A word without a slash is part of the last component, and so are the dots before it. -/
theorem base (h : EndsIn path dots word) (hslash : slash ∉ word) (hne : path ≠ [])
    (hlast : path.getLast? ≠ some slash) : EndsIn (base path) dots word := by
  obtain ⟨front, rfl, hfront⟩ := h.exists_front
  refine ⟨⟨front.rtakeWhile (· != slash), ?_, ?_⟩, h.dot_not_mem⟩
  · have htail : slash ∉ List.replicate dots dot ++ word := by
      rw [List.mem_append, not_or]
      refine ⟨fun hmem => ?_, hslash⟩
      exact absurd (List.eq_of_mem_replicate hmem) (by decide)
    rw [base_eq_rtakeWhile hne hlast, List.rtakeWhile, List.reverse_append,
      List.takeWhile_append_of_pos (bne_of_not_mem htail), List.reverse_append,
      List.reverse_reverse]
    rfl
  · intro hdot
    obtain ⟨start, hstart⟩ := List.rtakeWhile_suffix (· != slash) front
    rw [← hstart, List.getLast?_append, hdot] at hfront
    exact hfront rfl

theorem replaceByte (h : EndsIn path dots word) {old new : UInt8} (hold : old ≠ dot)
    (hnew : new ≠ dot) :
    EndsIn (replaceByte old new path) dots (replaceByte old new word) := by
  have hdots {b : UInt8} (hb : (if b = old then new else b) = dot) : b = dot := by
    split at hb
    · exact absurd hb hnew
    · exact hb
  obtain ⟨front, rfl, hfront⟩ := h.exists_front
  refine ⟨⟨Bytes.replaceByte old new front, ?_, ?_⟩, ?_⟩
  · simp [Bytes.replaceByte, hold.symm]
  · intro hlast
    rw [Bytes.replaceByte, List.getLast?_map, Option.map_eq_some_iff] at hlast
    obtain ⟨b, hlast, hb⟩ := hlast
    rw [hlast, hdots hb] at hfront
    exact hfront rfl
  · intro hmem
    obtain ⟨b, hmem, hb⟩ := List.mem_map.mp hmem
    exact h.dot_not_mem (hdots hb ▸ hmem)

/-- If there is a dot in the last component, nothing before that counts. -/
theorem slash_not_mem (h : EndsIn path dots word) (hne : path ≠ [])
    (hlast : path.getLast? ≠ some slash) (hdot : dot ∈ Path.base path) : slash ∉ word := by
  rw [base_eq_rtakeWhile hne hlast] at hdot
  obtain ⟨front, rfl, -⟩ := h.exists_front
  have hword : word <:+ front ++ (List.replicate dots dot ++ word) :=
    (List.suffix_append _ word).trans (List.suffix_append front _)
  intro hslash
  rcases List.suffix_or_suffix_of_suffix (List.rtakeWhile_suffix (· != slash) _) hword with hs | hs
  · exact h.dot_not_mem (hs.subset hdot)
  · simpa using List.mem_rtakeWhile_imp (hs.subset hslash)

theorem flat (h : EndsIn path dots word) (hslash : slash ∉ word) (hne : path ≠ [])
    (hlast : path.getLast? ≠ some slash) :
    EndsIn (flat path) dots (Bytes.replaceByte backslash underscore word) := by
  have hflat := ((h.base hslash hne hlast).replaceByte (show slash ≠ dot by decide)
    (show underscore ≠ dot by decide)).replaceByte (show backslash ≠ dot by decide)
    (show underscore ≠ dot by decide)
  rwa [replaceByte_of_not_mem hslash] at hflat

end EndsIn

theorem undotted_pair (rest : Bytes) : undotted (above ++ rest) = underscore :: undotted rest :=
  replaceAll_append (by decide) rest

theorem undotted_cons {b : UInt8} {rest : Bytes} (h : ¬ above <+: b :: rest) :
    undotted (b :: rest) = b :: undotted rest :=
  replaceAll_cons h

/-- Where there is no dot to the left, no pair of dots is cut in two. -/
theorem undotted_append {front : Bytes} (h : front.getLast? ≠ some dot) (rest : Bytes) :
    undotted (front ++ rest) = undotted front ++ undotted rest := by
  induction front using occurrence_induction (show above ≠ [] by decide) with
  | nil => rfl
  | occurrence front ih =>
      have hfront : front.getLast? ≠ some dot := by
        intro hlast
        rw [List.getLast?_append, hlast] at h
        exact h rfl
      rw [List.append_assoc, undotted_pair, undotted_pair, ih hfront]
      rfl
  | byte b front hb ih =>
      have hfront : front.getLast? ≠ some dot := by
        intro hlast
        rw [List.getLast?_cons, hlast] at h
        exact h rfl
      have hb' : ¬ above <+: b :: (front ++ rest) := by
        intro hpre
        cases front with
        | nil =>
            obtain ⟨rfl, -⟩ := List.cons_prefix_cons.mp hpre
            exact h rfl
        | cons c front =>
            obtain ⟨rfl, htail⟩ := List.cons_prefix_cons.mp hpre
            obtain ⟨rfl, -⟩ := List.cons_prefix_cons.mp htail
            exact hb (List.prefix_append above front)
      rw [List.cons_append, undotted_cons hb', undotted_cons hb, ih hfront]
      rfl

/-- Of dots in a row every two are replaced, and one is left if their number is odd. -/
theorem undotted_dots {word : Bytes} (hdot : dot ∉ word) :
    ∀ dots : Nat, undotted (List.replicate dots dot ++ word) =
      List.replicate (dots / 2) underscore ++ (List.replicate (dots % 2) dot ++ word)
  | 0 => by
    apply replaceAll_of_not_infix
    intro h
    exact hdot (h.subset (by decide))
  | 1 => by
    apply replaceAll_of_not_infix
    intro h
    rcases List.infix_cons_iff.mp h with h | h
    · obtain ⟨-, h⟩ := List.cons_prefix_cons.mp h
      exact hdot (h.subset (by decide))
    · exact hdot (h.subset (by decide))
  | dots + 2 => by
    have hpair := undotted_pair (List.replicate dots dot ++ word)
    have hhalf : (dots + 2) / 2 = dots / 2 + 1 := by omega
    have hrest : (dots + 2) % 2 = dots % 2 := by omega
    rw [undotted_dots hdot dots] at hpair
    rw [hhalf, hrest, List.replicate_succ]
    exact hpair

theorem EndsIn.exists_undotted {path word : Bytes} {dots : Nat} (h : EndsIn path dots word) :
    ∃ front, undotted path = front ++
      (List.replicate (dots / 2) underscore ++ (List.replicate (dots % 2) dot ++ word)) := by
  obtain ⟨front, rfl, hfront⟩ := h.exists_front
  exact ⟨undotted front, by rw [undotted_append hfront, undotted_dots h.dot_not_mem]⟩

end Literate.Path
