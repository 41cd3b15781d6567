import Mathlib.Algebra.Group.Nat.Defs
import Literate.Decimal.Shortest
import Literate.Proofs.Json.RoundTrip
import Literate.Proofs.Text.Integer

/-!
# Numbers in JSON

Whole numbers and floating-point figures are written as the format asks for: no zero leads, digits
stand on both sides of a point. A whole number is read back (`toInt?_int`).
-/

namespace Literate

open Bytes Text Json

namespace Bytes

/-- No zero leads. -/
theorem head?_decimal_ne {n : Nat} (h : 0 < n) : (decimal n).head? ≠ some 48 := by
  have hdigit : ∀ d < 10, 0 < d → digit d ≠ 48 := by decide
  induction n using decimal.induct with
  | case1 n hn =>
      rw [decimal, if_pos hn, List.head?_cons]
      exact fun h48 => hdigit n hn h (Option.some.inj h48)
  | case2 n hn ih =>
      rw [decimal, if_neg hn, List.head?_append_of_ne_nil _ (decimal_ne_nil _)]
      exact ih (by omega)

theorem length_decimal_eq_one {n : Nat} (h : n < 10) : (decimal n).length = 1 := by
  rw [decimal, if_pos h, List.length_singleton]

theorem pow_length_decimal_le {n : Nat} (h : 0 < n) : 10 ^ (decimal n).length ≤ 10 * n := by
  induction n using decimal.induct with
  | case1 n hn =>
      rw [length_decimal_eq_one hn]
      omega
  | case2 n hn ih =>
      have := ih (by omega)
      rw [decimal, if_neg hn, List.length_append, List.length_singleton, Nat.pow_succ]
      omega

end Bytes

namespace Json

theorem isDigits_iff {s : Bytes} : isDigits s ↔ s ≠ [] ∧ ∀ b ∈ s, isDigit b := by
  rw [isDigits, Bool.and_eq_true, List.all_eq_true, Bool.not_eq_true', List.isEmpty_eq_false_iff]

theorem isDigits_decimal (n : Nat) : isDigits (decimal n) :=
  isDigits_iff.mpr ⟨decimal_ne_nil n, fun _ => isDigit_of_mem_decimal⟩

/-- Digits of which the first is no zero, or the only one. -/
theorem isWhole_of_head {s : Bytes} (h : isDigits s) (hhead : s.length = 1 ∨ s.head? ≠ some 48) :
    isWhole s := by
  rw [isWhole, Bool.and_eq_true, Bool.or_eq_true, beq_iff_eq, bne_iff_ne]
  exact ⟨h, hhead⟩

theorem length_or_head?_decimal (n : Nat) :
    (decimal n).length = 1 ∨ (decimal n).head? ≠ some 48 := by
  by_cases h : n < 10
  · exact .inl (length_decimal_eq_one h)
  · exact .inr (head?_decimal_ne (by omega))

theorem isWhole_decimal (n : Nat) : isWhole (decimal n) :=
  isWhole_of_head (isDigits_decimal n) (length_or_head?_decimal n)

theorem isNumber_of_isWhole {sign s : Bytes} (hsign : sign = [] ∨ sign = [45]) (h : isWhole s) :
    isNumber (sign ++ s) := by
  have := @isNumber_append sign s [] hsign h rfl
  rwa [List.append_nil] at this

theorem isNumber_decimalInt (n : Int) : isNumber (decimalInt n) := by
  cases n with
  | ofNat n => exact @isNumber_of_isWhole [] _ (.inl rfl) (isWhole_decimal n)
  | negSucc n => exact @isNumber_of_isWhole [45] _ (.inr rfl) (isWhole_decimal (n + 1))

theorem Proper.int (n : Int) : (Json.int n).Proper := .number (isNumber_decimalInt n)

/-- **A whole number is read back.** -/
theorem toInt?_int (n : Int) : toInt? (.int n) = some n := readInt?_decimalInt n

end Json

/-! ### Figures -/

namespace Decimal

/-- A zero has no zeros behind it. -/
def Dec.Tidy (d : Dec) : Prop := d.digits = 0 → d.exponent ≤ 0

theorem Dec.Tidy.strip {d : Dec} (h : d.Tidy) : d.strip.Tidy := by
  induction d using Dec.strip.induct with
  | case1 d hd ih =>
      rw [Dec.strip, if_pos hd]
      refine ih fun hzero => ?_
      dsimp only at hzero
      omega
  | case2 d hd => rwa [Dec.strip, if_neg hd]

/-- No power of ten below a number's magnitude exceeds its whole part. -/
theorem exponent_neg_or_pow_le {value : Fraction} {exponent : Int}
    (h : exponent < magnitude value) :
    exponent < 0 ∨ 10 ^ exponent.toNat ≤ value.num / value.den := by
  unfold magnitude at h
  dsimp only at h
  split at h
  · next hwhole =>
    refine (Int.lt_or_le exponent 0).imp id fun hexponent => ?_
    have hpow := pow_length_decimal_le hwhole
    have hle : 10 ^ (exponent.toNat + 1) ≤ 10 ^ (decimal (value.num / value.den)).length :=
      Nat.pow_le_pow_right (by decide) (by omega)
    rw [Nat.pow_succ] at hle
    omega
  · exact .inl (by omega)

theorem Span.tidy_of_onGrid? {s : Span} {exponent : Int} {d : Dec}
    (hexponent : exponent < magnitude s.value) (h : s.onGrid? exponent = some d) : d.Tidy := by
  intro hzero
  have hdigits : d = ⟨s.value.num * (Fraction.scaled 1 10 exponent).den /
      (s.value.den * (Fraction.scaled 1 10 exponent).num), exponent⟩ := by
    unfold onGrid? at h
    dsimp only at h
    split at h
    · exact (Option.some.inj h).symm
    split at h
    · rw [← Option.some.inj h] at hzero
      cases hzero
    · cases h
  rw [hdigits] at hzero ⊢
  dsimp only at hzero ⊢
  by_contra hpos
  have hscaled : Fraction.scaled 1 10 exponent = ⟨10 ^ exponent.toNat, 1⟩ := by
    rw [Fraction.scaled, if_pos (by omega), Nat.one_mul]
    rfl
  have hpow := (exponent_neg_or_pow_le hexponent).resolve_left (by omega)
  rw [hscaled, Nat.mul_one, ← Nat.div_div_eq_div_mul] at hzero
  exact absurd hzero (Nat.ne_of_gt (Nat.div_pos hpow (Nat.pow_pos (by decide))))

theorem tidy_shortest (bits : UInt64) : (shortest bits).Tidy := by
  unfold shortest
  dsimp only
  split
  · next d hd =>
    obtain ⟨n, -, hn⟩ := List.exists_of_findSome?_eq_some hd
    exact (Span.tidy_of_onGrid? (by omega) hn).strip
  · exact fun _ => Int.le_refl 0

theorem isDigits_append {s t : Bytes} (hs : ∀ b ∈ s, isDigit b) (ht : isDigits t) :
    isDigits (s ++ t) := by
  obtain ⟨hne, hdigits⟩ := isDigits_iff.mp ht
  refine isDigits_iff.mpr ⟨List.append_ne_nil_of_right_ne_nil s hne, fun b hb => ?_⟩
  exact (List.mem_append.mp hb).elim (hs b) (hdigits b)

theorem isDigit_of_mem_replicate {n : Nat} {b : UInt8} (h : b ∈ List.replicate n 48) :
    isDigit b := by
  rw [(List.mem_replicate.mp h).2]
  rfl

/-- Digits behind a point, and perhaps an exponent. -/
theorem isFraction_point {s tail : Bytes} (h : isDigits s) (htail : isExponent tail) :
    isFraction (46 :: (s ++ tail)) := by
  have hhead : ∀ b ∈ tail.head?, isDigit b = false := by
    intro b hb
    cases tail with
    | nil => cases hb
    | cons x tail =>
        cases hb
        rw [isExponent, Bool.and_eq_true, Bool.or_eq_true, beq_iff_eq, beq_iff_eq] at htail
        rcases htail.1 with rfl | rfl <;> rfl
  obtain ⟨htake, hdrop⟩ := takeWhile_dropWhile_append (isDigits_iff.mp h).2 hhead
  rw [isFraction, List.head?_cons, if_pos rfl, List.drop_one, List.tail_cons, htake, hdrop,
    Bool.and_eq_true]
  exact ⟨h, htail⟩

theorem isFraction_digits {s : Bytes} (h : isDigits s) : isFraction (46 :: s) := by
  have := @isFraction_point s [] h rfl
  rwa [List.append_nil] at this

theorem isExponent_decimal {sign : UInt8} (hsign : sign = 43 ∨ sign = 45) (n : Nat) :
    isExponent (101 :: sign :: decimal n) := by
  rw [isExponent, List.head?_cons, if_pos (hsign.imp (congrArg some) (congrArg some))]
  exact isDigits_decimal n

theorem isDigits_drop_decimal {k n : Nat} (h : k < (decimal n).length) :
    isDigits ((decimal n).drop k) :=
  isDigits_iff.mpr ⟨by simpa using h, fun _ hb => isDigit_of_mem_decimal (List.mem_of_mem_drop hb)⟩

theorem isWhole_take_decimal {k n : Nat} (h : 0 < k) :
    isWhole ((decimal n).take k) := by
  have hne : (decimal n).take k ≠ [] := by
    simp [decimal_ne_nil, Nat.ne_of_gt h]
  refine isWhole_of_head (isDigits_iff.mpr ⟨hne, fun _ hb =>
    isDigit_of_mem_decimal (List.mem_of_mem_take hb)⟩) ?_
  rcases length_or_head?_decimal n with hone | hhead
  · refine .inl ?_
    rw [List.length_take, hone]
    omega
  · refine .inr ?_
    rwa [List.head?_take, if_neg (Nat.ne_of_gt h)]

theorem Dec.Tidy.isNumber_positional {d : Dec} (h : d.Tidy) {sign : Bytes}
    (hsign : sign = [] ∨ sign = [45]) : isNumber (sign ++ d.positional) := by
  unfold Dec.positional
  dsimp only
  split
  · next hexponent =>
    have hzeros : ∀ b ∈ List.replicate d.exponent.toNat 48, isDigit b := fun _ =>
      isDigit_of_mem_replicate
    refine isNumber_of_isWhole hsign (isWhole_of_head ?_ ?_)
    · refine isDigits_iff.mpr
        ⟨List.append_ne_nil_of_left_ne_nil (decimal_ne_nil _) _, fun b hb => ?_⟩
      exact (List.mem_append.mp hb).elim isDigit_of_mem_decimal (hzeros b)
    by_cases hzero : d.digits = 0
    · left
      have hnone : d.exponent.toNat = 0 := by
        have := h hzero
        omega
      rw [hzero, hnone, List.replicate_zero, List.append_nil]
      exact length_decimal_eq_one (by decide)
    · right
      rw [List.head?_append_of_ne_nil _ (decimal_ne_nil _)]
      exact head?_decimal_ne (Nat.pos_of_ne_zero hzero)
  split
  · have htext (s t : Bytes) : utf8 "0." ++ s ++ t = [48] ++ 46 :: (s ++ t) := rfl
    rw [htext]
    exact isNumber_append hsign rfl
      (isFraction_digits (isDigits_append (fun _ => isDigit_of_mem_replicate) (isDigits_decimal _)))
  · next hexponent hplaces =>
    exact isNumber_append hsign (isWhole_take_decimal (by omega))
      (isFraction_digits (isDigits_drop_decimal (by omega)))

theorem Dec.isNumber_scientific (d : Dec) {sign : Bytes} (hsign : sign = [] ∨ sign = [45]) :
    isNumber (sign ++ d.scientific) := by
  unfold scientific
  dsimp only
  have hexponent (e : Int) :
      isExponent ([101, if e < 0 then 45 else 43] ++ decimal e.natAbs) := by
    refine isExponent_decimal ?_ _
    split
    · exact .inr rfl
    · exact .inl rfl
  rw [List.append_assoc, List.append_assoc]
  refine isNumber_append hsign (isWhole_take_decimal Nat.one_pos) ?_
  split
  · exact hexponent _
  · next hlength =>
    have := List.length_pos_iff.mpr (decimal_ne_nil d.digits)
    exact isFraction_point (isDigits_drop_decimal (by omega)) (hexponent _)

/-- **Every figure is written as a number**, in any layout. -/
theorem isNumber_render (layout : Layout) (x : Float) : isNumber (render layout x) := by
  have hsign : (if x.toBits >>> 63 = 1 then ([45] : Bytes) else []) = [] ∨
      (if x.toBits >>> 63 = 1 then ([45] : Bytes) else []) = [45] := by
    split
    · exact .inr rfl
    · exact .inl rfl
  have htidy := tidy_shortest (x.toBits &&& 0x7FFFFFFFFFFFFFFF)
  rw [render]
  generalize (if x.toBits >>> 63 = 1 then ([45] : Bytes) else []) = sign at hsign
  generalize shortest (x.toBits &&& 0x7FFFFFFFFFFFFFFF) = d at htidy
  dsimp only
  split
  · exact isNumber_of_isWhole hsign rfl
  split
  · exact htidy.isNumber_positional hsign
  · exact d.isNumber_scientific hsign

end Decimal

end Literate
