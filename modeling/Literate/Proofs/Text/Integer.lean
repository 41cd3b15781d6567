import Literate.Text.Integer
import Literate.Proofs.Bytes

/-!
# Reading whole numbers back

A number that is written in decimal is read as itself (`readInt?_decimalInt`).
-/

namespace Literate.Text

open Bytes

theorem digitsValue_decimal (n : Nat) : digitsValue (decimal n) = n := by
  have hdigit : ∀ d < 10, (digit d).toNat - 48 = d := by decide
  induction n using decimal.induct with
  | case1 n hn =>
      rw [decimal, if_pos hn]
      simp [digitsValue, hdigit n hn]
  | case2 n hn ih =>
      rw [digitsValue] at ih
      rw [decimal, if_neg hn, digitsValue, List.foldl_append, ih]
      simp only [List.foldl_cons, List.foldl_nil, hdigit _ (Nat.mod_lt n (by decide))]
      omega

theorem readNat?_decimal (n : Nat) : readNat? (decimal n) = some n := by
  rw [readNat?, if_neg, digitsValue_decimal]
  rw [Bool.or_eq_true, Bool.not_eq_true', List.isEmpty_iff, not_or, Bool.not_eq_false,
    List.all_eq_true]
  exact ⟨decimal_ne_nil n, fun _ => isDigit_of_mem_decimal⟩

theorem readInt?_of_digit {b : UInt8} (h : isDigit b) (s : Bytes) :
    readInt? (b :: s) = (readNat? (b :: s)).map Int.ofNat := by
  unfold readInt?
  split
  · next heq =>
    cases heq
    cases h
  · next heq =>
    cases heq
    cases h
  · rfl

theorem readInt?_decimalInt (n : Int) : readInt? (decimalInt n) = some n := by
  cases n with
  | ofNat n =>
      show readInt? (decimal n) = some (Int.ofNat n)
      cases hs : decimal n with
      | nil => exact absurd hs (decimal_ne_nil n)
      | cons b s =>
          have hb : isDigit b := isDigit_of_mem_decimal (n := n) (hs ▸ List.mem_cons_self)
          rw [readInt?_of_digit hb, ← hs, readNat?_decimal]
          rfl
  | negSucc n =>
      show (readNat? (decimal (n + 1))).map (fun n => -(n : Int)) = some (Int.negSucc n)
      rw [readNat?_decimal]
      rfl

end Literate.Text
