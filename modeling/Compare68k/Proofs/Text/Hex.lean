import Compare68k.Text.Hex
import Compare68k.Text.Numeral
import Mathlib.Algebra.Group.Nat.Defs
/-!
# Hexadecimal text can be read back

The digits of a number stand for the number again, padded or not, and a number below a power of
sixteen has no more digits than the power.
-/

namespace Compare68k.Text

theorem Numeral.value_concat (base : Nat) (cs : List Char) (c : Char) :
    value base (cs ++ [c]) = value base cs * base + (digitValue? c).getD 0 := by
  rw [value, List.foldl_append]
  rfl

theorem Numeral.value_cons_zero (base : Nat) (cs : List Char) :
    value base ('0' :: cs) = value base cs := by
  rw [value, List.foldl_cons, Nat.zero_mul]
  rfl

namespace Hex

theorem digitValue?_digit {n : Nat} (h : n < 16) : Numeral.digitValue? (digit n) = some n := by
  revert h
  revert n
  decide

theorem isDigit_digit {n : Nat} (h : n < 16) : Numeral.isDigit 16 (digit n) = true := by
  rw [Numeral.isDigit, digitValue?_digit h]
  exact decide_eq_true h

theorem isDigit_of_mem_digits (n : Nat) : ∀ c ∈ digits n, Numeral.isDigit 16 c = true := by
  induction n using digits.induct with
  | case1 n h =>
    rw [digits, if_pos h]
    exact List.forall_mem_singleton.mpr (isDigit_digit h)
  | case2 n h ih =>
    rw [digits, if_neg h]
    refine List.forall_mem_append.mpr ⟨ih, List.forall_mem_singleton.mpr ?_⟩
    exact isDigit_digit (Nat.mod_lt n (by decide))

theorem value_digits (n : Nat) : Numeral.value 16 (digits n) = n := by
  induction n using digits.induct with
  | case1 n h =>
    rw [digits, if_pos h]
    show 0 * 16 + (Numeral.digitValue? (digit n)).getD 0 = n
    rw [digitValue?_digit h, Nat.zero_mul, Nat.zero_add]
    rfl
  | case2 n h ih =>
    rw [digits, if_neg h, Numeral.value_concat, ih, digitValue?_digit (Nat.mod_lt n (by decide))]
    exact Nat.div_add_mod' n 16

theorem length_digits_le {n width : Nat} (h : n < 16 ^ (width + 1)) :
    (digits n).length ≤ width + 1 := by
  induction width generalizing n with
  | zero =>
    have hlt : n < 16 := by simpa using h
    rw [digits, if_pos hlt]
    exact Nat.le_refl 1
  | succ width ih =>
    rw [digits]
    split
    · exact Nat.succ_le_succ (Nat.zero_le _)
    · have hdiv : n / 16 < 16 ^ (width + 1) := Nat.div_lt_of_lt_mul (by rwa [Nat.pow_succ'] at h)
      rw [List.length_append]
      exact Nat.succ_le_succ (ih hdiv)

theorem toList_text (n : Nat) : (text n).toList = digits n :=
  String.toList_ofList

theorem toList_padded (width n : Nat) :
    (padded width n).toList = List.replicate (width - (digits n).length) '0' ++ digits n :=
  String.toList_ofList

theorem isDigit_of_mem_padded (width n : Nat) :
    ∀ c ∈ (padded width n).toList, Numeral.isDigit 16 c = true := by
  rw [toList_padded]
  refine List.forall_mem_append.mpr ⟨fun c hc => ?_, isDigit_of_mem_digits n⟩
  rw [List.eq_of_mem_replicate hc]
  rfl

theorem value_padded (width n : Nat) : Numeral.value 16 (padded width n).toList = n := by
  rw [toList_padded]
  induction width - (digits n).length with
  | zero => exact value_digits n
  | succ k ih => rw [List.replicate_succ, List.cons_append, Numeral.value_cons_zero, ih]

theorem length_padded {n width : Nat} (h : n < 16 ^ (width + 1)) :
    (padded (width + 1) n).toList.length = width + 1 := by
  have hle := length_digits_le h
  rw [toList_padded, List.length_append, List.length_replicate]
  exact Nat.sub_add_cancel hle

end Hex

end Compare68k.Text
