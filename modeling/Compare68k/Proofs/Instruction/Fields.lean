import Compare68k.Instruction.Dispatch
import Mathlib.Data.Nat.Bitwise
/-!
# Fields of an opcode

What an opcode holds, as numbers: its fields are quotients and remainders, and what a mask leaves of
it is the sum of the stretches that the mask covers.  In these terms the fixed bits of a class, the
size, the registers and the mode are linear conditions on one number.
-/

namespace Compare68k

/-! ## Masks -/

theorem and_mul_two_pow_add (n a b k : Nat) (hb : b < 2 ^ k) :
    n &&& (a * 2 ^ k + b) = (n / 2 ^ k &&& a) * 2 ^ k + (n % 2 ^ k &&& b) := by
  have hhigh : (n &&& (a * 2 ^ k + b)) / 2 ^ k = n / 2 ^ k &&& a := by
    rw [Nat.and_div_two_pow, Nat.mul_comm, Nat.mul_add_div (Nat.two_pow_pos k),
      Nat.div_eq_of_lt hb, Nat.add_zero]
  have hlow : (n &&& (a * 2 ^ k + b)) % 2 ^ k = n % 2 ^ k &&& b := by
    rw [Nat.and_mod_two_pow, Nat.mul_add_mod_self_right, Nat.mod_eq_of_lt hb]
  rw [← hhigh, ← hlow, Nat.div_add_mod']

theorem and_stretch (n w k : Nat) :
    n &&& ((2 ^ w - 1) * 2 ^ k) = n / 2 ^ k % 2 ^ w * 2 ^ k := by
  have hsplit := and_mul_two_pow_add n (2 ^ w - 1) 0 k (Nat.two_pow_pos k)
  rwa [Nat.add_zero, Nat.and_zero, Nat.add_zero, Nat.and_two_pow_sub_one_eq_mod] at hsplit

namespace Opcode

variable (op : Opcode)

theorem toNat_and_07 : (op &&& 0x07).toNat = op.toNat % 8 :=
  Nat.and_two_pow_sub_one_eq_mod op.toNat 3

theorem toNat_and_38 : (op &&& 0x38).toNat = op.toNat / 8 % 8 * 8 :=
  and_stretch op.toNat 3 3

theorem toNat_and_C0 : (op &&& 0xC0).toNat = op.toNat / 64 % 4 * 64 :=
  and_stretch op.toNat 2 6

theorem toNat_and_0100 : (op &&& 0x0100).toNat = op.toNat / 256 % 2 * 256 :=
  and_stretch op.toNat 1 8

theorem toNat_and_F000 : (op &&& 0xF000).toNat = op.toNat / 4096 * 4096 := by
  have hhigh : op.toNat / 4096 % 16 = op.toNat / 4096 :=
    Nat.mod_eq_of_lt (Nat.div_lt_of_lt_mul op.toNat_lt)
  have hmask : (op &&& 0xF000).toNat = op.toNat / 4096 % 16 * 4096 := and_stretch op.toNat 4 12
  rw [hmask, hhigh]

theorem toNat_and_FF00 : (op &&& 0xFF00).toNat = op.toNat / 256 * 256 := by
  have hhigh : op.toNat / 256 % 256 = op.toNat / 256 :=
    Nat.mod_eq_of_lt (Nat.div_lt_of_lt_mul op.toNat_lt)
  have hmask : (op &&& 0xFF00).toNat = op.toNat / 256 % 256 * 256 := and_stretch op.toNat 8 8
  rw [hmask, hhigh]

/-- Stretches of bits that do not meet add up. -/
theorem toNat_or {a b : UInt16} (k : Nat) (ha : a.toNat % 2 ^ k = 0) (hb : b.toNat < 2 ^ k) :
    (a ||| b).toNat = a.toNat + b.toNat := by
  have hhigh : a.toNat = (a.toNat / 2 ^ k) <<< k := by
    rw [Nat.shiftLeft_eq, Nat.div_mul_cancel (Nat.dvd_of_mod_eq_zero ha)]
  calc (a ||| b).toNat = (a.toNat / 2 ^ k) <<< k ||| b.toNat := by rw [← hhigh, UInt16.toNat_or]
    _ = (a.toNat / 2 ^ k) <<< k + b.toNat := (Nat.shiftLeft_add_eq_or_of_lt hb _).symm
    _ = a.toNat + b.toNat := by rw [← hhigh]

theorem and_or (a b : UInt16) : op &&& (a ||| b) = (op &&& a) ||| (op &&& b) :=
  UInt16.toNat_inj.mp (Nat.and_or_distrib_left op.toNat a.toNat b.toNat)

theorem toNat_and_F100 :
    (op &&& 0xF100).toNat = op.toNat / 4096 * 4096 + op.toNat / 256 % 2 * 256 := by
  have hmask : op &&& 0xF100 = (op &&& 0xF000) ||| (op &&& 0x0100) := op.and_or 0xF000 0x0100
  rw [hmask, toNat_or 12, toNat_and_F000, toNat_and_0100]
  · rw [toNat_and_F000]
    omega
  · rw [toNat_and_0100]
    omega

theorem toNat_and_F0C0 :
    (op &&& 0xF0C0).toNat = op.toNat / 4096 * 4096 + op.toNat / 64 % 4 * 64 := by
  have hmask : op &&& 0xF0C0 = (op &&& 0xF000) ||| (op &&& 0x00C0) := op.and_or 0xF000 0x00C0
  rw [hmask, toNat_or 12, toNat_and_F000, toNat_and_C0]
  · rw [toNat_and_F000]
    omega
  · rw [toNat_and_C0]
    omega

theorem toNat_and_F138 :
    (op &&& 0xF138).toNat =
      op.toNat / 4096 * 4096 + op.toNat / 256 % 2 * 256 + op.toNat / 8 % 8 * 8 := by
  have hmask : op &&& 0xF138 = (op &&& 0xF100) ||| (op &&& 0x0038) := op.and_or 0xF100 0x0038
  rw [hmask, toNat_or 8, toNat_and_F100, toNat_and_38]
  · rw [toNat_and_F100]
    omega
  · rw [toNat_and_38]
    omega

/-! ## Fields -/

theorem toNat_upperRegister : op.upperRegister.toNat = op.toNat / 512 % 8 := by
  have hfield : ((op >>> 9) &&& 7).toNat = op.toNat / 512 % 8 := by
    rw [toNat_and_07, UInt16.toNat_shiftRight, Nat.shiftRight_eq_div_pow]
    rfl
  rw [upperRegister, UInt16.toNat_toUInt8, hfield]
  omega

theorem toNat_lowerRegister : op.lowerRegister.toNat = op.toNat % 8 := by
  rw [lowerRegister, UInt16.toNat_toUInt8, toNat_and_07]
  omega

theorem size_eq_ok_iff {s : Size} : op.size = .ok s ↔ op.toNat / 64 % 4 = s.field.toNat := by
  have hfield : ((op >>> 6) &&& 3).toNat = op.toNat / 64 % 4 := by
    have hthree : ((op >>> 6) &&& 3).toNat = (op >>> 6).toNat % 4 :=
      Nat.and_two_pow_sub_one_eq_mod (op >>> 6).toNat 2
    rw [hthree, UInt16.toNat_shiftRight, Nat.shiftRight_eq_div_pow]
    rfl
  have hcases : op.toNat / 64 % 4 = 0 ∨ op.toNat / 64 % 4 = 1 ∨ op.toNat / 64 % 4 = 2 ∨
      op.toNat / 64 % 4 = 3 := by omega
  rw [size, Size.ofField?, hfield]
  rcases hcases with h | h | h | h <;> rw [h] <;> cases s <;> simp [Size.field]

theorem ofField?_congr {a b : UInt16} (h : a.toNat % 64 = b.toNat % 64) :
    Mode.ofField? a = Mode.ofField? b := by
  have hlow : a &&& (7 : UInt16) = b &&& 7 := by
    rw [← UInt16.toNat_inj, toNat_and_07, toNat_and_07]
    omega
  have hhigh : (a >>> 3) &&& (7 : UInt16) = (b >>> 3) &&& 7 := by
    rw [← UInt16.toNat_inj, toNat_and_07, toNat_and_07, UInt16.toNat_shiftRight,
      UInt16.toNat_shiftRight, Nat.shiftRight_eq_div_pow, Nat.shiftRight_eq_div_pow]
    show a.toNat / 8 % 8 = b.toNat / 8 % 8
    omega
  rw [Mode.ofField?, Mode.ofField?, hlow, hhigh]

theorem fieldAllowed_congr {a b : UInt16} (h : a.toNat % 64 = b.toNat % 64)
    (excluded : CategorySet) : Mode.fieldAllowed a excluded = Mode.fieldAllowed b excluded := by
  rw [Mode.fieldAllowed, Mode.fieldAllowed, ofField?_congr h]

end Opcode

end Compare68k
