import Compare68k.Flags
import Compare68k.Word
import Mathlib.Data.Nat.Bitwise
/-!
# Operand widths and signs

A mask of an operand size keeps the low bits of a long word, so masking is a remainder, and sign
extension gives the long word of the same signed number.  Main statement: a comparison looks at
no bit of its destination above the operand size.
-/

namespace Compare68k

namespace Size

def bitWidth : Size → Nat
  | byte => 8
  | word => 16
  | long => 32

theorem toNat_mask (size : Size) : size.mask.toNat = 2 ^ size.bitWidth - 1 := by
  cases size <;> rfl

theorem toNat_and_mask (size : Size) (v : UInt32) :
    (v &&& size.mask).toNat = v.toNat % 2 ^ size.bitWidth := by
  rw [UInt32.toNat_and, size.toNat_mask, Nat.and_two_pow_sub_one_eq_mod]

theorem and_mask_of_lt {size : Size} {v : UInt32} (h : v.toNat < 2 ^ size.bitWidth) :
    v &&& size.mask = v := by
  apply UInt32.toNat_inj.mp
  rw [size.toNat_and_mask, Nat.mod_eq_of_lt h]

theorem sub_and_mask (size : Size) (a b : UInt32) :
    ((a &&& size.mask) - b) &&& size.mask = (a - b) &&& size.mask := by
  apply UInt32.toNat_inj.mp
  rw [size.toNat_and_mask, size.toNat_and_mask, UInt32.toNat_sub, UInt32.toNat_sub,
    size.toNat_and_mask]
  cases size <;> simp only [bitWidth] <;> omega

theorem and_mask_and_signBit (size : Size) (v : UInt32) :
    v &&& size.mask &&& size.signBit = v &&& size.signBit := by
  rw [UInt32.and_assoc]
  cases size <;> rfl

end Size

theorem Status.afterCompare_and_mask (status : Status) (size : Size)
    (source destination : UInt32) :
    status.afterCompare size source (destination &&& size.mask) =
      status.afterCompare size source destination := by
  simp only [afterCompare, Flags.ofCompare, size.sub_and_mask, size.and_mask_and_signBit]

namespace Word

theorem ofInt_toInt32 (v : UInt32) : UInt32.ofInt v.toInt32.toInt = v := by
  apply UInt32.toNat_inj.mp
  have hint : v.toInt32.toInt = (v.toNat : Int).bmod (2 ^ 32) := BitVec.toInt_eq_toNat_bmod _
  have hmod : (v.toNat : Int).bmod (2 ^ 32) % 2 ^ 32 = (v.toNat : Int) % 2 ^ 32 := Int.bmod_emod
  have hlt := v.toNat_lt
  rw [hint, UInt32.ofInt, hmod, UInt32.toNat_ofNat']
  omega

theorem signExtend_eq_ofInt (w : UInt16) : signExtend w = UInt32.ofInt w.toInt16.toInt := by
  rw [← ofInt_toInt32 (signExtend w)]
  simp [signExtend]

theorem signExtendByte_eq_ofInt (b : UInt8) :
    signExtendByte b = UInt32.ofInt b.toInt8.toInt := by
  rw [← ofInt_toInt32 (signExtendByte b)]
  simp [signExtendByte]

theorem long_zero_or (high low : UInt16) : long high 0 ||| low.toUInt32 = long high low := by
  simp [long]

theorem toUInt32_and_mask (w : UInt16) :
    w.toUInt32 &&& Size.byte.mask = (lowByte w).toUInt32 := by
  apply UInt32.toNat_inj.mp
  rw [Size.toNat_and_mask, UInt16.toNat_toUInt32, UInt8.toNat_toUInt32, lowByte,
    UInt16.toNat_toUInt8]
  rfl

theorem lowByte_ofBytes (high low : UInt8) : lowByte (ofBytes high low) = low := by
  apply UInt8.toNat_inj.mp
  have hhigh : high.toNat <<< 8 % 256 = 0 := by
    rw [Nat.shiftLeft_eq]
    omega
  simp [lowByte, ofBytes, hhigh]

end Word

end Compare68k
