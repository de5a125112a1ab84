import Compare68k.Proofs.Width
import Mathlib.Logic.Basic
/-!
# The flags of an exact difference

A comparison works out its flags from three sign bits and a masked difference.  `Size.unsigned` and
`Size.signed` are the two numbers that the low bits of a long word stand for.  Main statement: the
flags are those of exact arithmetic on these numbers, where a carry is a borrow and an overflow is a
difference that does not fit.  Nothing else of the operands plays a part, and nothing else of the
status register changes.
-/

namespace Compare68k

namespace Size

def unsigned (size : Size) (v : UInt32) : Nat :=
  v.toNat % 2 ^ size.bitWidth

def signed (size : Size) (v : UInt32) : Int :=
  if size.unsigned v < 2 ^ (size.bitWidth - 1) then size.unsigned v
  else size.unsigned v - 2 ^ size.bitWidth

/-- A number that two's complement of the size can hold. -/
def Fits (size : Size) (x : Int) : Prop :=
  -2 ^ (size.bitWidth - 1) ≤ x ∧ x < 2 ^ (size.bitWidth - 1)

theorem two_pow_bitWidth (size : Size) : 2 ^ size.bitWidth = 2 * 2 ^ (size.bitWidth - 1) := by
  cases size <;> rfl

theorem cast_two_pow (size : Size) :
    ((2 ^ (size.bitWidth - 1) : Nat) : Int) = 2 ^ (size.bitWidth - 1) := by
  push_cast
  rfl

theorem cast_two_pow_bitWidth (size : Size) :
    (2 : Int) ^ size.bitWidth = 2 * 2 ^ (size.bitWidth - 1) := by
  cases size <;> rfl

theorem unsigned_lt (size : Size) (v : UInt32) :
    size.unsigned v < 2 * 2 ^ (size.bitWidth - 1) := by
  rw [← two_pow_bitWidth]
  exact Nat.mod_lt _ (Nat.two_pow_pos _)

theorem toNat_signBit (size : Size) : size.signBit.toNat = 2 ^ (size.bitWidth - 1) := by
  cases size <;> rfl

theorem and_signBit_bne (size : Size) (v : UInt32) :
    (v &&& size.signBit != 0) = decide (2 ^ (size.bitWidth - 1) ≤ size.unsigned v) := by
  have hbit : (v &&& size.signBit != 0) = v.toNat.testBit (size.bitWidth - 1) := by
    have hzero : v &&& size.signBit = 0 ↔ v.toNat.testBit (size.bitWidth - 1) = false := by
      rw [← UInt32.toNat_inj, UInt32.toNat_and, toNat_signBit, Nat.and_two_pow]
      cases v.toNat.testBit (size.bitWidth - 1) <;> simp
    rw [Bool.eq_iff_iff, bne_iff_ne, ne_eq, hzero, Bool.not_eq_false]
  rw [hbit, Nat.testBit_eq_decide_div_mod_eq, decide_eq_decide, unsigned]
  cases size <;> simp only [bitWidth] <;> omega

/-- A difference borrows from the next bit up if it has to. -/
theorem unsigned_sub (size : Size) (destination source : UInt32) :
    size.unsigned (destination - source) =
      if size.unsigned source ≤ size.unsigned destination then
        size.unsigned destination - size.unsigned source
      else 2 ^ size.bitWidth + size.unsigned destination - size.unsigned source := by
  have hsource := source.toNat_lt
  have hdestination := destination.toNat_lt
  by_cases hborrow : size.unsigned source ≤ size.unsigned destination
  · rw [if_pos hborrow]
    simp only [unsigned, UInt32.toNat_sub] at hborrow ⊢
    cases size <;> simp only [bitWidth] at hborrow ⊢ <;> omega
  · rw [if_neg hborrow]
    simp only [unsigned, UInt32.toNat_sub] at hborrow ⊢
    cases size <;> simp only [bitWidth] at hborrow ⊢ <;> omega

theorem unsigned_and_mask (size : Size) (v : UInt32) :
    size.unsigned (v &&& size.mask) = size.unsigned v := by
  rw [unsigned, size.toNat_and_mask, Nat.mod_mod, unsigned]

theorem sub_mask_and_mask (size : Size) (a b : UInt32) :
    (a - (b &&& size.mask)) &&& size.mask = (a - b) &&& size.mask := by
  apply UInt32.toNat_inj.mp
  have hlow := size.unsigned_sub a (b &&& size.mask)
  rw [size.unsigned_and_mask, ← size.unsigned_sub a b] at hlow
  rw [size.toNat_and_mask, size.toNat_and_mask]
  exact hlow

theorem splice_and_mask (size : Size) (v high : UInt32) :
    (v &&& size.mask ||| high &&& ~~~size.mask) &&& size.mask = v &&& size.mask := by
  have hor : (v &&& size.mask ||| high &&& ~~~size.mask) &&& size.mask =
      (v &&& size.mask) &&& size.mask ||| (high &&& ~~~size.mask) &&& size.mask :=
    UInt32.toBitVec_inj.mp BitVec.and_or_distrib_right
  rw [hor, UInt32.and_assoc, UInt32.and_self, UInt32.and_assoc, UInt32.not_and_self,
    UInt32.and_zero, UInt32.or_zero]

end Size

namespace Flags

variable (size : Size) (source destination : UInt32)

theorem negative_ofCompare :
    (ofCompare size source destination).negative =
      decide (2 ^ (size.bitWidth - 1) ≤ size.unsigned (destination - source)) := by
  simp only [ofCompare, ofSigns, Size.and_signBit_bne, Size.unsigned_and_mask]

theorem zero_ofCompare :
    (ofCompare size source destination).zero = true ↔
      size.unsigned source = size.unsigned destination := by
  have hzero : (destination - source) &&& size.mask = 0 ↔
      size.unsigned (destination - source) = 0 := by
    rw [← UInt32.toNat_inj, Size.toNat_and_mask]
    rfl
  have hsource := size.unsigned_lt source
  have hdestination := size.unsigned_lt destination
  simp only [ofCompare, ofSigns, beq_iff_eq, hzero, Size.unsigned_sub, Size.two_pow_bitWidth]
  split <;> omega

theorem carry_ofCompare :
    (ofCompare size source destination).carry = true ↔
      size.unsigned destination < size.unsigned source := by
  have hsource := size.unsigned_lt source
  have hdestination := size.unsigned_lt destination
  have hdifference := size.unsigned_sub destination source
  rw [Size.two_pow_bitWidth] at hdifference
  simp only [ofCompare, ofSigns, Size.and_signBit_bne, Size.unsigned_and_mask, Bool.or_eq_true,
    Bool.and_eq_true, Bool.not_eq_true', decide_eq_true_eq, decide_eq_false_iff_not]
  split at hdifference <;> omega

theorem overflow_ofCompare :
    (ofCompare size source destination).overflow = true ↔
      ¬ size.Fits (size.signed destination - size.signed source) := by
  have hsource := size.unsigned_lt source
  have hdestination := size.unsigned_lt destination
  have hdifference := size.unsigned_sub destination source
  rw [Size.two_pow_bitWidth] at hdifference
  simp only [ofCompare, ofSigns, Size.and_signBit_bne, Size.unsigned_and_mask, Bool.or_eq_true,
    Bool.and_eq_true, Bool.not_eq_true', decide_eq_true_eq, decide_eq_false_iff_not, Size.Fits,
    Size.signed, Size.cast_two_pow_bitWidth, ← Size.cast_two_pow]
  generalize 2 ^ (size.bitWidth - 1) = half at *
  split at hdifference <;> split <;> split <;> omega

theorem signed_lt_iff :
    ((ofCompare size source destination).negative ≠ (ofCompare size source destination).overflow) ↔
      size.signed destination < size.signed source := by
  have hsource := size.unsigned_lt source
  have hdestination := size.unsigned_lt destination
  have hdifference := size.unsigned_sub destination source
  rw [Size.two_pow_bitWidth] at hdifference
  have hoverflow := overflow_ofCompare size source destination
  rw [negative_ofCompare, ne_eq, Bool.eq_iff_iff, hoverflow, decide_eq_true_eq]
  simp only [Size.Fits, Size.signed, Size.cast_two_pow_bitWidth, ← Size.cast_two_pow]
  generalize 2 ^ (size.bitWidth - 1) = half at *
  split at hdifference <;> split <;> split <;> omega

theorem testBit_iff :
    (ofCompare size source destination).negative = true ↔
      (((size.unsigned destination : Int) - size.unsigned source) % 2 ^ size.bitWidth).toNat.testBit
        (size.bitWidth - 1) = true := by
  rw [negative_ofCompare, Nat.testBit_eq_decide_div_mod_eq, decide_eq_true_eq, decide_eq_true_eq,
    Size.unsigned_sub]
  have hsource := size.unsigned_lt source
  have hdestination := size.unsigned_lt destination
  generalize size.unsigned source = u at *
  generalize size.unsigned destination = v at *
  cases size <;> simp only [Size.bitWidth] at * <;> split <;> omega

end Flags

/-! ## In the status register -/

theorem Flags.bits_and_not (f : Flags) : f.bits &&& ~~~mask = 0 := by
  obtain ⟨n, z, v, c⟩ := f
  revert n z v c
  decide

theorem Flags.bits_and (f : Flags) :
    (f.bits &&& carryBit ≠ 0 ↔ f.carry = true) ∧ (f.bits &&& zeroBit ≠ 0 ↔ f.zero = true) ∧
      (f.bits &&& overflowBit ≠ 0 ↔ f.overflow = true) ∧
      (f.bits &&& negativeBit ≠ 0 ↔ f.negative = true) := by
  obtain ⟨n, z, v, c⟩ := f
  revert n z v c
  decide

namespace Status

theorem or_and (a b c : Status) : (a ||| b) &&& c = (a &&& c) ||| (b &&& c) :=
  UInt16.toBitVec_inj.mp BitVec.and_or_distrib_right

theorem store_and {bit : Status} (h : ~~~Flags.mask &&& bit = 0) (f : Flags) (status : Status) :
    f.store status &&& bit = f.bits &&& bit := by
  rw [Flags.store, or_and, UInt16.and_assoc, h, UInt16.and_zero, UInt16.zero_or]

theorem afterCompare_and_not (status : Status) (size : Size) (source destination : UInt32) :
    status.afterCompare size source destination &&& ~~~Flags.mask = status &&& ~~~Flags.mask := by
  rw [afterCompare, Flags.store, or_and, Flags.bits_and_not, UInt16.or_zero, UInt16.and_assoc,
    UInt16.and_self]

theorem afterCompare_masked (status : Status) (size : Size) (source destination : UInt32) :
    status.afterCompare size (source &&& size.mask) (destination &&& size.mask) =
      status.afterCompare size source destination := by
  rw [afterCompare_and_mask]
  simp only [afterCompare, Flags.ofCompare, size.sub_mask_and_mask, size.and_mask_and_signBit]

theorem afterCompare_above (status : Status) (size : Size)
    (source destination high high' : UInt32) :
    status.afterCompare size (source &&& size.mask ||| high &&& ~~~size.mask)
        (destination &&& size.mask ||| high' &&& ~~~size.mask) =
      status.afterCompare size source destination := by
  rw [← afterCompare_masked, size.splice_and_mask, size.splice_and_mask, afterCompare_masked]

/-- A comparison sets the flags of exact arithmetic on the low bits of its operands, and changes
nothing else. -/
theorem afterCompare_exact (status : Status) (size : Size) (source destination : UInt32) :
    let after := status.afterCompare size source destination
    let us := size.unsigned source
    let ud := size.unsigned destination
    let ss := size.signed source
    let sd := size.signed destination
    (after &&& Flags.carryBit ≠ 0 ↔ ud < us) ∧
      (after &&& Flags.zeroBit ≠ 0 ↔ us = ud) ∧
      (after &&& Flags.overflowBit ≠ 0 ↔ ¬ size.Fits (sd - ss)) ∧
      (after &&& Flags.negativeBit ≠ 0 ↔
        (((ud : Int) - us) % 2 ^ size.bitWidth).toNat.testBit (size.bitWidth - 1) = true) ∧
      (¬ (after &&& Flags.negativeBit ≠ 0 ↔ after &&& Flags.overflowBit ≠ 0) ↔ sd < ss) ∧
      after &&& ~~~Flags.mask = status &&& ~~~Flags.mask ∧
      ∀ high high' : UInt32,
        status.afterCompare size (source &&& size.mask ||| high &&& ~~~size.mask)
          (destination &&& size.mask ||| high' &&& ~~~size.mask) = after := by
  intro after us ud ss sd
  let flags := Flags.ofCompare size source destination
  obtain ⟨hcarry, hzero, hoverflow, hnegative⟩ := flags.bits_and
  have hplaced : ∀ bit : Status, ~~~Flags.mask &&& bit = 0 → after &&& bit = flags.bits &&& bit :=
    fun bit hbit => store_and hbit flags status
  rw [hplaced _ (by decide), hplaced _ (by decide), hplaced _ (by decide), hplaced _ (by decide),
    hcarry, hzero, hoverflow, hnegative]
  refine ⟨Flags.carry_ofCompare size source destination,
    Flags.zero_ofCompare size source destination,
    Flags.overflow_ofCompare size source destination, Flags.testBit_iff size source destination, ?_,
    afterCompare_and_not status size source destination,
    fun high high' => afterCompare_above status size source destination high high'⟩
  rw [← Bool.eq_iff_iff]
  exact Flags.signed_lt_iff size source destination

end Status

end Compare68k
