import Compare68k.Proofs.Instruction.Encoding
/-!
# The opcode of an instruction

Nothing of an opcode is lost when it is decoded.  Main statement: the opcodes that a class decodes
to the same instruction are the same.
-/

namespace Compare68k

theorem Mode.toNat_field_of_ofField? {field : UInt16} {m : Mode} (h : ofField? field = some m) :
    m.field.toNat = field.toNat % 64 := by
  -- a mode is selected by six bits, so 64 fields stand for all
  have hfields : ∀ n < 64, ∀ m ∈ ofField? (UInt16.ofNat n), m.field.toNat = n := by decide
  have hlow : (UInt16.ofNat (field.toNat % 64)).toNat = field.toNat % 64 :=
    UInt16.toNat_ofNat_of_lt' (Nat.lt_trans (Nat.mod_lt _ (by decide)) (by decide))
  rw [Opcode.ofField?_congr (b := UInt16.ofNat (field.toNat % 64)) (by omega)] at h
  exact hfields (field.toNat % 64) (Nat.mod_lt _ (by decide)) m h

namespace Class

variable {c : Class} {i : Instruction} {op op' : Opcode}

theorem mod_eq_of_ofOpcode {m : Mode} (h : Mode.ofOpcode op = .ok m)
    (h' : Mode.ofOpcode op' = .ok m) : op.toNat % 64 = op'.toNat % 64 := by
  have hfield : ∀ {op : Opcode}, Mode.ofOpcode op = .ok m → m.field.toNat = op.toNat % 64 := by
    intro op h
    rw [Mode.ofOpcode] at h
    cases hm : Mode.ofField? op with
    | none => simp [hm] at h
    | some m' =>
      rw [hm] at h
      cases h
      exact Mode.toNat_field_of_ofField? hm
  rw [← hfield h, ← hfield h']

theorem size_eq_of_size {size : Size} (h : Opcode.size op = .ok size)
    (h' : Opcode.size op' = .ok size) : op.toNat / 64 % 4 = op'.toNat / 64 % 4 := by
  rw [(Opcode.size_eq_ok_iff op).mp h, (Opcode.size_eq_ok_iff op').mp h']

theorem upper_eq_of_upperRegister (h : Opcode.upperRegister op = Opcode.upperRegister op') :
    op.toNat / 512 % 8 = op'.toNat / 512 % 8 := by
  rw [← Opcode.toNat_upperRegister, ← Opcode.toNat_upperRegister, h]

theorem bit_eq_of_size {size : Size} (h : cmpa.size op = .ok size) (h' : cmpa.size op' = .ok size) :
    op.toNat / 256 % 2 = op'.toNat / 256 % 2 := by
  have hbit : ∀ {op : Opcode}, cmpa.size op = .ok size →
      (op.toNat / 256 % 2 = 0 ↔ size = .word) := by
    intro op h
    have hmask := Opcode.toNat_and_0100 op
    unfold Class.size at h
    cases h
    by_cases hzero : op &&& 0x0100 = 0
    · rw [hzero] at hmask ⊢
      have hnone : 0 = op.toNat / 256 % 2 * 256 := hmask
      exact iff_of_true (by omega) rfl
    · rw [if_pos (bne_iff_ne.mpr hzero)]
      refine iff_of_false (fun hbit => hzero ?_) (by decide)
      rw [hbit] at hmask
      exact UInt16.toNat_inj.mp hmask
  have hword := hbit h
  have hword' := hbit h'
  by_cases hsize : size = .word
  · rw [hword.mpr hsize, hword'.mpr hsize]
  · have hone := mt hword.mp hsize
    have hone' := mt hword'.mp hsize
    omega

/-- An instruction has one opcode. -/
theorem eq_of_decode? (h : c.decode? op = some i) (h' : c.decode? op' = some i) : op = op' := by
  have hencodes := encodes_of_decode? h
  have hencodes' := encodes_of_decode? h'
  obtain ⟨hcls, hd⟩ := decoded_of_decode (decode_of_decode? h).1
  obtain ⟨-, hd'⟩ := decoded_of_decode (decode_of_decode? h').1
  have hsize := hd.size
  have hsize' := hd'.size
  have hsource := hd.source
  have hsource' := hd'.source
  have hdestination := hd.destination
  have hdestination' := hd'.destination
  rw [← UInt16.toNat_inj]
  cases c with
  | cmp =>
    rw [hcls] at hsize hsize' hsource hsource'
    rw [encodes_cmp_iff] at hencodes hencodes'
    have hregister := (hd.destination_of_cmp hcls).symm.trans (hd'.destination_of_cmp hcls)
    have hupper := upper_eq_of_upperRegister (Mode.dataReg.inj hregister)
    have hsizes := size_eq_of_size hsize hsize'
    have hmodes := mod_eq_of_ofOpcode hsource hsource'
    omega
  | cmpa =>
    rw [hcls] at hsize hsize' hsource hsource'
    rw [encodes_cmpa_iff] at hencodes hencodes'
    have hregister := (hd.destination_of_cmpa hcls).symm.trans (hd'.destination_of_cmpa hcls)
    have hupper := upper_eq_of_upperRegister (Mode.addrReg.inj hregister)
    have hbits := bit_eq_of_size hsize hsize'
    have hmodes := mod_eq_of_ofOpcode hsource hsource'
    omega
  | cmpi =>
    rw [hcls] at hsize hsize' hdestination hdestination'
    rw [encodes_cmpi_iff] at hencodes hencodes'
    have hsizes := size_eq_of_size hsize hsize'
    have hmodes := mod_eq_of_ofOpcode hdestination hdestination'
    omega
  | cmpm =>
    rw [hcls] at hsize hsize'
    rw [encodes_cmpm_iff] at hencodes hencodes'
    have hregister := (hd.destination_of_cmpm hcls).symm.trans (hd'.destination_of_cmpm hcls)
    have hupper := upper_eq_of_upperRegister (Mode.postInc.inj hregister)
    have hregister' := (hd.source_of_cmpm hcls).symm.trans (hd'.source_of_cmpm hcls)
    have hlower := congrArg UInt8.toNat (Mode.postInc.inj hregister')
    rw [Opcode.toNat_lowerRegister, Opcode.toNat_lowerRegister] at hlower
    have hsizes := size_eq_of_size hsize hsize'
    omega

end Class

end Compare68k
