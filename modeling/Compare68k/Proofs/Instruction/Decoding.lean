import Compare68k.Instruction.Table
/-!
# What a table's instructions are

An instruction that a table gives for an opcode is what its class decodes, part by part: each
field that a tick looks up again has the value it had when the opcode was looked up.  The modes
name only registers that the processor has.
-/

namespace Compare68k

structure Instruction.Decoded (i : Instruction) (op : Opcode) : Prop where
  size : i.cls.size op = .ok i.size
  source : i.cls.source op = .ok i.source
  destination : i.cls.destination op = .ok i.destination

theorem decoded_of_decode {c : Class} {op : Opcode} {i : Instruction}
    (h : c.decode op = .ok i) : i.cls = c ∧ i.Decoded op := by
  obtain ⟨size, hsize, h⟩ := exists_of_bind h
  obtain ⟨source, hsource, h⟩ := exists_of_bind h
  obtain ⟨destination, hdestination, h⟩ := exists_of_bind h
  cases h
  exact ⟨rfl, hsize, hsource, hdestination⟩

theorem decode_of_decode? {c : Class} {op : Opcode} {i : Instruction}
    (h : c.decode? op = some i) : c.decode op = .ok i ∧ i.allowed = true := by
  unfold Class.decode? at h
  split at h
  · split at h
    · rename_i j hj
      split at h
      · rename_i hallowed
        cases h
        exact ⟨hj, hallowed⟩
      · cases h
    · cases h
  · cases h

namespace Table

theorem decode?_of_lookup {t : Table} {op : Opcode} {i : Instruction}
    (h : t.lookup op = some i) : i.cls.decode? op = some i := by
  obtain ⟨c, -, hc⟩ := List.exists_of_findSome?_eq_some h
  obtain ⟨rfl, -⟩ := decoded_of_decode (decode_of_decode? hc).1
  exact hc

theorem decoded_of_lookup {t : Table} {op : Opcode} {i : Instruction}
    (h : t.lookup op = some i) : i.Decoded op :=
  (decoded_of_decode (decode_of_decode? (decode?_of_lookup h)).1).2

end Table

/-! ## Registers of modes -/

theorem toUInt8_and_seven_lt (w : UInt16) : (w &&& 7).toUInt8 < 8 := by
  rw [UInt8.lt_iff_toNat_lt]
  have h : (w &&& 7).toNat < 8 := by
    rw [UInt16.toNat_and]
    exact Nat.lt_of_le_of_lt Nat.and_le_right (by decide)
  rw [UInt16.toNat_toUInt8]
  exact Nat.lt_of_le_of_lt (Nat.mod_le _ _) h

theorem Mode.wellFormed_of_ofField? {field : UInt16} {m : Mode} (h : ofField? field = some m) :
    m.wellFormed = true := by
  have hreg := toUInt8_and_seven_lt field
  unfold ofField? at h
  dsimp only at h
  split at h
  case h_8 =>
    split at h
    case h_6 => cases h
    all_goals
      cases h
      rfl
  all_goals
    cases h
    exact decide_eq_true hreg

theorem Mode.wellFormed_of_ofOpcode {op : Opcode} {m : Mode} (h : ofOpcode op = .ok m) :
    m.wellFormed = true := by
  unfold ofOpcode at h
  split at h
  · rename_i m' hm
    cases h
    exact wellFormed_of_ofField? hm
  · cases h

/-! ## The fixed operands of each class -/

namespace Instruction

variable {i : Instruction} {op : Opcode}

theorem Decoded.destination_of_cmp (h : i.Decoded op) (hc : i.cls = .cmp) :
    i.destination = .dataReg (Opcode.upperRegister op) := by
  have hdestination := h.destination
  rw [hc] at hdestination
  exact (Except.ok.inj hdestination).symm

theorem Decoded.destination_of_cmpa (h : i.Decoded op) (hc : i.cls = .cmpa) :
    i.destination = .addrReg (Opcode.upperRegister op) := by
  have hdestination := h.destination
  rw [hc] at hdestination
  exact (Except.ok.inj hdestination).symm

theorem Decoded.source_of_cmpi (h : i.Decoded op) (hc : i.cls = .cmpi) :
    i.source = .immediate := by
  have hsource := h.source
  rw [hc] at hsource
  exact (Except.ok.inj hsource).symm

theorem Decoded.source_of_cmpm (h : i.Decoded op) (hc : i.cls = .cmpm) :
    i.source = .postInc (Opcode.lowerRegister op) := by
  have hsource := h.source
  rw [hc] at hsource
  exact (Except.ok.inj hsource).symm

theorem Decoded.destination_of_cmpm (h : i.Decoded op) (hc : i.cls = .cmpm) :
    i.destination = .postInc (Opcode.upperRegister op) := by
  have hdestination := h.destination
  rw [hc] at hdestination
  exact (Except.ok.inj hdestination).symm

theorem Decoded.source_wellFormed (h : i.Decoded op) : i.source.wellFormed = true := by
  have hsource := h.source
  cases hc : i.cls with
  | cmp | cmpa =>
    rw [hc] at hsource
    exact Mode.wellFormed_of_ofOpcode hsource
  | cmpi =>
    rw [h.source_of_cmpi hc]
    rfl
  | cmpm =>
    rw [h.source_of_cmpm hc]
    exact decide_eq_true (toUInt8_and_seven_lt op)

theorem Decoded.destination_wellFormed (h : i.Decoded op) : i.destination.wellFormed = true := by
  have hdestination := h.destination
  have hupper := toUInt8_and_seven_lt (op >>> 9)
  cases hc : i.cls with
  | cmp =>
    rw [h.destination_of_cmp hc]
    exact decide_eq_true hupper
  | cmpa =>
    rw [h.destination_of_cmpa hc]
    exact decide_eq_true hupper
  | cmpi =>
    rw [hc] at hdestination
    exact Mode.wellFormed_of_ofOpcode hdestination
  | cmpm =>
    rw [h.destination_of_cmpm hc]
    exact decide_eq_true hupper

end Instruction

end Compare68k
