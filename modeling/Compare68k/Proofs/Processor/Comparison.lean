import Compare68k.Proofs.Processor.Step
/-!
# Comparing in one shot

What a step does, class by class, on any RAM of at most `2 ^ 24` bytes and from any reachable
state between instructions.  The four classes run through the same stages; the effect of each is
the general effect at its own operands.
-/

namespace Compare68k

namespace Registers

theorem get_set_address (regs : Registers) (n : UInt8) (value : UInt32) :
    (regs.set (.address n) value).get (.address n) = value := by
  simp [set, get]

theorem set_set_address (regs : Registers) (n : UInt8) (first second : UInt32) :
    (regs.set (.address n) first).set (.address n) second = regs.set (.address n) second := by
  simp [set]

variable {i : Instruction} {op : Opcode}

theorem afterInstruction_of_cmp (hd : i.Decoded op) (hc : i.cls = .cmp) (regs : Registers)
    (mem : Memory) :
    regs.afterInstruction mem i =
      regs.compareData mem i.size i.source (Opcode.upperRegister op) := by
  simp only [afterInstruction, compareData, hc, hd.destination_of_cmp hc, Class.width, Class.extend,
    Mode.after_dataReg, Mode.value_dataReg, Status.afterCompare_and_mask, Mode.status_after,
    Mode.get_data_after, get_data_skip, status_skip]

theorem afterInstruction_of_cmpa (hd : i.Decoded op) (hc : i.cls = .cmpa) (regs : Registers)
    (mem : Memory) :
    regs.afterInstruction mem i =
      regs.compareAddress mem i.size i.source (Opcode.upperRegister op) := by
  have hextend : ∀ value, Class.cmpa.extend i.size value =
      if i.size = .word then Word.signed value.toUInt16 else value := by
    intro value
    cases i.size with
    | word => exact Word.signExtend_eq_ofInt value.toUInt16
    | byte | long => rfl
  simp only [afterInstruction, compareAddress, hc, hd.destination_of_cmpa hc, Class.width, hextend,
    Mode.after_addrReg, Mode.value_addrReg, Status.afterCompare_and_mask, Mode.status_after,
    status_skip]

theorem afterInstruction_of_cmpi (hd : i.Decoded op) (hc : i.cls = .cmpi) (regs : Registers)
    (mem : Memory) :
    regs.afterInstruction mem i = regs.compareConstant mem i.size i.destination := by
  simp only [afterInstruction, compareConstant, hc, hd.source_of_cmpi hc, Class.width,
    Class.extend, Mode.status_after, status_skip]
  rfl

theorem afterInstruction_of_cmpm (hd : i.Decoded op) (hc : i.cls = .cmpm) (regs : Registers)
    (mem : Memory) :
    regs.afterInstruction mem i =
      regs.compareMemory mem i.size (Opcode.lowerRegister op) (Opcode.upperRegister op) := by
  simp only [afterInstruction, compareMemory, hc, hd.source_of_cmpm hc, hd.destination_of_cmpm hc,
    Class.width, Class.extend, Mode.after_postInc]
  rfl

theorem pc_compareData (regs : Registers) (mem : Memory) (size : Size) (source : Mode)
    (n : UInt8) :
    (regs.compareData mem size source n).pc =
      regs.pc + 2 + 2 * UInt32.ofNat (source.extensionWords size) :=
  source.pc_after size (regs.skip 1)

theorem pc_compareAddress (regs : Registers) (mem : Memory) (size : Size) (source : Mode)
    (n : UInt8) :
    (regs.compareAddress mem size source n).pc =
      regs.pc + 2 + 2 * UInt32.ofNat (source.extensionWords size) :=
  source.pc_after size (regs.skip 1)

theorem pc_compareConstant (regs : Registers) (mem : Memory) (size : Size)
    (destination : Mode) :
    (regs.compareConstant mem size destination).pc =
      regs.pc + 2 + 2 * UInt32.ofNat
        (Mode.immediate.extensionWords size + destination.extensionWords size) := by
  have hpc := destination.pc_after size
    ((regs.skip 1).skip (Mode.immediate.extensionWords size))
  rw [UInt32.ofNat_add, UInt32.mul_add, ← UInt32.add_assoc]
  exact hpc

theorem compareMemory_self (regs : Registers) (mem : Memory) (size : Size) (n : UInt8) :
    regs.compareMemory mem size n n =
      { (regs.skip 1).set (.address n) (regs.get (.address n) + 2 * size.step n) with
        status :=
          regs.status.afterCompare size (mem.operand size (regs.get (.address n)))
            (mem.operand size (regs.get (.address n) + size.step n)) } := by
  have htwice : regs.get (.address n) + 2 * size.step n =
      regs.get (.address n) + size.step n + size.step n := by
    rw [UInt32.two_mul, UInt32.add_assoc]
  rw [htwice]
  simp only [compareMemory, get_set_address, set_set_address, get_address_skip]

end Registers

namespace Processor

variable {t : Table} {p : Processor} {ram : Ram} {i : Instruction} {op : Opcode}

theorem step_of_lookup (hp : Reachable t p) (hmid : p.isMidInstruction = false)
    (hbits : ram.bits ≤ 24) (hop : ram.memory.word p.registers.pc = op)
    (hi : t.lookup op = some i) :
    p.step ram =
      .ok (.ok (i.report p.registers.pc op i.ticks),
        p.completed i (p.registers.afterInstruction ram.memory i), ram) := by
  have htable : p.table = t := hp.consistent.table
  have hlookup : p.table.lookup (ram.memory.word p.registers.pc) = some i := by
    rw [hop, htable, hi]
  have hstep := step_ram hbits (hp.between hmid) hlookup
  rw [hop] at hstep
  exact hstep

/-! ## Registers with operands -/

/-- A step of a comparison with a data or an address register has the effect of the comparison
in one shot, on the registers and on nothing else. -/
theorem step_compareRegister (hp : Reachable t p) (hmid : p.isMidInstruction = false)
    (hbits : ram.bits ≤ 24) (hop : ram.memory.word p.registers.pc = op)
    (hi : t.lookup op = some i) :
    (i.cls = .cmp →
      let after := p.registers.compareData ram.memory i.size i.source (Opcode.upperRegister op)
      p.step ram =
          .ok (.ok (i.report p.registers.pc op i.ticks), p.completed i after, ram) ∧
        after.pc = p.registers.pc + 2 + 2 * UInt32.ofNat (i.source.extensionWords i.size)) ∧
    (i.cls = .cmpa →
      let after := p.registers.compareAddress ram.memory i.size i.source (Opcode.upperRegister op)
      p.step ram =
          .ok (.ok (i.report p.registers.pc op i.ticks), p.completed i after, ram) ∧
        after.pc = p.registers.pc + 2 + 2 * UInt32.ofNat (i.source.extensionWords i.size)) := by
  have hd := Table.decoded_of_lookup hi
  have hstep := step_of_lookup hp hmid hbits hop hi
  constructor
  · intro hc
    rw [Registers.afterInstruction_of_cmp hd hc] at hstep
    exact ⟨hstep, Registers.pc_compareData _ _ _ _ _⟩
  · intro hc
    rw [Registers.afterInstruction_of_cmpa hd hc] at hstep
    exact ⟨hstep, Registers.pc_compareAddress _ _ _ _ _⟩

/-- CMPA.W (A0)+,A0 with all registers zero and itself as the operand: the register is compared
as the operand leaves it. -/
theorem step_compareRegister_postInc :
    (ofTable .standard).step ((Ram.zeroed 4 (by decide)).setWord 0 0xB0D8) =
      .ok (.ok ⟨0, 0xB0D8, 4, 10, [.read, .prefetch, .idle]⟩,
        (ofTable .standard).completed ⟨.cmpa, .word, .postInc 0, .addrReg 0⟩
          { address := (Vector.replicate 8 0).set 0 2
            pc := 2
            status := Flags.carryBit },
        (Ram.zeroed 4 (by decide)).setWord 0 0xB0D8) := by
  have hop : ((Ram.zeroed 4 (by decide)).setWord 0 0xB0D8).memory.word
      (ofTable .standard).registers.pc = 0xB0D8 := by decide
  have hi : Table.standard.lookup 0xB0D8 = some ⟨.cmpa, .word, .postInc 0, .addrReg 0⟩ := by decide
  have hstep := ((step_compareRegister .fresh rfl (by decide) hop hi).2 rfl).1
  have hregs : (ofTable .standard).registers.compareAddress
      ((Ram.zeroed 4 (by decide)).setWord 0 0xB0D8).memory .word (.postInc 0) 0 =
        { address := (Vector.replicate 8 0).set 0 2, pc := 2, status := Flags.carryBit } := by
    decide
  exact hregs ▸ hstep

/-! ## Constants and pairs of operands -/

/-- A step of a comparison with a constant or of memory with memory has the effect of the
comparison in one shot, on the registers and on nothing else. -/
theorem step_compareOperands (hp : Reachable t p) (hmid : p.isMidInstruction = false)
    (hbits : ram.bits ≤ 24) (hop : ram.memory.word p.registers.pc = op)
    (hi : t.lookup op = some i) :
    (i.cls = .cmpi →
      let after := p.registers.compareConstant ram.memory i.size i.destination
      p.step ram =
          .ok (.ok (i.report p.registers.pc op i.ticks), p.completed i after, ram) ∧
        after.pc = p.registers.pc + 2 + 2 * UInt32.ofNat
          (Mode.immediate.extensionWords i.size + i.destination.extensionWords i.size)) ∧
    (i.cls = .cmpm →
      let y := Opcode.lowerRegister op
      let x := Opcode.upperRegister op
      let after := p.registers.compareMemory ram.memory i.size y x
      p.step ram =
          .ok (.ok (i.report p.registers.pc op i.ticks), p.completed i after, ram) ∧
        after.pc = p.registers.pc + 2 ∧
        (x = y →
          let a := p.registers.get (.address y)
          after =
            { (p.registers.skip 1).set (.address y) (a + 2 * i.size.step y) with
              status :=
                p.registers.status.afterCompare i.size (ram.memory.operand i.size a)
                  (ram.memory.operand i.size (a + i.size.step y)) })) := by
  have hd := Table.decoded_of_lookup hi
  have hstep := step_of_lookup hp hmid hbits hop hi
  constructor
  · intro hc
    rw [Registers.afterInstruction_of_cmpi hd hc] at hstep
    exact ⟨hstep, Registers.pc_compareConstant _ _ _ _⟩
  · intro hc
    rw [Registers.afterInstruction_of_cmpm hd hc] at hstep
    refine ⟨hstep, rfl, ?_⟩
    intro hsame
    rw [hsame]
    exact Registers.compareMemory_self _ _ _ _

/-- CMPM.W (A0)+,(A0)+ with all registers zero: the second operand is the zero word behind the
opcode. -/
theorem step_compareOperands_self :
    (ofTable .standard).step ((Ram.zeroed 4 (by decide)).setWord 0 0xB148) =
      .ok (.ok ⟨0, 0xB148, 5, 12, [.read, .read, .prefetch]⟩,
        (ofTable .standard).completed ⟨.cmpm, .word, .postInc 0, .postInc 0⟩
          { address := (Vector.replicate 8 0).set 0 4
            pc := 2
            status := Flags.carryBit },
        (Ram.zeroed 4 (by decide)).setWord 0 0xB148) := by
  have hop : ((Ram.zeroed 4 (by decide)).setWord 0 0xB148).memory.word
      (ofTable .standard).registers.pc = 0xB148 := by decide
  have hi : Table.standard.lookup 0xB148 = some ⟨.cmpm, .word, .postInc 0, .postInc 0⟩ := by
    decide
  have hstep := ((step_compareOperands .fresh rfl (by decide) hop hi).2 rfl).1
  have hregs : (ofTable .standard).registers.compareMemory
      ((Ram.zeroed 4 (by decide)).setWord 0 0xB148).memory .word 0 0 =
        { address := (Vector.replicate 8 0).set 0 4, pc := 2, status := Flags.carryBit } := by
    decide
  exact hregs ▸ hstep

end Processor

end Compare68k
