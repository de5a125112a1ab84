import Compare68k.Proofs.Processor.Operation
/-!
# Running in an image of memory

A RAM repeats over the whole range of addresses, so a program may be run at any of its images.
`ahead` displaces a program counter, and with it the addresses that are reported.  Main statement:
steps from program counters that differ by a multiple of the size of the RAM answer the same but
for their addresses, and leave the same registers but for the program counter, however many steps
there are and wherever their addresses wrap.
-/

namespace Compare68k

/-- A memory that is the same at a distance from every address. -/
def Memory.Repeats (m : Memory) (d : Address) : Prop :=
  ∀ a, m (a + d) = m a

theorem Address.add_right_comm (a b c : Address) : a + b + c = a + c + b := by
  rw [UInt32.add_assoc, UInt32.add_comm b, ← UInt32.add_assoc]

theorem Address.toNat_ofInt (x : Int) : ((UInt32.ofInt x).toNat : Int) = x % 2 ^ 32 := by
  rw [UInt32.ofInt, UInt32.toNat_ofNat']
  omega

theorem Ram.repeats {r : Ram} (h : r.bits ≤ 24) (m : Int) :
    r.memory.Repeats (UInt32.ofInt (m * 2 ^ r.bits)) := by
  have hsize : (r.size : Int) = 2 ^ r.bits := by
    rw [r.size_eq_two_pow]
    exact Int.natCast_pow 2 r.bits
  have hdvd : r.size ∣ 2 ^ 32 := size_dvd_two_pow (by omega)
  have hdistance : (UInt32.ofInt (m * 2 ^ r.bits)).toNat % r.size = 0 := by
    apply Int.natCast_inj.mp
    have hint : (2 : Int) ^ r.bits ∣ 2 ^ 32 := pow_dvd_pow 2 (by omega)
    rw [Int.natCast_emod, Address.toNat_ofInt, hsize, Int.emod_emod_of_dvd _ hint]
    exact Int.mul_emod_left m _
  intro a
  have hindex : r.index (a + UInt32.ofInt (m * 2 ^ r.bits)) = r.index a := by
    apply Fin.ext
    rw [index_eq_mod h, index_eq_mod h, UInt32.toNat_add, Nat.mod_mod_of_dvd _ hdvd, Nat.add_mod,
      hdistance, Nat.add_zero, Nat.mod_mod]
  exact congrArg r.get hindex

namespace Memory.Repeats

variable {m : Memory} {d : Address}

theorem word (h : m.Repeats d) (a : Address) : m.word (a + d) = m.word a := by
  rw [Memory.word, Memory.word, Address.add_right_comm, h, h]

theorem long (h : m.Repeats d) (a : Address) : m.long (a + d) = m.long a := by
  rw [Memory.long, Memory.long, Address.add_right_comm, h.word, h.word]

theorem operand (h : m.Repeats d) (size : Size) (a : Address) :
    m.operand size (a + d) = m.operand size a := by
  cases size with
  | byte => exact congrArg UInt8.toUInt32 (h a)
  | word => exact congrArg UInt16.toUInt32 (h.word a)
  | long => exact h.long a

end Memory.Repeats

/-! ## One comparison -/

variable {mem : Memory} {d : Address}

namespace Registers

def ahead (d : Address) (regs : Registers) : Registers :=
  { regs with pc := regs.pc + d }

theorem skip_ahead (regs : Registers) (words : Nat) :
    (regs.ahead d).skip words = (regs.skip words).ahead d := by
  rw [skip, skip, ahead, ahead, Address.add_right_comm]

theorem indexed_ahead (regs : Registers) (ext : UInt16) :
    (regs.ahead d).indexed ext = regs.indexed ext :=
  regs.indexed_withPc (regs.pc + d) ext

end Registers

namespace Mode

theorem after_ahead (m : Mode) (size : Size) (regs : Registers) :
    m.after size (regs.ahead d) = (m.after size regs).ahead d := by
  have hmoved : m.moved size (regs.ahead d) = (m.moved size regs).ahead d := by
    cases m <;> rfl
  rw [after, hmoved, Registers.skip_ahead]
  rfl

/-- An operand whose place depends on the program counter is found at an image of that place. -/
theorem value_ahead (h : mem.Repeats d) (m : Mode) (size : Size) (regs : Registers) :
    m.value size mem (regs.ahead d) = m.value size mem regs := by
  have hext : mem.word (regs.ahead d).pc = mem.word regs.pc := h.word regs.pc
  have hlong : mem.long (regs.ahead d).pc = mem.long regs.pc := h.long regs.pc
  have himage (a : Address) : mem.operand size ((regs.ahead d).pc + a) =
      mem.operand size (regs.pc + a) := by
    rw [Registers.ahead, Address.add_right_comm, h.operand]
  cases m with
  | dataReg n | addrReg n | indirect n | postInc n | preDec n => rfl
  | disp n | absShort | absLong =>
    simp only [value, place, hext, hlong]
    rfl
  | index n =>
    simp only [value, place, hext, Registers.indexed_ahead]
    rfl
  | pcDisp | pcIndex =>
    simp only [value, place, hext, Registers.indexed_ahead]
    exact himage _
  | immediate =>
    simp only [value, place]
    split
    · exact himage 1
    · exact h.operand size regs.pc

end Mode

namespace Registers

theorem afterInstruction_ahead (h : mem.Repeats d) (regs : Registers) (i : Instruction) :
    (regs.ahead d).afterInstruction mem i = (regs.afterInstruction mem i).ahead d := by
  simp only [afterInstruction, skip_ahead, Mode.after_ahead, Mode.value_ahead h]
  rfl

end Registers

/-! ## Runs -/

def Report.ahead (d : Address) (report : Report) : Report :=
  { report with address := report.address + d }

def Break.ahead (d : Address) : Break → Break
  | .illegalOpcode a op => .illegalOpcode (a + d) op

def Answer.ahead (d : Address) : Answer → Answer
  | .stepped (.ok report) => .stepped (.ok (report.ahead d))
  | .stepped (.error cause) => .stepped (.error (cause.ahead d))
  | .ticked (.error cause) => .ticked (.error (cause.ahead d))
  | answer => answer

def Outcome.ahead {β : Type} (d : Address) (outcome : Outcome β) : Outcome β :=
  { outcome with
    answer := outcome.answer.ahead d
    registers := outcome.registers.ahead d }

namespace Processor

/-- A processor is the image of another at a distance: both are between instructions, and they
differ in their program counters only and in what is left of instructions before. -/
structure Image (d : Address) (p q : Processor) : Prop where
  left : p.Between
  right : q.Between
  table : q.table = p.table
  registers : q.registers = p.registers.ahead d

variable {p q : Processor} {ram : Ram}

theorem Image.step (h : Image d p q) (hbits : ram.bits ≤ 24) (hrepeats : ram.memory.Repeats d) :
    ∃ answer p' q', p.perform ram .step = .ok (answer, p', ram) ∧
      q.perform ram .step = .ok (answer.ahead d, q', ram) ∧ Image d p' q' := by
  have hpc : q.registers.pc = p.registers.pc + d := by
    rw [h.registers]
    rfl
  have hword : ram.memory.word q.registers.pc = ram.memory.word p.registers.pc := by
    rw [hpc, hrepeats.word]
  have hlookup' : q.table.lookup (ram.memory.word q.registers.pc) =
      p.table.lookup (ram.memory.word p.registers.pc) := by
    rw [hword, h.table]
  rw [perform, perform]
  cases hlookup : p.table.lookup (ram.memory.word p.registers.pc) with
  | none =>
    rw [step_ram_of_illegal hbits h.left.current hlookup,
      step_ram_of_illegal hbits h.right.current (hlookup'.trans hlookup), hword, hpc]
    exact ⟨_, p, q, rfl, rfl, h⟩
  | some i =>
    rw [step_ram hbits h.left hlookup, step_ram hbits h.right (hlookup'.trans hlookup), hword, hpc,
      h.registers, Registers.afterInstruction_ahead hrepeats]
    exact ⟨_, _, _, rfl, rfl, ⟨rfl, rfl, rfl⟩, ⟨rfl, rfl, rfl⟩, h.table, rfl⟩

theorem Image.steps (h : Image d p q) (hbits : ram.bits ≤ 24) (hrepeats : ram.memory.Repeats d)
    (n : Nat) :
    ∃ outcomes p' q', p.performAll ram (.replicate n .step) = .ok (outcomes, p', ram) ∧
      q.performAll ram (.replicate n .step) = .ok (outcomes.map (Outcome.ahead d), q', ram) ∧
      Image d p' q' := by
  induction n generalizing p q with
  | zero => exact ⟨[], p, q, rfl, rfl, h⟩
  | succ n ih =>
    obtain ⟨answer, p₁, q₁, hp, hq, himage⟩ := h.step hbits hrepeats
    obtain ⟨outcomes, p', q', hps, hqs, hlast⟩ := ih himage
    have hp_mid : p₁.isMidInstruction = false := congrArg Option.isSome himage.left.current
    have hq_mid : q₁.isMidInstruction = false := congrArg Option.isSome himage.right.current
    refine ⟨⟨answer, p₁.registers, false, ram⟩ :: outcomes, p', q', ?_, ?_, hlast⟩
    · rw [List.replicate_succ, performAll, hp]
      dsimp only [bind, Except.bind]
      rw [hps, hp_mid]
      rfl
    · rw [List.replicate_succ, performAll, hq]
      dsimp only [bind, Except.bind]
      rw [hqs, hq_mid, himage.registers]
      rfl

/-- Address lines that are not connected have no influence: at any image of a program the same is
answered and done, step by step, but for the addresses in answers and the program counter. -/
theorem performAll_steps_ahead {t : Table} (hp : Reachable t p) (hq : Reachable t q)
    (hp_mid : p.isMidInstruction = false) (hq_mid : q.isMidInstruction = false)
    (hbits : ram.bits ≤ 24) (m : Int)
    (hregs : q.registers = p.registers.ahead (UInt32.ofInt (m * 2 ^ ram.bits))) (n : Nat) :
    ∃ outcomes p' q', p.performAll ram (.replicate n .step) = .ok (outcomes, p', ram) ∧
      q.performAll ram (.replicate n .step) =
        .ok (outcomes.map (Outcome.ahead (UInt32.ofInt (m * 2 ^ ram.bits))), q', ram) ∧
      q'.registers = p'.registers.ahead (UInt32.ofInt (m * 2 ^ ram.bits)) := by
  have htable : q.table = p.table := hq.consistent.table.trans hp.consistent.table.symm
  have himage : Image (UInt32.ofInt (m * 2 ^ ram.bits)) p q :=
    ⟨hp.between hp_mid, hq.between hq_mid, htable, hregs⟩
  obtain ⟨outcomes, p', q', hps, hqs, hlast⟩ := himage.steps hbits (Ram.repeats hbits m) n
  exact ⟨outcomes, p', q', hps, hqs, hlast.registers⟩

/-- CMP.W 0(PC),D0 across the last address, and the word at the first address that is no opcode. -/
theorem performAll_steps_ahead_wrapping :
    let ram := (Ram.zeroed 4 (by decide)).setWord 12 0xB07A
    let p := (ofTable .standard).setPc 12
    let q := (ofTable .standard).setPc 0xFFFFFFFC
    p.isMidInstruction = false ∧ q.isMidInstruction = false ∧ ram.bits ≤ 24 ∧
      q.registers = p.registers.ahead 0xFFFFFFF0 ∧
      ∃ outcomes p' q', p.performAll ram [.step, .step] = .ok (outcomes, p', ram) ∧
        q.performAll ram [.step, .step] =
          .ok (outcomes.map (Outcome.ahead 0xFFFFFFF0), q', ram) ∧
        q'.registers = p'.registers.ahead 0xFFFFFFF0 := by
  intro ram p q
  have hdistance : UInt32.ofInt (-1 * 2 ^ ram.bits) = 0xFFFFFFF0 := by decide
  have hregs : q.registers = p.registers.ahead (UInt32.ofInt (-1 * 2 ^ ram.bits)) := by decide
  have hp : Reachable .standard p := Reachable.fresh.setPc 12
  have hq : Reachable .standard q := Reachable.fresh.setPc 0xFFFFFFFC
  have hbits : ram.bits ≤ 24 := by decide
  have hrun := performAll_steps_ahead hp hq rfl rfl hbits (-1) hregs 2
  rw [hdistance] at hregs hrun
  exact ⟨rfl, rfl, hbits, hregs, hrun⟩

end Processor

end Compare68k
