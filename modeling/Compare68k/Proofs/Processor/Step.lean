import Compare68k.Proofs.Operand.Delivery
import Compare68k.Proofs.Processor.Reachable
/-!
# Whole instructions

Ticking an instruction to its end.  The report on it, and all of the processor but its registers,
follow from the opcode alone; the registers and the bus are what the rest of the instruction makes
of them when it runs in one go.  On a RAM that is the effect of the instruction in one shot.
-/

namespace Compare68k

/-- The ticks of an instruction.  All its activities are waited for but the last prefetch, which
takes one tick. -/
def Instruction.ticks (i : Instruction) : Nat :=
  Cycle.totalTicks i.schedule - 1

def Instruction.report (i : Instruction) (a : Address) (op : Opcode) (ticks : Nat) : Report :=
  { address := a
    opcode := op
    ticks
    cycles := Cycle.totalCycles i.schedule
    transactions := i.schedule }

namespace Processor

def completed (p : Processor) (i : Instruction) (regs : Registers) : Processor :=
  { p with
    cpu :=
      { registers := regs
        progress := .finished
        operand := none
        ledger := ⟨Cycle.totalCycles i.schedule, i.schedule⟩ }
    current := none }

variable {β : Type} [Bus β] {t : Table} {p p' : Processor} {f : InFlight} {i : Instruction}
  {k : Nat} {bus bus' : β}

theorem stepFrom_of_break {b : Break} (n : Nat)
    (h : p.advance bus = .ok (.error b, p', bus')) :
    p.stepFrom n bus = .ok (.error b, p', bus') := by
  rw [stepFrom]
  split <;> rename_i heq <;> rw [h] at heq <;> cases heq
  rfl

theorem stepFrom_of_fault {fault : Fault} (n : Nat) (h : p.advance bus = .error fault) :
    p.stepFrom n bus = .error fault := by
  rw [stepFrom]
  split <;> rename_i heq <;> rw [h] at heq <;> cases heq
  rfl

theorem stepFrom_of_completed (n : Nat) (h : p.advance bus = .ok (.ok (some f), p', bus')) :
    p.stepFrom n bus = .ok (.ok (p'.report f (n + 1)), p', bus') := by
  rw [stepFrom]
  split <;> rename_i heq <;> rw [h] at heq <;> cases heq
  rfl

theorem stepFrom_of_underway (n : Nat) (h : p.advance bus = .ok (.ok none, p', bus')) :
    p.stepFrom n bus = p'.stepFrom (n + 1) bus' := by
  rw [stepFrom]
  split <;> rename_i heq <;> rw [h] at heq <;> cases heq
  rfl

theorem eq_completed (htable : p'.table = p.table) (hcurrent : p'.current = none)
    (h : i.Complete k p'.cpu) : p' = p.completed i p'.registers := by
  obtain ⟨cpu, table, current⟩ := p'
  cases htable
  cases hcurrent
  exact congrArg (Processor.mk · p.table none) h.cpu_eq

theorem report_of_complete (h : i.Complete k p.cpu) (n : Nat) :
    p.report f n = i.report f.address f.opcode n := by
  have hledger : p.cpu.ledger = ⟨Cycle.totalCycles i.schedule, i.schedule⟩ :=
    congrArg Cpu.ledger h.cpu_eq
  rw [Processor.report, hledger]
  rfl

theorem Ticked.flying_of_lt {done : Option InFlight} (h : Ticked t f i k p done)
    (hk : k < i.ticks) : p.Flying t f i k := by
  cases h with
  | underway h => exact h
  | complete current h =>
    have htotal := h.totalTicks
    rw [Instruction.ticks] at hk
    omega

theorem Ticked.complete_of_eq {done : Option InFlight} (h : Ticked t f i k p done)
    (hk : k = i.ticks) : p.current = none ∧ i.Complete k p.cpu := by
  cases h with
  | underway h =>
    have hlt := h.underway.lt h.decoded
    rw [Instruction.ticks] at hk
    omega
  | complete current h => exact ⟨current, h⟩

/-- From the `k`-th tick of an instruction on, what is left of the instruction runs to its end. -/
theorem stepFrom_of_ticked {done : Option InFlight} (hticked : Ticked t f i k p' done)
    (htable : p'.table = p.table) (hadvance : p.advance bus = .ok (.ok done, p', bus')) (n : Nat) :
    ∃ regs last, i.remaining p'.cpu bus' = .ok (regs, last) ∧
      p.stepFrom n bus =
        .ok (.ok (i.report f.address f.opcode (n + (Cycle.totalTicks i.schedule - k))),
          p.completed i regs, last) := by
  -- by induction on the ticks to come, each of which leads to a state of the same kind
  induction hm : Cycle.totalTicks i.schedule - k generalizing k p p' bus bus' done n with
  | zero =>
    cases hticked with
    | underway hflying =>
      have hlt := hflying.underway.lt hflying.decoded
      omega
    | complete hcurrent hcomplete =>
      have htotal := hcomplete.totalTicks
      omega
  | succ m ih =>
    cases hticked with
    | underway hflying =>
      obtain ⟨next, bus₁, done, hadvance', htable', hticked', hremaining⟩ :=
        advance_of_flying hflying bus'
      obtain ⟨regs, last, hremaining', hstep⟩ :=
        ih hticked' htable' hadvance' (n + 1) (by omega)
      refine ⟨regs, last, hremaining.symm.trans hremaining', ?_⟩
      rw [stepFrom_of_underway n hadvance, hstep, completed, completed, htable]
      congr 4
      omega
    | complete hcurrent hcomplete =>
      have htotal := hcomplete.totalTicks
      have hcompleted := eq_completed htable hcurrent hcomplete
      refine ⟨p'.registers, bus', hcomplete.remaining bus', ?_⟩
      have hm : m = 0 := by omega
      rw [stepFrom_of_completed n hadvance, ← hcompleted, report_of_complete hcomplete, hm]

theorem stepFrom_of_flying (h : p.Flying t f i k) (n : Nat) (bus : β) :
    ∃ regs last, i.remaining p.cpu bus = .ok (regs, last) ∧
      p.stepFrom n bus =
        .ok (.ok (i.report f.address f.opcode (n + (Cycle.totalTicks i.schedule - (k + 1)))),
          p.completed i regs, last) := by
  obtain ⟨p', bus', done, hadvance, htable, hticked, hremaining⟩ := advance_of_flying h bus
  obtain ⟨regs, last, hremaining', hstep⟩ := stepFrom_of_ticked hticked htable hadvance n
  exact ⟨regs, last, hremaining.symm.trans hremaining', hstep⟩

theorem step_of_between (h : p.Between) (bus : β)
    (hlookup : p.table.lookup (Bus.readWord bus p.registers.pc).1 = some i) :
    ∃ regs last,
      i.fromSource (.ofMode i.source i.size) (p.registers.skip 1)
        (Bus.readWord bus p.registers.pc).2 = .ok (regs, last) ∧
      p.step bus =
        .ok (.ok (i.report p.registers.pc (Bus.readWord bus p.registers.pc).1
            i.ticks), p.completed i regs, last) := by
  obtain ⟨p', bus', done, hadvance, htable, hticked, hremaining⟩ :=
    advance_of_between h bus hlookup
  obtain ⟨regs, last, hremaining', hstep⟩ := stepFrom_of_ticked hticked htable hadvance 0
  refine ⟨regs, last, hremaining.symm.trans hremaining', ?_⟩
  rw [step, hstep, Nat.zero_add]
  rfl

theorem step_of_illegal (h : p.current = none) (bus : β)
    (hlookup : p.table.lookup (Bus.readWord bus p.registers.pc).1 = none) :
    p.step bus =
      .ok (.error (.illegalOpcode p.registers.pc (Bus.readWord bus p.registers.pc).1), p,
        (Bus.readWord bus p.registers.pc).2) :=
  stepFrom_of_break 0 (advance_of_illegal h bus hlookup)

/-! ## On a RAM -/

theorem fromSource_ram {ram : Ram} (hbits : ram.bits ≤ 24) {op : Opcode} (hd : i.Decoded op)
    (regs : Registers) :
    i.fromSource (.ofMode i.source i.size) (regs.skip 1) ram =
      .ok (regs.afterInstruction ram.memory i, ram) := by
  rw [Instruction.fromSource, Resolution.resolve_ofMode hbits hd.source_wellFormed]
  dsimp only [bind, Except.bind]
  rw [Instruction.fromDestination, Resolution.resolve_ofMode hbits hd.destination_wellFormed]
  dsimp only [bind, Except.bind]
  rw [Mode.status_after]
  rfl

/-- On a RAM an instruction has its effect in one shot. -/
theorem step_ram {ram : Ram} (hbits : ram.bits ≤ 24) (h : p.Between)
    (hlookup : p.table.lookup (ram.memory.word p.registers.pc) = some i) :
    p.step ram =
      .ok (.ok (i.report p.registers.pc (ram.memory.word p.registers.pc)
          i.ticks),
        p.completed i (p.registers.afterInstruction ram.memory i), ram) := by
  have hread : Bus.readWord ram p.registers.pc = (ram.memory.word p.registers.pc, ram) :=
    Ram.readWord_eq hbits _
  have hlookup' : p.table.lookup (Bus.readWord ram p.registers.pc).1 = some i := by
    rw [hread]
    exact hlookup
  obtain ⟨regs, last, hremaining, hstep⟩ := step_of_between h ram hlookup'
  rw [hread, fromSource_ram hbits (Table.decoded_of_lookup hlookup)] at hremaining
  rw [hread] at hstep
  cases hremaining
  exact hstep

theorem step_ram_of_illegal {ram : Ram} (hbits : ram.bits ≤ 24) (h : p.current = none)
    (hlookup : p.table.lookup (ram.memory.word p.registers.pc) = none) :
    p.step ram =
      .ok (.error (.illegalOpcode p.registers.pc (ram.memory.word p.registers.pc)), p, ram) := by
  have hread : Bus.readWord ram p.registers.pc = (ram.memory.word p.registers.pc, ram) :=
    Ram.readWord_eq hbits _
  have hstep := step_of_illegal h ram (by rw [hread]; exact hlookup)
  rw [hread] at hstep
  exact hstep

end Processor

end Compare68k
