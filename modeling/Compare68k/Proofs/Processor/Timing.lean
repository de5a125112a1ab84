import Compare68k.Proofs.Processor.Step
/-!
# Timing does not depend on data

An instruction takes the ticks and the activities that its opcode says, even if between any two
of its ticks something else writes to the register file, the program counter included, and to the
bus.  Main statement: with any changes between ticks, an instruction is in flight as long as it has
had fewer ticks than its activities span, less one; then it is complete, and its ledger is the one
that the timing table gives.
-/

namespace Compare68k

/-- Something that happens between two ticks. -/
abbrev Change (β : Type) := Registers × β → Registers × β

namespace Processor

variable {β : Type} [Bus β] {t : Table} {p p' : Processor} {f : InFlight} {i : Instruction}
  {k : Nat} {bus bus' : β}

def disturbed (p : Processor) (bus : β) :
    List (Change β) → Except Fault (Except Break Unit × Processor × β)
  | [] => p.tick bus
  | change :: changes => do
    let (result, p, bus) ← p.tick bus
    match result with
    | .error b => return (.error b, p, bus)
    | .ok () =>
      let (regs, bus) := change (p.registers, bus)
      (p.withRegisters regs).disturbed bus changes

theorem tick_of_advance {done : Option InFlight}
    (h : p.advance bus = .ok (.ok done, p', bus')) : p.tick bus = .ok (.ok (), p', bus') := by
  rw [tick, h]
  rfl

theorem disturbed_of_ticked {done : Option InFlight} (changes : List (Change β))
    (hticked : Ticked t f i k p' done) (hadvance : p.advance bus = .ok (.ok done, p', bus'))
    (hticks : k + changes.length ≤ i.ticks) :
    ∃ last bus₁ done, p.disturbed bus changes = .ok (.ok (), last, bus₁) ∧
      Ticked t f i (k + changes.length) last done := by
  -- ticks are left at every change, so the instruction has not been completed before it
  induction changes generalizing k p p' bus bus' done with
  | nil => exact ⟨p', bus', done, tick_of_advance hadvance, hticked⟩
  | cons change changes ih =>
    rw [List.length_cons] at hticks
    cases hticked with
    | complete hcurrent hcomplete =>
      have htotal := hcomplete.totalTicks
      rw [Instruction.ticks] at hticks
      omega
    | underway hflying =>
      let changed := change (p'.registers, bus')
      obtain ⟨next, bus₁, done, hadvance', -, hticked', -⟩ :=
        advance_of_flying (hflying.withRegisters changed.1) changed.2
      obtain ⟨last, bus₂, done', hrest, hlast⟩ := ih hticked' hadvance' (by omega)
      refine ⟨last, bus₂, done', ?_, ?_⟩
      · rw [disturbed, tick_of_advance hadvance]
        exact hrest
      · rw [List.length_cons, Nat.add_comm changes.length, ← Nat.add_assoc]
        exact hlast

/-- The course of an instruction depends on its opcode alone. -/
theorem timing_of_disturbed (hp : Reachable t p) (hmid : p.isMidInstruction = false)
    (hi : t.lookup (Bus.readWord bus p.registers.pc).1 = some i) (changes : List (Change β))
    (hticks : changes.length + 1 ≤ i.ticks) :
    ∃ last bus', p.disturbed bus changes = .ok (.ok (), last, bus') ∧
      (last.isMidInstruction = true ↔ changes.length + 1 < i.ticks) ∧
      (changes.length + 1 = i.ticks →
        last.cpu.ledger.transactions = i.schedule ∧
        last.cpu.ledger.cycles = Cycle.totalCycles i.schedule ∧
        last.cpu.ledger.cycles = i.tableCycles ∧
        last.cpu.ledger.cycles = 2 * (changes.length + 1) + 2) := by
  have htable : p.table = t := hp.consistent.table
  obtain ⟨first, bus₁, done, hadvance, -, hticked, -⟩ :=
    advance_of_between (hp.between hmid) bus (htable ▸ hi)
  obtain ⟨last, bus₂, done', hrun, hlast⟩ :=
    disturbed_of_ticked changes hticked hadvance (by omega)
  refine ⟨last, bus₂, hrun, ?_⟩
  cases hlast with
  | underway hflying =>
    have hlt := hflying.underway.lt hflying.decoded
    have hmid' : last.isMidInstruction = true := by
      rw [isMidInstruction, hflying.current]
      rfl
    rw [Instruction.ticks]
    refine ⟨⟨fun _ => by omega, fun _ => hmid'⟩, fun heq => by omega⟩
  | complete hcurrent hcomplete =>
    have htotal := hcomplete.totalTicks
    have hcycles : last.cpu.ledger.cycles = Cycle.totalCycles i.schedule := by
      rw [hcomplete.cpu_eq]
    have hmid' : last.isMidInstruction = false := by
      rw [isMidInstruction, hcurrent]
      rfl
    have hticks' : Cycle.totalTicks i.schedule = i.ticks + 1 := by
      rw [Instruction.ticks]
      omega
    refine ⟨?_, ?_⟩
    · rw [hmid']
      constructor
      · intro hfalse
        cases hfalse
      · intro hlt
        omega
    · intro _
      refine ⟨hcomplete.transactions, hcycles, ?_, ?_⟩
      · rw [hcycles, Instruction.totalCycles_schedule (Table.decoded_of_lookup hi)]
      · rw [hcomplete.cycles, Nat.add_comm 1]

/-- CMP.W (A0),D0, with the program counter sent elsewhere and the opcode overwritten between its
ticks. -/
theorem timing_of_disturbed_jump :
    ∃ last bus',
      (ofTable .standard).disturbed ((Ram.zeroed 4 (by decide)).setWord 0 0xB050)
          [fun (regs, ram) => ({ regs with pc := 8 }, ram),
            fun (regs, ram) => ({ regs with pc := 4 }, ram.setWord 0 0)] =
        .ok (.ok (), last, bus') ∧
      last.isMidInstruction = false ∧ last.cpu.ledger = ⟨8, [.read, .prefetch]⟩ := by
  have hi : Table.standard.lookup
      (Bus.readWord ((Ram.zeroed 4 (by decide)).setWord 0 0xB050)
        (ofTable .standard).registers.pc).1 =
        some ⟨.cmp, .word, .indirect 0, .dataReg 0⟩ := by decide
  obtain ⟨last, bus', hrun, hmid, hledger⟩ :=
    timing_of_disturbed .fresh rfl hi
      [fun (regs, ram) => ({ regs with pc := 8 }, ram),
        fun (regs, ram) => ({ regs with pc := 4 }, ram.setWord 0 0)] (by decide)
  obtain ⟨htransactions, hcycles, -, -⟩ := hledger rfl
  refine ⟨last, bus', hrun, ?_, ?_⟩
  · exact Bool.eq_false_iff.mpr (fun h => absurd (hmid.mp h) (by decide))
  · exact congrArg₂ Ledger.mk hcycles htransactions

end Processor

end Compare68k
