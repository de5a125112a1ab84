import Compare68k.Proofs.Instruction.Turn
import Compare68k.Proofs.Processor.Suspension
/-!
# Ticks as turns of an instruction

A tick of a processor goes on with the instruction in flight, or takes the opcode at the program
counter and begins its instruction.  Either way it is one turn of an instruction of the table, from
the state that `onset` says.  Main statement: every tick from a reachable state is such a turn,
unless it finds an opcode that is none and changes nothing.
-/

namespace Compare68k

namespace Processor

/-- The state in which the next tick finds its instruction: between instructions, the one in which
the next instruction begins. -/
def onset (p : Processor) : Cpu :=
  match p.current with
  | some _ => p.cpu
  | none => ⟨p.registers.skip 1, .idle, none, .empty⟩

structure Turned {β : Type} [Bus β] (t : Table) (p : Processor) (bus : β) (i : Instruction)
    (p' : Processor) : Prop where
  lookup : t.lookup (p.subject bus).2 = some i
  turn : i.Turn p.onset p'.cpu
  /-- The next tick goes on from here, unless the instruction is complete. -/
  next : p'.isMidInstruction = true ∨ p'.cpu.progress = .finished

variable {β : Type} [Bus β] {t : Table} {p p' : Processor} {f : InFlight} {i : Instruction}
  {bus bus' : β} {done : Option InFlight}

theorem registers_onset (p : Processor) :
    p.onset.registers.data = p.registers.data ∧ p.onset.registers.address = p.registers.address ∧
      p.onset.registers.status = p.registers.status := by
  unfold onset
  cases p.current <;> exact ⟨rfl, rfl, rfl⟩

theorem next_of_run (h : p.run f bus = .ok (.ok done, p', bus')) :
    ∃ cpu, f.cls.tick f.opcode p.cpu bus = .ok (cpu, bus') ∧ p'.cpu = cpu ∧
      (p'.isMidInstruction = true ∨ p'.cpu.progress = .finished) := by
  obtain ⟨⟨cpu, bus₁⟩, htick, h⟩ := exists_of_bind h
  dsimp only at h
  split at h <;> cases h
  · rename_i hfinished
    exact ⟨_, htick, rfl, .inr (of_decide_eq_true hfinished)⟩
  · exact ⟨_, htick, rfl, .inl rfl⟩

theorem turned_of_advance (hp : Reachable t p)
    (h : p.advance bus = .ok (.ok done, p', bus')) : ∃ i, Turned t p bus i p' := by
  obtain ⟨htable, hbetween | ⟨f, i, k, hflying⟩⟩ := hp.consistent
  · unfold advance at h
    rw [hbetween.current] at h
    dsimp only at h
    split at h
    · cases h
    · rename_i i hlookup
      obtain ⟨begun, htake, h⟩ := exists_of_bind h
      cases (takeOpcode_of_between hbetween).symm.trans htake
      obtain ⟨cpu, htick, hcpu, hnext⟩ := next_of_run h
      refine ⟨i, ?_, ?_, hnext⟩
      · rw [subject, hbetween.current, ← htable]
        exact hlookup
      · rw [onset, hbetween.current, hcpu]
        exact Instruction.turn_of_idle (Table.decoded_of_lookup hlookup) rfl rfl rfl htick
  · rw [advance, hflying.current] at h
    obtain ⟨cpu, htick, hcpu, hnext⟩ := next_of_run h
    rw [hflying.cls] at htick
    refine ⟨i, ?_, ?_, hnext⟩
    · rw [subject, hflying.current]
      exact hflying.lookup
    · rw [onset, hflying.current, hcpu]
      exact hflying.underway.turn hflying.decoded htick

theorem eq_of_break {b : Break} (h : p.advance bus = .ok (.error b, p', bus')) : p' = p := by
  unfold advance at h
  split at h
  · obtain ⟨⟨cpu, bus₁⟩, -, h⟩ := exists_of_bind h
    dsimp only at h
    split at h <;> cases h
  · dsimp only at h
    split at h
    · cases h
      rfl
    · obtain ⟨begun, -, h⟩ := exists_of_bind h
      obtain ⟨⟨cpu, bus₁⟩, -, h⟩ := exists_of_bind h
      dsimp only at h
      split at h <;> cases h

theorem advance_of_tick (h : p.tick bus = .ok (.ok (), p', bus')) :
    ∃ done, p.advance bus = .ok (.ok done, p', bus') := by
  obtain ⟨⟨result, q, bus₁⟩, hadvance, h⟩ := exists_of_bind h
  cases result with
  | error b => cases h
  | ok done =>
    cases h
    exact ⟨done, hadvance⟩

end Processor

end Compare68k
