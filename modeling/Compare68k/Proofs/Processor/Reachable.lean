import Compare68k.Processor
import Compare68k.Proofs.Denotation
import Compare68k.Proofs.Instruction.Course
/-!
# States that a processor can reach

The states that ticks, changes of the program counter and writes to the register file lead to,
against buses that answer reads in any way.  Main statement: in every one of them the instruction
in flight is underway as its opcode in the table says, and between instructions no operand is being
read.  So a tick succeeds in every such state, unless it finds an opcode that is none.
-/

namespace Compare68k

namespace Processor

def withRegisters (p : Processor) (regs : Registers) : Processor :=
  { p with cpu := { p.cpu with registers := regs } }

/-- The states a processor over a table can get into. -/
inductive Reachable (t : Table) : Processor → Prop where
  | fresh : Reachable t (ofTable t)
  | tick {β : Type} [Bus β] {p p' : Processor} {bus bus' : β} {result : Except Break Unit}
      (h : Reachable t p) (hp : p.tick bus = .ok (result, p', bus')) : Reachable t p'
  | setPc {p : Processor} (a : Address) (h : Reachable t p) : Reachable t (p.setPc a)
  | withRegisters {p : Processor} (regs : Registers) (h : Reachable t p) :
      Reachable t (p.withRegisters regs)

structure Between (p : Processor) : Prop where
  current : p.current = none
  progress : p.cpu.progress.inFlight = false
  operand : p.cpu.operand = none

structure Flying (t : Table) (p : Processor) (f : InFlight) (i : Instruction) (k : Nat) :
    Prop where
  current : p.current = some f
  lookup : t.lookup f.opcode = some i
  cls : f.cls = i.cls
  underway : i.Underway k p.cpu

/-- The control state of a processor fits its table. -/
structure Consistent (t : Table) (p : Processor) : Prop where
  table : p.table = t
  control : p.Between ∨ ∃ f i k, p.Flying t f i k

variable {β : Type} [Bus β] {t : Table} {p p' : Processor} {f : InFlight} {i : Instruction}
  {k : Nat}

theorem Flying.decoded (h : p.Flying t f i k) : i.Decoded f.opcode :=
  Table.decoded_of_lookup h.lookup

/-- What is written to the register file in the middle of an instruction leaves its course
alone. -/
theorem Flying.withRegisters (h : p.Flying t f i k) (regs : Registers) :
    (p.withRegisters regs).Flying t f i k :=
  ⟨h.current, h.lookup, h.cls, h.underway.withRegisters regs⟩

/-! ## One tick -/

inductive Ticked (t : Table) (f : InFlight) (i : Instruction) (k : Nat) (p : Processor) :
    Option InFlight → Prop where
  | underway (h : p.Flying t f i k) : Ticked t f i k p none
  | complete (current : p.current = none) (h : i.Complete k p.cpu) : Ticked t f i k p (some f)

theorem run_of_tick {cpu : Cpu} {bus bus' : β} (hlookup : t.lookup f.opcode = some i)
    (hcls : f.cls = i.cls) (htick : i.cls.tick f.opcode p.cpu bus = .ok (cpu, bus'))
    (hafter : i.Underway k cpu ∨ i.Complete k cpu) :
    ∃ p' done, p.run f bus = .ok (.ok done, p', bus') ∧ p'.table = p.table ∧ p'.cpu = cpu ∧
      Ticked t f i k p' done := by
  rw [run, hcls, htick]
  dsimp only [bind, Except.bind]
  rcases hafter with hunderway | hcomplete
  · rw [hunderway.isFinished]
    exact ⟨_, _, rfl, rfl, rfl, .underway ⟨rfl, hlookup, hcls, hunderway⟩⟩
  · rw [hcomplete.isFinished]
    exact ⟨_, _, rfl, rfl, rfl, .complete rfl hcomplete⟩

theorem advance_of_flying (h : p.Flying t f i k) (bus : β) :
    ∃ p' bus' done, p.advance bus = .ok (.ok done, p', bus') ∧ p'.table = p.table ∧
      Ticked t f i (k + 1) p' done ∧ i.remaining p'.cpu bus' = i.remaining p.cpu bus := by
  obtain ⟨cpu, bus', htick, hafter, hremaining⟩ := h.underway.tick h.decoded bus
  obtain ⟨p', done, hrun, htable, hcpu, hticked⟩ := run_of_tick h.lookup h.cls htick hafter
  refine ⟨p', bus', done, ?_, htable, hticked, ?_⟩
  · rw [advance, h.current]
    exact hrun
  · rw [hcpu, hremaining]

/-- Nothing but the registers and the table goes into the next instruction. -/
theorem takeOpcode_of_between (h : p.Between) :
    p.takeOpcode = .ok ⟨⟨p.registers.skip 1, .idle, none, .empty⟩, p.table, none⟩ := by
  rw [takeOpcode, Cpu.beginInstruction, h.progress, if_neg Bool.false_ne_true]
  show Except.ok (⟨⟨p.registers.skip 1, .idle, p.cpu.operand, .empty⟩, p.table, p.current⟩ :
    Processor) = _
  rw [h.operand, h.current]

theorem advance_of_between (h : p.Between) (bus : β)
    (hlookup : p.table.lookup (Bus.readWord bus p.registers.pc).1 = some i) :
    ∃ p' bus' done, p.advance bus = .ok (.ok done, p', bus') ∧ p'.table = p.table ∧
      Ticked p.table ⟨p.registers.pc, (Bus.readWord bus p.registers.pc).1, i.cls⟩ i 1 p' done ∧
      i.remaining p'.cpu bus' =
        i.fromSource (.ofMode i.source i.size) (p.registers.skip 1)
          (Bus.readWord bus p.registers.pc).2 := by
  let op := (Bus.readWord bus p.registers.pc).1
  let begun : Processor := ⟨⟨p.registers.skip 1, .idle, none, .empty⟩, p.table, none⟩
  have hidle : begun.cpu.progress = .idle := rfl
  obtain ⟨cpu, bus', htick, hafter, hremaining⟩ :=
    Instruction.tick_of_idle (Table.decoded_of_lookup hlookup) hidle rfl rfl
      (Bus.readWord bus p.registers.pc).2
  obtain ⟨p', done, hrun, htable, hcpu, hticked⟩ :=
    run_of_tick (p := begun) (f := ⟨p.registers.pc, op, i.cls⟩) hlookup rfl htick hafter
  refine ⟨p', bus', done, ?_, htable, hticked, ?_⟩
  · rw [advance, h.current]
    dsimp only
    rw [show p.cpu.registers = p.registers from rfl, hlookup]
    dsimp only
    rw [takeOpcode_of_between h]
    exact hrun
  · rw [hcpu]
    exact hremaining

theorem advance_of_illegal (h : p.current = none) (bus : β)
    (hlookup : p.table.lookup (Bus.readWord bus p.registers.pc).1 = none) :
    p.advance bus =
      .ok (.error (.illegalOpcode p.registers.pc (Bus.readWord bus p.registers.pc).1), p,
        (Bus.readWord bus p.registers.pc).2) := by
  rw [advance, h]
  dsimp only
  rw [show p.cpu.registers = p.registers from rfl, hlookup]

/-! ## Every run -/

theorem Ticked.control {done : Option InFlight} (h : Ticked t f i k p done) :
    p.Between ∨ ∃ f i k, p.Flying t f i k := by
  cases h with
  | underway h => exact .inr ⟨f, i, k, h⟩
  | complete current h =>
    refine .inl ⟨current, ?_, h.operand⟩
    rw [h.progress]
    rfl

theorem Consistent.advance (h : Consistent t p) (bus : β) :
    ∃ result p' bus', p.advance bus = .ok (result, p', bus') ∧ Consistent t p' := by
  obtain ⟨htable, hbetween | ⟨f, i, k, hflying⟩⟩ := h
  · cases hlookup : p.table.lookup (Bus.readWord bus p.registers.pc).1 with
    | none =>
      exact ⟨_, _, _, advance_of_illegal hbetween.current bus hlookup, htable, .inl hbetween⟩
    | some i =>
      obtain ⟨p', bus', done, hadvance, htable', hticked, -⟩ :=
        advance_of_between hbetween bus hlookup
      exact ⟨_, p', bus', hadvance, htable'.trans htable, htable ▸ hticked.control⟩
  · obtain ⟨p', bus', done, hadvance, htable', hticked, -⟩ := advance_of_flying hflying bus
    exact ⟨_, p', bus', hadvance, htable'.trans htable, hticked.control⟩

theorem Consistent.withRegisters (h : Consistent t p) (regs : Registers) :
    Consistent t (p.withRegisters regs) := by
  obtain ⟨htable, hbetween | ⟨f, i, k, hflying⟩⟩ := h
  · exact ⟨htable, .inl ⟨hbetween.current, hbetween.progress, hbetween.operand⟩⟩
  · exact ⟨htable, .inr ⟨f, i, k, hflying.withRegisters regs⟩⟩

theorem Reachable.consistent (h : Reachable t p) : Consistent t p := by
  induction h with
  | fresh => exact ⟨rfl, .inl ⟨rfl, rfl, rfl⟩⟩
  | tick h hp ih =>
    rename_i bus bus' result
    obtain ⟨result', p', bus', hadvance, hconsistent⟩ := ih.advance bus
    rw [Processor.tick, hadvance] at hp
    cases hp
    exact hconsistent
  | setPc a h ih => exact ⟨ih.table, .inl ⟨rfl, rfl, rfl⟩⟩
  | withRegisters regs h ih => exact ih.withRegisters regs

theorem Reachable.between (h : Reachable t p) (hmid : p.isMidInstruction = false) :
    p.Between := by
  rcases h.consistent.control with hbetween | ⟨f, i, k, hflying⟩
  · exact hbetween
  · rw [isMidInstruction, hflying.current] at hmid
    cases hmid

/-! ## Operations made of ticks and changes -/

variable {bus bus' : β}

theorem Reachable.advance {result : Except Break (Option InFlight)} (h : Reachable t p)
    (hp : p.advance bus = .ok (result, p', bus')) : Reachable t p' := by
  have htick : p.tick bus = .ok (result.map fun _ => (), p', bus') := by
    rw [Processor.tick, hp]
    rfl
  exact h.tick htick

theorem Reachable.stepFrom {result : Except Break Report} {n : Nat} (h : Reachable t p)
    (hp : p.stepFrom n bus = .ok (result, p', bus')) : Reachable t p' := by
  fun_induction Processor.stepFrom n p bus with
  | case1 n p bus f hf => cases hp
  | case2 n p bus b q bus₁ hb =>
    cases hp
    exact h.advance hb
  | case3 n p bus i q bus₁ hi =>
    cases hp
    exact h.advance hi
  | case4 n p bus q bus₁ hn ih => exact ih (h.advance hn) hp

theorem Reachable.step {result : Except Break Report} (h : Reachable t p)
    (hp : p.step bus = .ok (result, p', bus')) : Reachable t p' :=
  h.stepFrom hp

theorem Reachable.setRegister (h : Reachable t p) (r : Register) (value : UInt32) :
    Reachable t (p.setRegister r value) := by
  cases r with
  | pc => exact h.setPc value
  | data n => exact h.withRegisters (p.registers.set (.data n) value)
  | address n => exact h.withRegisters (p.registers.set (.address n) value)
  | sr => exact h.withRegisters (p.registers.set .sr value)
  | ccr => exact h.withRegisters (p.registers.set .ccr value)

theorem Reachable.setNamed (h : Reachable t p) (name : String) (value : UInt32) :
    Reachable t (p.setNamed name value) := by
  unfold Processor.setNamed
  split
  · exact h.setRegister _ value
  · exact h
end Processor

end Compare68k
