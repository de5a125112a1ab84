import Compare68k.Instruction.Descent
import Compare68k.Listing.Disassembly
/-!
# The processor

A processor fetches opcodes, looks them up in its table, and ticks each instruction until it
is complete.  It can be driven a tick or an instruction at a time.  An opcode that stands for
no instruction stops it, before anything has changed.
-/

namespace Compare68k

inductive Break where
  /-- The word at the program counter stands for no instruction. -/
  | illegalOpcode (address : Address) (opcode : Opcode)
deriving DecidableEq, Repr

def Break.message : Break → String
  | illegalOpcode a op =>
    "illegal opcode $" ++ Text.Hex.padded 4 op.toNat ++ " at $" ++ Text.Hex.padded 6 a.toNat

/-- An instruction that has been fetched and is not complete. -/
structure InFlight where
  address : Address
  opcode : Opcode
  cls : Class
deriving DecidableEq, Repr

structure Report where
  address : Address
  opcode : Opcode
  ticks : Nat
  cycles : Nat
  /-- The bus activities recorded, in order. -/
  transactions : List Cycle
deriving DecidableEq, Repr

structure Processor where
  cpu : Cpu := {}
  table : Table
  current : Option InFlight := none
deriving DecidableEq, Repr

namespace Processor

variable {β : Type} [Bus β]

def ofTable (table : Table) : Processor :=
  { table }

def description : String := "Motorola 68000"

def registerNames : List String :=
  ["D0", "D1", "D2", "D3", "D4", "D5", "D6", "D7", "A0", "A1", "A2", "A3", "A4", "A5", "A6", "A7",
    "PC", "SR"]

def isMidInstruction (p : Processor) : Bool :=
  p.current.isSome

def registers (p : Processor) : Registers :=
  p.cpu.registers

def setRegisterOnly (p : Processor) (r : Register) (value : UInt32) : Processor :=
  { p with cpu := { p.cpu with registers := p.cpu.registers.set r value } }

/-- Goes on at another address.  An instruction in flight is given up. -/
def setPc (p : Processor) (a : Address) : Processor :=
  { p with
    cpu :=
      { p.cpu with
        registers := { p.cpu.registers with pc := a }
        progress := .idle
        operand := none }
    current := none }

def setRegister (p : Processor) (r : Register) (value : UInt32) : Processor :=
  match r with
  | .pc => p.setPc value
  | _ => p.setRegisterOnly r value

def getNamed (p : Processor) (name : String) : Option UInt32 :=
  (Register.ofName? name).map p.registers.get

def setNamed (p : Processor) (name : String) (value : UInt32) : Processor :=
  match Register.ofName? name with
  | some r => p.setRegister r value
  | none => p

def disassemble (p : Processor) (bus : β) (a : Address) : Line :=
  p.table.disassemble (Bus.peekWord bus) a

def run (p : Processor) (i : InFlight) (bus : β) :
    Except Fault (Except Break (Option InFlight) × Processor × β) := do
  let (cpu, bus) ← i.cls.tick i.opcode p.cpu bus
  if cpu.isFinished then
    return (.ok (some i), { p with cpu, current := none }, bus)
  else
    return (.ok none, { p with cpu, current := some i }, bus)

def takeOpcode (p : Processor) : Except Fault Processor := do
  let cpu ← p.cpu.beginInstruction
  let registers := { cpu.registers with pc := cpu.registers.pc + 2 }
  return { p with cpu := { cpu with registers } }

/-- One tick.  Between instructions it begins with the opcode at the program counter. -/
def advance (p : Processor) (bus : β) :
    Except Fault (Except Break (Option InFlight) × Processor × β) :=
  match p.current with
  | some i => p.run i bus
  | none =>
    let a := p.cpu.registers.pc
    let fetched := Bus.readWord bus a
    match p.table.lookup fetched.1 with
    | none => .ok (.error (.illegalOpcode a fetched.1), p, fetched.2)
    | some instruction => do
      let p ← p.takeOpcode
      p.run ⟨a, fetched.1, instruction.cls⟩ fetched.2

def tick (p : Processor) (bus : β) : Except Fault (Except Break Unit × Processor × β) := do
  let (result, p, bus) ← p.advance bus
  return (result.map fun _ => (), p, bus)

def report (p : Processor) (i : InFlight) (ticks : Nat) : Report :=
  { address := i.address
    opcode := i.opcode
    ticks
    cycles := p.cpu.ledger.cycles
    transactions := p.cpu.ledger.transactions }

/-- How many kinds of progress the current instruction has before it; none has begun between
instructions. -/
def rank (p : Processor) : Nat :=
  match p.current with
  | some _ => p.cpu.progress.rank
  | none => 6

theorem current_of_run {p p' : Processor} {i : InFlight} {bus bus' : β}
    (h : p.run i bus = .ok (.ok none, p', bus')) :
    p'.current = some i ∧ p'.cpu.isFinished = false ∧
      i.cls.tick i.opcode p.cpu bus = .ok (p'.cpu, bus') := by
  obtain ⟨⟨cpu, bus''⟩, ht, h⟩ := exists_of_bind h
  cases hf : cpu.isFinished with
  | true => simp [hf, pure, Except.pure] at h
  | false =>
    simp [hf, pure, Except.pure] at h
    obtain ⟨rfl, rfl⟩ := h
    exact ⟨rfl, hf, ht⟩

theorem closer_of_advance {p p' : Processor} {bus bus' : β}
    (h : p.advance bus = .ok (.ok none, p', bus')) :
    p'.rank < p.rank ∨ p'.rank = p.rank ∧ p'.cpu.operandTicks < p.cpu.operandTicks := by
  unfold advance at h
  split at h
  · rename_i i hc
    obtain ⟨hcur, hf, ht⟩ := current_of_run h
    have hcloser := Class.closer_of_tick ht hf
    simpa only [rank, hc, hcur, Cpu.Closer] using hcloser
  · rename_i hc
    dsimp only at h
    split at h
    · cases h
    · obtain ⟨begun, -, h⟩ := exists_of_bind h
      obtain ⟨hcur, -, -⟩ := current_of_run h
      have hle := p'.cpu.progress.rank_le
      exact .inl (by simp only [rank, hc, hcur]; omega)

/-- Ticks until an instruction is complete, having ticked a number of times before. -/
def stepFrom (ticks : Nat) (p : Processor) (bus : β) :
    Except Fault (Except Break Report × Processor × β) :=
  match h : p.advance bus with
  | .error f => .error f
  | .ok (.error b, p, bus) => .ok (.error b, p, bus)
  | .ok (.ok (some i), p, bus) => .ok (.ok (p.report i (ticks + 1)), p, bus)
  | .ok (.ok none, p, bus) => stepFrom (ticks + 1) p bus
termination_by (p.rank, p.cpu.operandTicks)
decreasing_by
  have := closer_of_advance h
  simp only [Prod.lex_def]
  omega

/-- Runs the current instruction, or between instructions the next one, to its end. -/
def step (p : Processor) (bus : β) : Except Fault (Except Break Report × Processor × β) :=
  p.stepFrom 0 bus

end Processor

end Compare68k
