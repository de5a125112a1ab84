import Compare68k.Cpu
import Compare68k.Instruction.Basic
/-!
# Ticking an instruction

One tick of a compare instruction.  A tick goes through as many stages as it can and stops
where it has to wait for the bus; while it waits it charges two clock cycles.  The stages are
the same for every class: read the source, read the destination, compare, fetch the next
opcode, and, for some, one closing internal cycle.
-/

namespace Compare68k

variable {β : Type} [Bus β]

namespace Cpu

def waitCycles : Nat := 2

def wait (cpu : Cpu) : Cpu :=
  { cpu with ledger := cpu.ledger.charge waitCycles }

def closeInstruction (cpu : Cpu) : Cpu :=
  { cpu with progress := .finished, ledger := cpu.ledger.complete .idle }

/-- Fetches the next opcode, after which the instruction is complete or has only its closing
cycle left. -/
def fetchNext (cpu : Cpu) (c : Class) (size : Size) (destination : Mode) : Cpu :=
  { cpu with
    progress := if c.hasTail size destination then .running c .tail else .finished
    ledger := cpu.ledger.complete .prefetch }

def applyCompare (cpu : Cpu) (c : Class) (size : Size) (source destination : UInt32) : Cpu :=
  let status :=
    cpu.registers.status.afterCompare (c.width size) (c.extend size source) destination
  { cpu with registers := { cpu.registers with status } }

end Cpu

namespace Class

def tickPrefetch (c : Class) (op : Opcode) (size : Size) (cpu : Cpu) : Except Fault Cpu := do
  let destination ← c.destination op
  return cpu.fetchNext c size destination

/-- The stage that reads the destination, with the source at hand. -/
def tickDestination (c : Class) (op : Opcode) (size : Size) (source : UInt32) (cpu : Cpu)
    (bus : β) : Except Fault (Cpu × β) := do
  let (value, cpu, bus) ← cpu.poll bus
  match value with
  | none => return (cpu.wait, bus)
  | some destination =>
    let cpu ← c.tickPrefetch op size (cpu.applyCompare c size source destination)
    return (cpu, bus)

def tickSource (c : Class) (op : Opcode) (size : Size) (cpu : Cpu) (bus : β) :
    Except Fault (Cpu × β) := do
  let (value, cpu, bus) ← cpu.poll bus
  match value with
  | none => return (cpu.wait, bus)
  | some source =>
    let cpu ← cpu.beginOperand (← c.destination op) (c.width size)
    c.tickDestination op size source { cpu with progress := .running c (.destination source) } bus

/-- One tick of an instruction of the class.  A complete instruction ignores it. -/
def tick (c : Class) (op : Opcode) (cpu : Cpu) (bus : β) : Except Fault (Cpu × β) := do
  let size ← c.size op
  match cpu.progress with
  | .idle =>
    let cpu ← cpu.beginOperand (← c.source op) size
    c.tickSource op size { cpu with progress := .running c .source } bus
  | .running d stage =>
    if d = c then
      match stage with
      | .source => c.tickSource op size cpu bus
      | .destination source => c.tickDestination op size source cpu bus
      | .prefetch => return (← c.tickPrefetch op size cpu, bus)
      | .tail => return (cpu.closeInstruction, bus)
    else
      throw (.foreignProgress c cpu.progress)
  | .finished => return (cpu, bus)

end Class

end Compare68k
