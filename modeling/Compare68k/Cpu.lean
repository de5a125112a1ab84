import Compare68k.Bus.Ledger
import Compare68k.Operand.Resolution
/-!
# The processor state

Everything an instruction keeps from one tick to the next: the registers, the progress
marker, the operand being read and the ledger.
-/

namespace Compare68k

structure Cpu where
  registers : Registers := {}
  progress : Progress := .idle
  operand : Option Resolution := none
  ledger : Ledger := {}
deriving DecidableEq, Repr

namespace Cpu

variable {β : Type} [Bus β]

def isFinished (cpu : Cpu) : Bool :=
  cpu.progress = .finished

def beginInstruction (cpu : Cpu) : Except Fault Cpu :=
  if cpu.progress.inFlight then .error (.instructionInFlight cpu.progress)
  else .ok { cpu with progress := .idle, ledger := .empty }

def beginOperand (cpu : Cpu) (mode : Mode) (size : Size) : Except Fault Cpu :=
  match cpu.operand with
  | none => .ok { cpu with operand := some (.ofMode mode size) }
  | some _ => .error .resolutionInProgress

/-- One poll of the given operand, which has been started.  Until the operand is there, each
poll is one tick of a bus activity, which is recorded in the activity's first tick. -/
def pollStarted (cpu : Cpu) (r : Resolution) (bus : β) :
    Except Fault (Option UInt32 × Cpu × β) :=
  match r.wait, r.pending with
  | k + 1, _ => .ok (none, { cpu with operand := some { r with wait := k } }, bus)
  | 0, c :: rest => do
    let (r, registers, bus) ← r.perform c cpu.registers bus
    let operand := some { r with pending := rest, wait := c.ticks - 1 }
    return (none, { cpu with registers, operand, ledger := cpu.ledger.record c }, bus)
  | 0, [] => do
    let value ← r.finish cpu.registers
    return (some value, { cpu with operand := none }, bus)

def poll (cpu : Cpu) (bus : β) : Except Fault (Option UInt32 × Cpu × β) :=
  match cpu.operand with
  | none => .error .nothingToResolve
  | some r => do
    let (r, registers) ← r.prepare cpu.registers
    { cpu with registers }.pollStarted r bus

end Cpu

end Compare68k
