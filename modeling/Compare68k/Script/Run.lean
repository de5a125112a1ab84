import Compare68k.Processor
import Compare68k.Script.Statement
/-!
# Running scripts

A script sets up registers and memory and runs instructions.  A run goes through its statements
in order and stops for good when the processor stops.  It keeps a journal of what happened.
-/

namespace Compare68k.Script

/-- Something that happened in a run. -/
inductive Event where
  | assigned (register : Register) (value : UInt32)
  | poked (address : Address) (count : Nat)
  /-- An instruction was run; the line is its listing as it stood in memory just then. -/
  | executed (report : Report) (line : Line)
deriving DecidableEq

inductive Failure where
  | complaints (list : List Complaint)
  | stopped (cause : Break)
deriving DecidableEq

def Failure.message : Failure → String
  | complaints list => "script has " ++ toString list.length ++ " syntax error(s)"
  | stopped cause => cause.message

/-- A processor and a bus in the middle of a script. -/
structure Run (β : Type) where
  processor : Processor
  bus : β
  journal : Array Event := #[]
  /-- What stopped the processor, if something did. -/
  stopped : Option Break := none

def bytesOf (words : List UInt16) : List UInt8 :=
  words.flatMap fun w => [Word.highByte w, Word.lowByte w]

namespace Run

variable {β : Type} [Bus β]

def note (r : Run β) (e : Event) : Run β :=
  { r with journal := r.journal.push e }

/-- Sets a register.  Setting the program counter gives up an instruction in flight. -/
def set (r : Run β) (register : Register) (value : UInt32) : Run β :=
  { r with processor := r.processor.setRegister register value }.note (.assigned register value)

def poke (r : Run β) (a : Address) (words : List UInt16) : Run β :=
  { r with bus := Bus.writeBytes r.bus a (bytesOf words) }.note (.poked a words.length)

def stepOnce (r : Run β) : Except Fault (Run β) := do
  let (result, processor, bus) ← r.processor.step r.bus
  match result with
  | .error cause => return { r with processor, bus, stopped := some cause }
  | .ok report =>
    let line := processor.disassemble bus report.address
    return { r with processor, bus }.note (.executed report line)

/-- Runs a number of instructions, or fewer if the processor stops. -/
def steps : Nat → Run β → Except Fault (Run β)
  | 0, r => .ok r
  | n + 1, r => do
    let r ← r.stepOnce
    if r.stopped.isSome then return r else steps n r

def act (r : Run β) : Action → Except Fault (Run β)
  | .set register value => .ok (r.set register value)
  | .poke a words => .ok (r.poke a words)
  | .step count => r.steps count.toNat

/-- Goes through statements until the processor stops. -/
def statements : List Statement → Run β → Except Fault (Run β)
  | [], r => .ok r
  | s :: ss, r => do
    let r ← r.act s.action
    if r.stopped.isSome then return r else statements ss r

def reports (r : Run β) : List Report :=
  r.journal.toList.filterMap fun
    | .executed report _ => some report
    | .assigned _ _ | .poked _ _ => none

def result (r : Run β) : Except Failure (List Report) :=
  match r.stopped with
  | some cause => .error (.stopped cause)
  | none => .ok r.reports

end Run

def run {β : Type} [Bus β] (source : String) (processor : Processor) (bus : β) :
    Except Fault (Except Failure (List Report) × Processor × β) :=
  match parse source with
  | .error es => .ok (.error (.complaints es), processor, bus)
  | .ok statements => do
    let r ← Run.statements statements { processor, bus }
    return (r.result, r.processor, r.bus)

end Compare68k.Script
