import Compare68k.Instruction.Progress
import Compare68k.Text.Hex
/-!
# Faults

The ways in which the machine can be driven outside its rules.  A processor that dispatches
through an opcode table never meets one; they arise when an instruction is run by hand on an
opcode that is not its own, or from a state that it does not expect.
-/

namespace Compare68k

inductive Fault where
  /-- The size field of an opcode holds the reserved value. -/
  | malformedSize (opcode : Opcode)
  /-- The mode field of an opcode holds a reserved value. -/
  | reservedMode (opcode : Opcode)
  /-- An operand was asked for while another was still being read. -/
  | resolutionInProgress
  /-- An operand was polled for, and none was being read. -/
  | nothingToResolve
  /-- An instruction was begun while another was in flight. -/
  | instructionInFlight (progress : Progress)
  /-- An instruction was ticked while one of another class was in flight. -/
  | foreignProgress (cls : Class) (progress : Progress)
  /-- A mode named a register that the processor does not have. -/
  | noSuchRegister (number : UInt8)
  /-- An operand that is not in memory was asked for its address. -/
  | noAddress
deriving DecidableEq, Repr, Inhabited

namespace Fault

def threeBits (field : UInt16) : String :=
  String.ofList ([4, 2, 1].map fun bit => if field &&& bit != 0 then '1' else '0')

def opcodeText (op : Opcode) : String :=
  "opcode $" ++ Text.Hex.padded 4 op.toNat

/-- What is reported for a fault; nothing for those that are only a broken condition. -/
def message : Fault → Option String
  | malformedSize op => some ("malformed size field in " ++ opcodeText op)
  | reservedMode op =>
    some ("unsupported addressing mode " ++ threeBits (op >>> 3) ++ " " ++ threeBits op ++
      " in " ++ opcodeText op)
  | resolutionInProgress => some "operand resolution started while another was in progress"
  | nothingToResolve => some "polled an operand resolver with nothing to do"
  | instructionInFlight p =>
    some ("new instruction started while " ++ p.text ++ " was in flight")
  | foreignProgress c p => some (c.mnemonic ++ " resumed from " ++ p.text)
  | noSuchRegister _ | noAddress => none

end Fault

theorem exists_of_bind {α γ : Type} {first : Except Fault α} {second : α → Except Fault γ}
    {result : γ} (h : first >>= second = .ok result) :
    ∃ middle, first = .ok middle ∧ second middle = .ok result := by
  cases first with
  | error f => cases h
  | ok middle => exact ⟨middle, rfl, h⟩

end Compare68k
