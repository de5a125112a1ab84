import Compare68k.Listing.Operand
import Compare68k.Operand.Resolution
import Compare68k.Instruction.Basic
import Compare68k.Proofs.Memory
/-!
# What comparisons mean

The effect of a compare instruction in one shot: no ticks, no bus activities, only the registers
and the memory as they are when the opcode is fetched.  An operand stands somewhere, in a
register or in memory; evaluating it may move an address register and always moves the program
counter past the operand's extension words.  All addresses are taken modulo `2 ^ 32`.
-/

namespace Compare68k

/-- Where an operand stands. -/
inductive Place where
  | register (name : Register)
  | memory (a : Address)
deriving DecidableEq, Repr

def Place.operand (place : Place) (size : Size) (mem : Memory) (regs : Registers) : UInt32 :=
  match place with
  | register name => regs.get name &&& size.mask
  | memory a => mem.operand size a

def Word.signed (w : UInt16) : UInt32 :=
  UInt32.ofInt w.toInt16.toInt

namespace Registers

/-- The registers after a number of instruction words. -/
def skip (regs : Registers) (words : Nat) : Registers :=
  { regs with pc := regs.pc + 2 * UInt32.ofNat words }

@[simp] theorem skip_zero (regs : Registers) : regs.skip 0 = regs := by
  simp [skip]

theorem skip_skip (regs : Registers) (m n : Nat) : (regs.skip m).skip n = regs.skip (m + n) := by
  simp only [skip, UInt32.ofNat_add, UInt32.mul_add, UInt32.add_assoc]

@[simp] theorem get_data_skip (regs : Registers) (words : Nat) (n : UInt8) :
    (regs.skip words).get (.data n) = regs.get (.data n) := rfl

@[simp] theorem get_address_skip (regs : Registers) (words : Nat) (n : UInt8) :
    (regs.skip words).get (.address n) = regs.get (.address n) := rfl

@[simp] theorem status_skip (regs : Registers) (words : Nat) :
    (regs.skip words).status = regs.status := rfl

def indexValue (regs : Registers) (i : Index) : UInt32 :=
  let value := regs.get (if i.isAddress then .address i.number else .data i.number)
  if i.isLong then value else Word.signed value.toUInt16

/-- What a brief extension word adds to a base: its displacement and its index register. -/
def indexed (regs : Registers) (ext : UInt16) : UInt32 :=
  UInt32.ofInt (briefDisplacement ext) + regs.indexValue (.ofExtension ext)

theorem indexed_withPc (regs : Registers) (pc : Address) (ext : UInt16) :
    { regs with pc }.indexed ext = regs.indexed ext := by
  unfold indexed indexValue
  split <;> rfl

end Registers

namespace Mode

/-- Where the operand of a mode stands, with the program counter at its first extension word.
A byte constant is the second byte of its word. -/
def place (m : Mode) (size : Size) (mem : Memory) (regs : Registers) : Place :=
  let ext := mem.word regs.pc
  match m with
  | dataReg n => .register (.data n)
  | addrReg n => .register (.address n)
  | indirect n | postInc n => .memory (regs.get (.address n))
  | preDec n => .memory (regs.get (.address n) - size.step n)
  | disp n => .memory (regs.get (.address n) + Word.signed ext)
  | index n => .memory (regs.get (.address n) + regs.indexed ext)
  | absShort => .memory (Word.signed ext)
  | absLong => .memory (mem.long regs.pc)
  | pcDisp => .memory (regs.pc + Word.signed ext)
  | pcIndex => .memory (regs.pc + regs.indexed ext)
  | immediate => .memory (if size = .byte then regs.pc + 1 else regs.pc)

def value (m : Mode) (size : Size) (mem : Memory) (regs : Registers) : UInt32 :=
  (m.place size mem regs).operand size mem regs

def moved (m : Mode) (size : Size) (regs : Registers) : Registers :=
  match m with
  | postInc n => regs.set (.address n) (regs.get (.address n) + size.step n)
  | preDec n => regs.set (.address n) (regs.get (.address n) - size.step n)
  | _ => regs

def after (m : Mode) (size : Size) (regs : Registers) : Registers :=
  (m.moved size regs).skip (m.extensionWords size)

@[simp] theorem value_dataReg (n : UInt8) (size : Size) (mem : Memory) (regs : Registers) :
    (dataReg n).value size mem regs = regs.get (.data n) &&& size.mask := rfl

@[simp] theorem value_addrReg (n : UInt8) (size : Size) (mem : Memory) (regs : Registers) :
    (addrReg n).value size mem regs = regs.get (.address n) &&& size.mask := rfl

@[simp] theorem after_dataReg (n : UInt8) (size : Size) (regs : Registers) :
    (dataReg n).after size regs = regs :=
  regs.skip_zero

@[simp] theorem after_addrReg (n : UInt8) (size : Size) (regs : Registers) :
    (addrReg n).after size regs = regs :=
  regs.skip_zero

@[simp] theorem after_postInc (n : UInt8) (size : Size) (regs : Registers) :
    (postInc n).after size regs =
      regs.set (.address n) (regs.get (.address n) + size.step n) :=
  Registers.skip_zero _

theorem status_after (m : Mode) (size : Size) (regs : Registers) :
    (m.after size regs).status = regs.status := by
  cases m <;> rfl

theorem get_data_after (m : Mode) (size : Size) (regs : Registers) (n : UInt8) :
    (m.after size regs).get (.data n) = regs.get (.data n) := by
  cases m <;> rfl

theorem pc_after (m : Mode) (size : Size) (regs : Registers) :
    (m.after size regs).pc = regs.pc + 2 * UInt32.ofNat (m.extensionWords size) := by
  cases m <;> rfl

end Mode

namespace Registers

/-- A comparison of a data register with an operand. -/
def compareData (regs : Registers) (mem : Memory) (size : Size) (source : Mode) (n : UInt8) :
    Registers :=
  { source.after size (regs.skip 1) with
    status :=
      regs.status.afterCompare size (source.value size mem (regs.skip 1)) (regs.get (.data n)) }

/-- A comparison of an address register with an operand.  The register is compared whole, as the
operand leaves it, with the operand taken as a signed number. -/
def compareAddress (regs : Registers) (mem : Memory) (size : Size) (source : Mode) (n : UInt8) :
    Registers :=
  let left := source.after size (regs.skip 1)
  let operand := source.value size mem (regs.skip 1)
  let extended := if size = .word then Word.signed operand.toUInt16 else operand
  { left with status := regs.status.afterCompare .long extended (left.get (.address n)) }

/-- A comparison of an operand with a constant, whose words come before those of the operand. -/
def compareConstant (regs : Registers) (mem : Memory) (size : Size) (destination : Mode) :
    Registers :=
  let entered := regs.skip 1
  let behind := entered.skip (Mode.immediate.extensionWords size)
  let constant := Mode.immediate.value size mem entered
  { destination.after size behind with
    status := regs.status.afterCompare size constant (destination.value size mem behind) }

/-- A comparison of memory with memory.  The second address is read after the first register has
moved, which matters where both are the same register. -/
def compareMemory (regs : Registers) (mem : Memory) (size : Size) (y x : UInt8) : Registers :=
  let entered := regs.skip 1
  let first := entered.get (.address y)
  let between := entered.set (.address y) (first + size.step y)
  let second := between.get (.address x)
  { between.set (.address x) (second + size.step x) with
    status := regs.status.afterCompare size (mem.operand size first) (mem.operand size second) }

def afterInstruction (regs : Registers) (mem : Memory) (i : Instruction) : Registers :=
  let entered := regs.skip 1
  let width := i.cls.width i.size
  let between := i.source.after i.size entered
  let source := i.source.value i.size mem entered
  let destination := i.destination.value width mem between
  { i.destination.after width between with
    status := between.status.afterCompare width (i.cls.extend i.size source) destination }

end Registers

end Compare68k
