import Compare68k.Bus.Basic
import Compare68k.Operand.Mode
import Compare68k.Registers
/-!
# Operand resolution

Reading one operand, a bus activity at a time.  A resolution starts from a mode and a size
and holds all that has to survive between ticks: the activities still to come, the extension
words taken so far, the operand's address once it is fixed, and the part of the operand that
has been read.
-/

namespace Compare68k

structure Resolution where
  mode : Mode
  size : Size
  /-- The activities that have not begun. -/
  pending : List Cycle
  /-- The ticks that the activity under way still takes. -/
  wait : Nat := 0
  /-- Whether the resolution has been polled. -/
  started : Bool := false
  /-- The extension words taken, first one first. -/
  words : List UInt16 := []
  /-- The address of the first extension word. -/
  base : Address := 0
  /-- The operand's address, once it is fixed. -/
  address : Option Address := none
  /-- What has been read of the operand. -/
  value : UInt32 := 0
deriving DecidableEq, Repr

namespace Registers

def address? (r : Registers) (n : UInt8) : Except Fault UInt32 :=
  if h : n.toNat < 8 then .ok r.address[n.toNat] else .error (.noSuchRegister n)

def data? (r : Registers) (n : UInt8) : Except Fault UInt32 :=
  if h : n.toNat < 8 then .ok r.data[n.toNat] else .error (.noSuchRegister n)

/-- The offset that a brief extension word stands for: its signed low byte and an index
register, taken whole or as the signed number in its low word. -/
def briefOffset (r : Registers) (ext : UInt16) : UInt32 :=
  let number := (ext >>> 12).toUInt8
  let register := if ext &&& 0x8000 != 0 then r.get (.address number) else r.get (.data number)
  let index := if ext &&& 0x0800 != 0 then register else Word.signExtend register.toUInt16
  index + Word.signExtendByte (Word.lowByte ext)

end Registers

/-- How far the modes that move their register move it.  The stack pointer stays even, so a
byte counts as two there. -/
def Size.step (size : Size) (reg : UInt8) : UInt32 :=
  if size = .byte ∧ reg = 7 then 2 else size.bytes

namespace Resolution

variable {β : Type} [Bus β]

def ofMode (mode : Mode) (size : Size) : Resolution :=
  { mode, size, pending := mode.pattern size }

def ticksLeft (r : Resolution) : Nat :=
  r.wait + Cycle.totalTicks r.pending

def extension (r : Resolution) : UInt16 :=
  r.words.headD 0

def extensionLong (r : Resolution) : UInt32 :=
  Word.long (r.words.headD 0) (r.words.tail.headD 0)

/-- What happens at the first poll: the modes that address memory by a register alone fix
their address, and post-increment moves its register. -/
def start (r : Resolution) (regs : Registers) : Except Fault (Resolution × Registers) :=
  match r.mode with
  | .indirect n => do
    let a ← regs.address? n
    return ({ r with started := true, address := some a }, regs)
  | .postInc n => do
    let a ← regs.address? n
    return ({ r with started := true, address := some a },
      regs.set (.address n) (a + r.size.step n))
  | _ => .ok ({ r with started := true }, regs)

def prepare (r : Resolution) (regs : Registers) : Except Fault (Resolution × Registers) :=
  if r.started then .ok (r, regs) else r.start regs

def computeAddress (r : Resolution) (regs : Registers) : Except Fault Address :=
  match r.mode with
  | .disp n => do return (← regs.address? n) + Word.signExtend r.extension
  | .index n => do return (← regs.address? n) + regs.briefOffset r.extension
  | .absShort => .ok (Word.signExtend r.extension)
  | .absLong => .ok r.extensionLong
  | .pcDisp => .ok (r.base + Word.signExtend r.extension)
  | .pcIndex => .ok (r.base + regs.briefOffset r.extension)
  | .dataReg _ | .addrReg _ | .indirect _ | .postInc _ | .preDec _ | .immediate =>
    .error .noAddress

/-- The operand's address, which stays as it is once it is fixed. -/
def effectiveAddress (r : Resolution) (regs : Registers) : Except Fault Address :=
  match r.address with
  | some a => .ok a
  | none => r.computeAddress regs

/-- What a bus activity does when it begins.  The idle activity moves the register of
pre-decrement; a prefetch takes the extension word at the program counter; the reads take the
operand from memory, the high word of a long operand first. -/
def perform (r : Resolution) (c : Cycle) (regs : Registers) (bus : β) :
    Except Fault (Resolution × Registers × β) :=
  match c with
  | .idle =>
    match r.mode with
    | .preDec n => do
      let a := (← regs.address? n) - r.size.step n
      return ({ r with address := some a }, regs.set (.address n) a, bus)
    | _ => .ok (r, regs, bus)
  | .prefetch =>
    let (w, bus) := Bus.readWord bus regs.pc
    let base := if r.words.isEmpty then regs.pc else r.base
    .ok ({ r with words := r.words ++ [w], base }, { regs with pc := regs.pc + 2 }, bus)
  | .readHigh => do
    let a ← r.effectiveAddress regs
    let (w, bus) := Bus.readWord bus a
    return ({ r with address := some a, value := Word.long w 0 }, regs, bus)
  | .read => do
    let a ← r.effectiveAddress regs
    match r.size with
    | .byte =>
      let (b, bus) := Bus.readByte bus a
      return ({ r with address := some a, value := b.toUInt32 }, regs, bus)
    | .word =>
      let (w, bus) := Bus.readWord bus a
      return ({ r with address := some a, value := w.toUInt32 }, regs, bus)
    | .long =>
      let (w, bus) := Bus.readWord bus (a + 2)
      return ({ r with address := some a, value := r.value ||| w.toUInt32 }, regs, bus)
  | .write | .writeHigh => .ok (r, regs, bus)

def finish (r : Resolution) (regs : Registers) : Except Fault UInt32 := do
  let value ←
    match r.mode with
    | .dataReg n => regs.data? n
    | .addrReg n => regs.address? n
    | .immediate =>
      match r.size with
      | .byte | .word => .ok r.extension.toUInt32
      | .long => .ok r.extensionLong
    | _ => .ok r.value
  return value &&& r.size.mask

end Resolution

end Compare68k
