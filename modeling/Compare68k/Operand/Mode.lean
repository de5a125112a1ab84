import Compare68k.Bus.Cycle
import Compare68k.Fault
import Compare68k.Operand.Category
import Compare68k.Size
/-!
# Addressing modes

The twelve ways an instruction can name an operand, their field in an opcode, and what each
costs.  Every mode goes through a fixed sequence of bus activities before its operand is
there; the sequence depends on the mode and the operand's size alone.
-/

namespace Compare68k

/-- An addressing mode with its register. -/
inductive Mode where
  | dataReg (reg : UInt8)
  | addrReg (reg : UInt8)
  /-- Memory at an address register. -/
  | indirect (reg : UInt8)
  /-- Memory at an address register, which then moves past the operand. -/
  | postInc (reg : UInt8)
  /-- Memory at an address register, which first moves before the operand. -/
  | preDec (reg : UInt8)
  /-- Memory at an address register and a displacement. -/
  | disp (reg : UInt8)
  /-- Memory at an address register, an index register and a displacement. -/
  | index (reg : UInt8)
  /-- Memory at a sign-extended one-word address. -/
  | absShort
  /-- Memory at a two-word address. -/
  | absLong
  /-- Memory at the program counter and a displacement. -/
  | pcDisp
  /-- Memory at the program counter, an index register and a displacement. -/
  | pcIndex
  /-- A constant in the instruction. -/
  | immediate
deriving DecidableEq, Repr, Inhabited

namespace Mode

/-- The mode that the low six bits of a field select: the mode in the upper three and the
register in the lower three.  Three combinations are reserved. -/
def ofField? (field : UInt16) : Option Mode :=
  let reg := (field &&& 7).toUInt8
  match ((field >>> 3) &&& 7).toNat with
  | 0 => some (dataReg reg)
  | 1 => some (addrReg reg)
  | 2 => some (indirect reg)
  | 3 => some (postInc reg)
  | 4 => some (preDec reg)
  | 5 => some (disp reg)
  | 6 => some (index reg)
  | _ =>
    match reg.toNat with
    | 0 => some absShort
    | 1 => some absLong
    | 2 => some pcDisp
    | 3 => some pcIndex
    | 4 => some immediate
    | _ => none

def ofOpcode (op : Opcode) : Except Fault Mode :=
  match ofField? op with
  | some m => .ok m
  | none => .error (.reservedMode op)

def codes : Mode → UInt16 × UInt8
  | dataReg r => (0, r)
  | addrReg r => (1, r)
  | indirect r => (2, r)
  | postInc r => (3, r)
  | preDec r => (4, r)
  | disp r => (5, r)
  | index r => (6, r)
  | absShort => (7, 0)
  | absLong => (7, 1)
  | pcDisp => (7, 2)
  | pcIndex => (7, 3)
  | immediate => (7, 4)

def field (m : Mode) : UInt16 :=
  (m.codes.1 <<< 3) ||| (m.codes.2 &&& 7).toUInt16

def wellFormed (m : Mode) : Bool :=
  m.codes.2 < 8

def category : Mode → Category
  | dataReg _ => .dataRegister
  | addrReg _ => .addressRegister
  | indirect _ | postInc _ | preDec _ | disp _ | index _ | absShort | absLong => .memory
  | pcDisp | pcIndex => .pcRelative
  | immediate => .immediate

def fieldAllowed (field : UInt16) (excluded : CategorySet) : Bool :=
  match ofField? field with
  | some m => !excluded.has m.category
  | none => false

/-- The number of extension words a mode takes at a size. -/
def extensionWords (m : Mode) (size : Size) : Nat :=
  match m with
  | dataReg _ | addrReg _ | indirect _ | postInc _ | preDec _ => 0
  | disp _ | index _ | absShort | pcDisp | pcIndex => 1
  | absLong => 2
  | immediate => if size = .long then 2 else 1

def fetch : Size → List Cycle
  | .byte | .word => [.read]
  | .long => [.readHigh, .read]

/-- The activities that bring an operand in, in order. -/
def pattern (m : Mode) (size : Size) : List Cycle :=
  match m with
  | dataReg _ | addrReg _ => []
  | indirect _ | postInc _ => fetch size
  | preDec _ => .idle :: fetch size
  | disp _ | absShort | pcDisp => .prefetch :: fetch size
  | index _ | pcIndex => .idle :: .prefetch :: fetch size
  | absLong => .prefetch :: .prefetch :: fetch size
  | immediate => if size = .long then [.prefetch, .prefetch] else [.prefetch]

def cycles (m : Mode) (size : Size) : Nat :=
  Cycle.totalCycles (m.pattern size)

end Mode

end Compare68k
