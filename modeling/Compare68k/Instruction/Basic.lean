import Compare68k.Operand.Mode
/-!
# Compare instructions

What an opcode says for each class of instruction: the size, the source and the destination.
The fields are read one at a time, because an instruction looks at each only when it needs
it.  `Class.decode?` reads them all and accepts exactly the opcodes of the class.
-/

namespace Compare68k

/-- A compare instruction, apart from its extension words. -/
structure Instruction where
  cls : Class
  size : Size
  source : Mode
  destination : Mode
deriving DecidableEq, Repr

namespace Opcode

def upperRegister (op : Opcode) : UInt8 :=
  ((op >>> 9) &&& 7).toUInt8

def lowerRegister (op : Opcode) : UInt8 :=
  (op &&& 7).toUInt8

def size (op : Opcode) : Except Fault Size :=
  match Size.ofField? (op >>> 6) with
  | some s => .ok s
  | none => .error (.malformedSize op)

end Opcode

namespace Class

def size (c : Class) (op : Opcode) : Except Fault Size :=
  match c with
  | cmpa => .ok (if op &&& 0x0100 != 0 then .long else .word)
  | cmp | cmpi | cmpm => Opcode.size op

def source (c : Class) (op : Opcode) : Except Fault Mode :=
  match c with
  | cmp | cmpa => Mode.ofOpcode op
  | cmpi => .ok .immediate
  | cmpm => .ok (.postInc (Opcode.lowerRegister op))

def destination (c : Class) (op : Opcode) : Except Fault Mode :=
  match c with
  | cmp => .ok (.dataReg (Opcode.upperRegister op))
  | cmpa => .ok (.addrReg (Opcode.upperRegister op))
  | cmpi => Mode.ofOpcode op
  | cmpm => .ok (.postInc (Opcode.upperRegister op))

/-- The size at which the operands are compared: address registers are compared whole. -/
def width (c : Class) (size : Size) : Size :=
  match c with
  | cmpa => .long
  | cmp | cmpi | cmpm => size

def extend (c : Class) (size : Size) (value : UInt32) : UInt32 :=
  match c, size with
  | cmpa, .word => Word.signExtend value.toUInt16
  | _, _ => value

/-- Whether the instruction closes with an internal cycle: always for address registers, and
for a long comparison with a data register. -/
def hasTail (c : Class) (size : Size) (destination : Mode) : Bool :=
  c = .cmpa || size = .long && destination.category = .dataRegister

/-- The instruction that an opcode stands for when it is taken as one of the class. -/
def decode (c : Class) (op : Opcode) : Except Fault Instruction := do
  let size ← c.size op
  let source ← c.source op
  let destination ← c.destination op
  return ⟨c, size, source, destination⟩

def fixedBits (c : Class) (op : Opcode) : Bool :=
  match c with
  | cmp => op &&& 0xF100 = 0xB000
  | cmpa => op &&& 0xF0C0 = 0xB0C0
  | cmpi => op &&& 0xFF00 = 0x0C00
  | cmpm => op &&& 0xF138 = 0xB108

end Class

namespace Instruction

/-- The operand categories that an instruction of the class and size refuses for the mode in
its opcode.  Address registers have no bytes, and a constant is compared with data that could
be altered. -/
def refused (c : Class) (size : Size) : CategorySet :=
  match c, size with
  | .cmp, .byte => .singleton .addressRegister
  | .cmpi, _ => .notDataAlterable
  | _, _ => .empty

def allowed (i : Instruction) : Bool :=
  match i.cls with
  | .cmp | .cmpa => !(refused i.cls i.size).has i.source.category
  | .cmpi => !(refused i.cls i.size).has i.destination.category
  | .cmpm => true

end Instruction

def Class.decode? (c : Class) (op : Opcode) : Option Instruction :=
  if c.fixedBits op then
    match c.decode op with
    | .ok i => if i.allowed then some i else none
    | .error _ => none
  else
    none

end Compare68k
