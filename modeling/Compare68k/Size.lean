import Compare68k.Word
/-!
# Operand sizes

The three widths at which operands are read and compared, and their two-bit field in an
opcode.
-/

namespace Compare68k

inductive Size where
  | byte
  | word
  | long
deriving DecidableEq, Repr, Inhabited

namespace Size

/-- The size that the low two bits of a field select; 11 is reserved. -/
def ofField? (field : UInt16) : Option Size :=
  match (field &&& 3).toNat with
  | 0 => some byte
  | 1 => some word
  | 2 => some long
  | _ => none

def field : Size → UInt16
  | byte => 0
  | word => 1
  | long => 2

def bytes : Size → UInt32
  | byte => 1
  | word => 2
  | long => 4

def mask : Size → UInt32
  | byte => 0xFF
  | word => 0xFFFF
  | long => 0xFFFFFFFF

def signBit : Size → UInt32
  | byte => 0x80
  | word => 0x8000
  | long => 0x80000000

def letter : Size → Char
  | byte => 'B'
  | word => 'W'
  | long => 'L'

def suffix (s : Size) : String :=
  "." ++ s.letter.toString

end Size

end Compare68k
