import Compare68k.Flags
import Compare68k.Text.Hex
/-!
# Registers

The programmer-visible registers and their names.  A register number above seven names the
register its low three bits select.
-/

namespace Compare68k

inductive Register where
  | data (number : UInt8)
  /-- An address register; number seven is the stack pointer. -/
  | address (number : UInt8)
  | pc
  | sr
  /-- The condition codes, the low byte of the status register. -/
  | ccr
deriving DecidableEq, Repr, Inhabited

namespace Register

def number? : Char → Option UInt8
  | '0' => some 0
  | '1' => some 1
  | '2' => some 2
  | '3' => some 3
  | '4' => some 4
  | '5' => some 5
  | '6' => some 6
  | '7' => some 7
  | _ => none

def ofName? (name : String) : Option Register :=
  match name.toList.map Char.toLower with
  | ['p', 'c'] => some pc
  | ['s', 'r'] => some sr
  | ['c', 'c', 'r'] => some ccr
  | ['s', 'p'] => some (address 7)
  | ['d', n] => (number? n).map data
  | ['a', n] => (number? n).map address
  | _ => none

def name : Register → String
  | data n => "D" ++ toString n.toNat
  | address n => "A" ++ toString n.toNat
  | pc => "PC"
  | sr => "SR"
  | ccr => "CCR"

end Register

structure Registers where
  data : Vector UInt32 8 := Vector.replicate 8 0
  address : Vector UInt32 8 := Vector.replicate 8 0
  /-- The program counter.  While an instruction runs it points past the last instruction
  word taken so far. -/
  pc : Address := 0
  status : Status := 0
deriving DecidableEq, Repr, Inhabited

namespace Registers

def position (number : UInt8) : Fin 8 :=
  ⟨number.toNat % 8, Nat.mod_lt _ (by decide)⟩

def conditions (r : Registers) : Status :=
  r.status &&& Status.conditionMask

def flag (r : Registers) (mask : Status) : Bool :=
  r.status &&& mask != 0

def get (r : Registers) : Register → UInt32
  | .data n => r.data[position n]
  | .address n => r.address[position n]
  | .pc => r.pc
  | .sr => r.status.toUInt32
  | .ccr => r.conditions.toUInt32

/-- Sets a register.  Status register bits that the processor does not have are dropped, and
setting the condition codes leaves the rest of the status register alone. -/
def set (r : Registers) (name : Register) (value : UInt32) : Registers :=
  match name with
  | .data n => { r with data := r.data.set (position n) value }
  | .address n => { r with address := r.address.set (position n) value }
  | .pc => { r with pc := value }
  | .sr => { r with status := value.toUInt16 &&& Status.mask }
  | .ccr =>
    { r with
      status :=
        (r.status &&& ~~~Status.conditionMask) ||| (value.toUInt16 &&& Status.conditionMask) }

def row (letter : String) (values : Vector UInt32 8) : String :=
  String.join (values.toList.zipIdx.map fun (value, n) =>
    letter ++ toString n ++ "=" ++ Text.Hex.padded 8 value.toNat ++ " ")

def letters (r : Registers) : String :=
  String.ofList <|
    [(Status.extendBit, 'X'), (Flags.negativeBit, 'N'), (Flags.zeroBit, 'Z'),
      (Flags.overflowBit, 'V'), (Flags.carryBit, 'C')].map fun (mask, letter) =>
        if r.flag mask then letter else '-'

/-- The register file in three lines: data registers, address registers, and the program
counter and status register with its condition codes spelled out. -/
def display (r : Registers) : String :=
  row "D" r.data ++ "\n" ++ row "A" r.address ++ "\n" ++
    "PC=" ++ Text.Hex.padded 8 r.pc.toNat ++ " SR=" ++ Text.Hex.padded 4 r.status.toNat ++ " " ++
    r.letters

end Registers

end Compare68k
