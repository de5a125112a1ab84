import Compare68k.Instruction.Table
/-!
# Dispatch tables

Two tables over all opcodes, one that runs instructions and one that lists them.  Installing a
class goes through every combination of values that the fields of its opcodes can have, and
enters the class at each opcode in both tables, over whatever is there.
-/

namespace Compare68k

/-- The values of the fields in which the opcodes of a class differ. -/
structure Form where
  size : Size
  /-- The register in bits 11 to 9, for the classes that have one. -/
  upper : UInt16 := 0
  /-- The mode field, or the register of a class whose modes are fixed. -/
  lower : UInt16
deriving DecidableEq, Repr

namespace Form

def registers : List UInt16 :=
  (List.range 8).map UInt16.ofNat

def modeFields (excluded : CategorySet) : List UInt16 :=
  ((List.range 64).map UInt16.ofNat).filter fun field => Mode.fieldAllowed field excluded

end Form

namespace Class

/-- The combinations of values for which a class has an opcode. -/
def forms (c : Class) : List Form :=
  match c with
  | cmp =>
    Form.registers.flatMap fun upper =>
      [.byte, .word, .long].flatMap fun size =>
        (Form.modeFields (Instruction.refused cmp size)).map fun lower => { size, upper, lower }
  | cmpa =>
    Form.registers.flatMap fun upper =>
      [.word, .long].flatMap fun size =>
        (Form.modeFields (Instruction.refused cmpa size)).map fun lower => { size, upper, lower }
  | cmpi =>
    [.byte, .word, .long].flatMap fun size =>
      (Form.modeFields (Instruction.refused cmpi size)).map fun lower => { size, lower }
  | cmpm =>
    Form.registers.flatMap fun upper =>
      Form.registers.flatMap fun lower =>
        [.byte, .word, .long].map fun size => { size, upper, lower }

def opcode (c : Class) (f : Form) : Opcode :=
  match c with
  | cmp => (0xB000 : Opcode) ||| (f.upper <<< 9) ||| (f.size.field <<< 6) ||| f.lower
  | cmpa => (if f.size = .long then 0xB1C0 else 0xB0C0 : Opcode) ||| (f.upper <<< 9) ||| f.lower
  | cmpi => (0x0C00 : Opcode) ||| (f.size.field <<< 6) ||| f.lower
  | cmpm => (0xB108 : Opcode) ||| (f.upper <<< 9) ||| (f.size.field <<< 6) ||| f.lower

end Class

/-- The class at each opcode, for running its instruction and for listing it. -/
structure Dispatch where
  execute : Vector (Option Class) UInt16.size
  print : Vector (Option Class) UInt16.size
deriving DecidableEq

namespace Dispatch

def empty : Dispatch :=
  ⟨.replicate _ none, .replicate _ none⟩

def enter (d : Dispatch) (op : Opcode) (c : Class) : Dispatch :=
  { execute := d.execute.set op.toNat (some c) op.toNat_lt_size
    print := d.print.set op.toNat (some c) op.toNat_lt_size }

def install (d : Dispatch) (c : Class) : Dispatch :=
  c.forms.foldl (fun d f => d.enter (c.opcode f) c) d

def ofClasses (cs : List Class) : Dispatch :=
  cs.foldl install empty

def standard : Dispatch :=
  ofClasses [.cmp, .cmpa, .cmpi, .cmpm]

def executor (d : Dispatch) (op : Opcode) : Option Class :=
  d.execute.get op.toFin

def printer (d : Dispatch) (op : Opcode) : Option Class :=
  d.print.get op.toFin

def isLegal (d : Dispatch) (op : Opcode) : Bool :=
  (d.executor op).isSome

def legalCount (d : Dispatch) : Nat :=
  d.execute.toList.countP Option.isSome

end Dispatch

end Compare68k
