import Compare68k.Instruction.Table
import Compare68k.Listing.Operand
/-!
# Disassembly

The line for the instruction at an address.  A word that is no opcode of the table is listed
as data.
-/

namespace Compare68k

def Instruction.line (i : Instruction) (peek : Peek) (a : Address) : Line :=
  let c : Cursor := { start := a }
  let (source, c) := i.source.operand i.size peek c
  let (destination, c) := i.destination.operand i.size peek c
  c.close (i.cls.mnemonic ++ i.size.suffix) (source.text ++ "," ++ destination.text)

def Class.line (c : Class) (op : Opcode) (peek : Peek) (a : Address) : Except Fault Line := do
  let i ← c.decode op
  return i.line peek a

/-- The line for a word that stands for no instruction. -/
def dataLine (a : Address) (w : UInt16) : Line :=
  { start := a : Cursor }.close "DC.W" ("$" ++ Text.Hex.padded 4 w.toNat)

namespace Table

def disassemble (t : Table) (peek : Peek) (a : Address) : Line :=
  match t.lookup (peek a) with
  | some i => i.line peek a
  | none => dataLine a (peek a)

def listing (t : Table) (peek : Peek) (a : Address) : Nat → List Line
  | 0 => []
  | n + 1 =>
    let l := t.disassemble peek a
    l :: t.listing peek l.next n

end Table

end Compare68k
