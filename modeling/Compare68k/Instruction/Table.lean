import Compare68k.Instruction.Basic
/-!
# Opcode tables

The instructions that a processor knows.  A table holds the classes that were installed in
it, and an opcode stands for the instruction of the class installed last that accepts it.
-/

namespace Compare68k

structure Table where
  /-- The installed classes, the last one first. -/
  classes : List Class := []
deriving DecidableEq, Repr, Inhabited

namespace Table

def empty : Table := {}

/-- Adds a class of instructions, which takes over the opcodes that it accepts. -/
def install (t : Table) (c : Class) : Table :=
  { t with classes := c :: t.classes }

def ofClasses (cs : List Class) : Table :=
  cs.foldl install empty

def standard : Table :=
  ofClasses [.cmp, .cmpa, .cmpi, .cmpm]

def lookup (t : Table) (op : Opcode) : Option Instruction :=
  t.classes.findSome? fun c => c.decode? op

def isLegal (t : Table) (op : Opcode) : Bool :=
  (t.lookup op).isSome

def legalCount (t : Table) : Nat :=
  (List.range UInt16.size).countP fun n => t.isLegal (UInt16.ofNat n)

end Table

end Compare68k
