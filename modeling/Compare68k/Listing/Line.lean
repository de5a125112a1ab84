import Compare68k.Word
/-!
# Listing lines

One line of a listing: the text of an instruction and the stretch of memory it stands for.
The stretch is found by a cursor that starts behind the opcode and takes extension words one
after another.
-/

namespace Compare68k

/-- Memory as a listing sees it: the word at each address. -/
abbrev Peek := Address → UInt16

structure Line where
  address : Address
  /-- The length in bytes, with the extension words. -/
  size : UInt32
  mnemonic : String
  operands : String
deriving DecidableEq, Repr

namespace Line

def text (l : Line) : String :=
  if l.operands.isEmpty then l.mnemonic else l.mnemonic ++ " " ++ l.operands

def next (l : Line) : Address :=
  l.address + l.size

def addresses (a : Address) (count : Nat) : List Address :=
  (List.range count).map fun n => a + UInt32.ofNat n

/-- The addresses of the bytes that the line stands for.  Making the line looks at each of
them once, in this order. -/
def footprint (l : Line) : List Address :=
  addresses l.address l.size.toNat

end Line

/-- A place among the extension words of an instruction. -/
structure Cursor where
  start : Address
  /-- The number of extension words taken. -/
  taken : Nat := 0
deriving DecidableEq, Repr

namespace Cursor

def length (c : Cursor) : UInt32 :=
  2 + 2 * UInt32.ofNat c.taken

def position (c : Cursor) : Address :=
  c.start + c.length

def word (c : Cursor) (peek : Peek) : UInt16 × Cursor :=
  (peek c.position, { c with taken := c.taken + 1 })

def long (c : Cursor) (peek : Peek) : UInt32 × Cursor :=
  let (high, c) := c.word peek
  let (low, c) := c.word peek
  (Word.long high low, c)

/-- The line for an instruction whose extension words have all been taken. -/
def close (c : Cursor) (mnemonic operands : String) : Line :=
  ⟨c.start, c.length, mnemonic, operands⟩

end Cursor

end Compare68k
