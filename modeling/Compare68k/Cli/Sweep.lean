import Compare68k.Bus.Ram
import Compare68k.Listing.Disassembly
import Compare68k.Text.Numeral
/-!
# Listing instruction words

The words of a listing are stored in an otherwise clear memory, one behind the other, and the
memory is listed from the first word on until every word belongs to a line.
-/

namespace Compare68k.Cli

/-- A memory that all connected address lines select. -/
def fullMemory : Ram :=
  .zeroed 24 (by decide)

def dropAll (mark : List Char) (text : List Char) : List Char :=
  if mark.isEmpty then text
  else if mark.isPrefixOf text then dropAll mark (text.drop mark.length)
  else text
termination_by text.length
decreasing_by
  rename_i hm hp
  have hle := (List.isPrefixOf_iff_prefix.mp hp).length_le
  cases mark with
  | nil => simp at hm
  | cons c cs =>
    simp only [List.length_drop, List.length_cons] at hle ⊢
    omega

/-- The instruction word that a text stands for, in hexadecimal behind dollar signs and 0x
marks. -/
def instructionWord? (text : String) : Option UInt16 :=
  let digits := dropAll ['0', 'x'] (dropAll ['$'] text.toList)
  (Text.Numeral.below? 16 UInt16.size digits).map UInt16.ofNat

def instructionWords : List String → Except String (List UInt16)
  | [] => .ok []
  | t :: ts =>
    match instructionWord? t with
    | some w => (instructionWords ts).map (w :: ·)
    | none => .error t

/-- The lines from an address on, until they have taken a number of words.  A line takes the
opcode and its extension words; the last line may take more than there are. -/
def sweep (t : Table) (peek : Peek) (a : Address) : Nat → List Line
  | 0 => []
  | words + 1 =>
    let l := t.disassemble peek a
    l :: sweep t peek l.next (words - (l.size.toNat - 2) / 2)
termination_by words => words

def listingText (l : Line) : String :=
  "$" ++ Text.Hex.padded 6 l.address.toNat ++ "  " ++ l.text

def listWords (words : List UInt16) (base : Address) : List Line :=
  let memory := Bus.writeWords fullMemory base words
  sweep .standard (Bus.peekWord memory) base words.length

end Compare68k.Cli
