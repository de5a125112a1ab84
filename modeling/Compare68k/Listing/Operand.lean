import Compare68k.Listing.Line
import Compare68k.Operand.Mode
/-!
# Operands in listings

An operand with its extension words filled in, and its text.  `Mode.operand` takes the
extension words of a mode and `Operand.text` writes the operand in assembler notation.
-/

namespace Compare68k

/-- What an operand's address counts from. -/
inductive Base where
  | addrReg (reg : UInt8)
  | pc
deriving DecidableEq, Repr

/-- An index register and how much of it counts. -/
structure Index where
  isAddress : Bool
  number : UInt8
  /-- Whether the whole register counts, and not only its signed low word. -/
  isLong : Bool
deriving DecidableEq, Repr

/-- An operand as an assembler writes it. -/
inductive Operand where
  | dataReg (reg : UInt8)
  | addrReg (reg : UInt8)
  | indirect (reg : UInt8)
  | postInc (reg : UInt8)
  | preDec (reg : UInt8)
  | disp (displacement : Int) (base : Base)
  | index (displacement : Int) (base : Base) (index : Index)
  | absShort (address : UInt16)
  | absLong (address : UInt32)
  | immediate (size : Size) (value : UInt32)
deriving DecidableEq, Repr

def Index.ofExtension (ext : UInt16) : Index where
  isAddress := ext &&& 0x8000 != 0
  number := ((ext >>> 12) &&& 7).toUInt8
  isLong := ext &&& 0x0800 != 0

def Index.text (i : Index) : String :=
  (if i.isAddress then "A" else "D") ++ toString i.number.toNat ++
    (if i.isLong then ".L" else ".W")

def Base.text : Base → String
  | addrReg r => "A" ++ toString r.toNat
  | pc => "PC"

namespace Operand

def displacementText (d : Int) : String :=
  if d < 0 then "-$" ++ Text.Hex.text d.natAbs else "$" ++ Text.Hex.text d.natAbs

def digits : Size → Nat
  | .byte => 2
  | .word => 4
  | .long => 8

def text : Operand → String
  | dataReg r => "D" ++ toString r.toNat
  | addrReg r => "A" ++ toString r.toNat
  | indirect r => "(A" ++ toString r.toNat ++ ")"
  | postInc r => "(A" ++ toString r.toNat ++ ")+"
  | preDec r => "-(A" ++ toString r.toNat ++ ")"
  | disp d b => displacementText d ++ "(" ++ b.text ++ ")"
  | index d b i => displacementText d ++ "(" ++ b.text ++ "," ++ i.text ++ ")"
  | absShort a => "$" ++ Text.Hex.padded 4 a.toNat ++ ".W"
  | absLong a => "$" ++ Text.Hex.padded 8 a.toNat ++ ".L"
  | immediate size v => "#$" ++ Text.Hex.padded (digits size) v.toNat

end Operand

def briefDisplacement (ext : UInt16) : Int :=
  (Word.lowByte ext).toInt8.toInt

def Mode.operand (m : Mode) (size : Size) (peek : Peek) (c : Cursor) : Operand × Cursor :=
  match m with
  | dataReg r => (.dataReg r, c)
  | addrReg r => (.addrReg r, c)
  | indirect r => (.indirect r, c)
  | postInc r => (.postInc r, c)
  | preDec r => (.preDec r, c)
  | disp r =>
    let (w, c) := c.word peek
    (.disp w.toInt16.toInt (.addrReg r), c)
  | index r =>
    let (ext, c) := c.word peek
    (.index (briefDisplacement ext) (.addrReg r) (.ofExtension ext), c)
  | absShort =>
    let (w, c) := c.word peek
    (.absShort w, c)
  | absLong =>
    let (l, c) := c.long peek
    (.absLong l, c)
  | pcDisp =>
    let (w, c) := c.word peek
    (.disp w.toInt16.toInt .pc, c)
  | pcIndex =>
    let (ext, c) := c.word peek
    (.index (briefDisplacement ext) .pc (.ofExtension ext), c)
  | immediate =>
    match size with
    | .byte =>
      let (w, c) := c.word peek
      (.immediate .byte (Word.lowByte w).toUInt32, c)
    | .word =>
      let (w, c) := c.word peek
      (.immediate .word w.toUInt32, c)
    | .long =>
      let (l, c) := c.long peek
      (.immediate .long l, c)

end Compare68k
