/-!
# Words

The fixed-width quantities of the processor and the conversions between them.  A word is
sixteen bits and is stored high byte first; a long word is two words, high word first.
-/

namespace Compare68k

/-- A byte address as instructions compute it.  Address arithmetic wraps at 32 bits. -/
abbrev Address := UInt32

/-- The first word of an instruction. -/
abbrev Opcode := UInt16

namespace Word

def ofBytes (high low : UInt8) : UInt16 :=
  (high.toUInt16 <<< 8) ||| low.toUInt16

def highByte (w : UInt16) : UInt8 :=
  (w >>> 8).toUInt8

def lowByte (w : UInt16) : UInt8 :=
  w.toUInt8

def long (high low : UInt16) : UInt32 :=
  (high.toUInt32 <<< 16) ||| low.toUInt32

def signExtend (w : UInt16) : UInt32 :=
  w.toInt16.toInt32.toUInt32

def signExtendByte (b : UInt8) : UInt32 :=
  b.toInt8.toInt32.toUInt32

end Word

end Compare68k
