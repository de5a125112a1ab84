import Compare68k.Word
/-!
# Memory buses

What the processor asks of the memory it is attached to.  A bus has to read, write and peek
at bytes; it may answer words in its own way, and by default a word is two bytes, the high
byte at the lower address.
-/

namespace Compare68k

class Bus (β : Type) where
  description : β → String
  /-- The byte a read would return, without the effects of reading it. -/
  peekByte : β → Address → UInt8
  /-- Reads a byte; reading may change the bus. -/
  readByte : β → Address → UInt8 × β
  writeByte : β → Address → UInt8 → β
  /-- The word a read would return, without the effects of reading it. -/
  peekWord : β → Address → UInt16 := fun bus a =>
    Word.ofBytes (peekByte bus a) (peekByte bus (a + 1))
  readWord : β → Address → UInt16 × β := fun bus a =>
    let (high, bus) := readByte bus a
    let (low, bus) := readByte bus (a + 1)
    (Word.ofBytes high low, bus)
  writeWord : β → Address → UInt16 → β := fun bus a w =>
    writeByte (writeByte bus a (Word.highByte w)) (a + 1) (Word.lowByte w)

namespace Bus

variable {β : Type} [Bus β]

def writeBytes (bus : β) (a : Address) : List UInt8 → β
  | [] => bus
  | b :: bs => writeBytes (writeByte bus a b) (a + 1) bs

def writeWords (bus : β) (a : Address) : List UInt16 → β
  | [] => bus
  | w :: ws => writeWords (writeWord bus a w) (a + 2) ws

end Bus

end Compare68k
