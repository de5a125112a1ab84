import Compare68k.Size
/-!
# Condition codes

The flags that a comparison sets, and where they sit in the status register.  A comparison
subtracts its source from its destination, keeps the four flags that describe the
difference, and leaves every other bit of the status register alone.
-/

namespace Compare68k

/-- The status register: the system byte above the condition codes. -/
abbrev Status := UInt16

namespace Status

/-- The bits that the processor has: trace, supervisor, the interrupt mask and the condition
codes. -/
def mask : Status := 0xA71F

def conditionMask : Status := 0x1F

def extendBit : Status := 0x10

end Status

structure Flags where
  negative : Bool
  zero : Bool
  overflow : Bool
  carry : Bool
deriving DecidableEq, Repr, Inhabited

namespace Flags

def negativeBit : Status := 8
def zeroBit : Status := 4
def overflowBit : Status := 2
def carryBit : Status := 1

def mask : Status := 0xF

def bits (f : Flags) : Status :=
  (if f.negative then negativeBit else 0) ||| (if f.zero then zeroBit else 0) |||
    (if f.overflow then overflowBit else 0) ||| (if f.carry then carryBit else 0)

def store (f : Flags) (status : Status) : Status :=
  (status &&& ~~~mask) ||| f.bits

/-- The flags of a subtraction, from the signs of its source, destination and result and from
the result itself.  A sign is set if its word is not zero.  The subtraction overflows when the
operands' signs differ and the result has the source's; it borrows when the source outweighs
the destination in the top bit, with the result's sign deciding between equal tops. -/
def ofSigns (source destination result value : UInt32) : Flags :=
  let s := source != 0
  let d := destination != 0
  let r := result != 0
  { negative := r
    zero := value == 0
    overflow := !s && d && !r || s && !d && r
    carry := s && !d || r && !d || s && r }

def ofCompare (size : Size) (source destination : UInt32) : Flags :=
  let result := (destination - source) &&& size.mask
  ofSigns (source &&& size.signBit) (destination &&& size.signBit) (result &&& size.signBit)
    result

end Flags

def Status.afterCompare (status : Status) (size : Size) (source destination : UInt32) : Status :=
  (Flags.ofCompare size source destination).store status

end Compare68k
