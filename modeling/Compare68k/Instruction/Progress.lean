import Compare68k.Word
/-!
# Instruction progress

The four classes of compare instruction and the marker that says where the one in flight
goes on at its next tick.
-/

namespace Compare68k

inductive Class where
  /-- Compare a data register with any operand. -/
  | cmp
  /-- Compare an address register with any operand. -/
  | cmpa
  /-- Compare an operand with a constant. -/
  | cmpi
  /-- Compare memory with memory, moving both pointers on. -/
  | cmpm
deriving DecidableEq, Repr, Inhabited

/-- The part of an instruction that runs next. -/
inductive Stage where
  /-- The source operand is being read. -/
  | source
  /-- The destination operand is being read, and the source is held here. -/
  | destination (source : UInt32)
  /-- The flags are set and the next opcode has to be fetched. -/
  | prefetch
  /-- Only the closing internal cycle is left. -/
  | tail
deriving DecidableEq, Repr, Inhabited

/-- Where the current instruction goes on. -/
inductive Progress where
  /-- Nothing of the instruction has run. -/
  | idle
  /-- An instruction of the given class is in flight. -/
  | running (cls : Class) (stage : Stage)
  | finished
deriving DecidableEq, Repr, Inhabited

namespace Class

def mnemonic : Class → String
  | cmp => "CMP"
  | cmpa => "CMPA"
  | cmpi => "CMPI"
  | cmpm => "CMPM"

def title : Class → String
  | cmp => "Cmp"
  | cmpa => "Cmpa"
  | cmpi => "Cmpi"
  | cmpm => "Cmpm"

def latched (word : String) (n : UInt32) : String :=
  word ++ " \x7b source: " ++ toString n.toNat ++ " \x7d"

def stageText (c : Class) : Stage → String
  | .source =>
    match c with
    | cmp | cmpa => "Read"
    | cmpi => "Immediate"
    | cmpm => "Source"
  | .destination n =>
    match c with
    | cmpi => latched "ReadDestination" n
    | cmp | cmpa | cmpm => latched "Destination" n
  | .prefetch => "Prefetch"
  | .tail =>
    match c with
    | cmp => "Long"
    | cmpa | cmpi | cmpm => "Tail"

end Class

namespace Progress

def inFlight : Progress → Bool
  | running _ _ => true
  | idle | finished => false

/-- The marker as messages show it, such as Cmp(Read). -/
def text : Progress → String
  | idle => "Idle"
  | running c s => c.title ++ "(" ++ c.stageText s ++ ")"
  | finished => "Finished"

end Progress

end Compare68k
