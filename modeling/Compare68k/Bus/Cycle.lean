/-!
# Bus cycles

The bus activities that timing tables count, what each costs, and how the tables write it.
-/

namespace Compare68k

/-- One bus activity. -/
inductive Cycle where
  /-- An internal cycle without bus access. -/
  | idle
  /-- A word fetched from the instruction stream. -/
  | prefetch
  /-- A data read of a byte or a word, or of the low word of a long word. -/
  | read
  /-- A data read of the high word of a long word. -/
  | readHigh
  /-- A data write of a byte or a word, or of the low word of a long word. -/
  | write
  /-- A data write of the high word of a long word. -/
  | writeHigh
deriving DecidableEq, Repr, Inhabited

namespace Cycle

def cycles : Cycle → Nat
  | idle => 2
  | prefetch | read | readHigh | write | writeHigh => 4

/-- The ticks the activity spans, at two clock cycles a tick. -/
def ticks (c : Cycle) : Nat :=
  c.cycles / 2

def mark : Cycle → String
  | idle => "n"
  | prefetch => "np"
  | read => "nr"
  | readHigh => "nR"
  | write => "nw"
  | writeHigh => "nW"

def totalCycles : List Cycle → Nat
  | [] => 0
  | c :: cs => c.cycles + totalCycles cs

def totalTicks : List Cycle → Nat
  | [] => 0
  | c :: cs => c.ticks + totalTicks cs

/-- A sequence of activities as timing tables write it, such as n nR nr np. -/
def pattern (cs : List Cycle) : String :=
  " ".intercalate (cs.map mark)

end Cycle

end Compare68k
