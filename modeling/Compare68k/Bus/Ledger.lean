import Compare68k.Bus.Cycle
/-!
# The ledger

The running account of one instruction: the clock cycles charged so far and the bus
activities recorded so far.  Charging and recording are separate, so that the two sides can
be compared: `cycles` is what was charged and `nominal` what the recorded activities cost.
-/

namespace Compare68k

structure Ledger where
  cycles : Nat := 0
  /-- The activities recorded, oldest first. -/
  transactions : List Cycle := []
deriving DecidableEq, Repr, Inhabited

namespace Ledger

def empty : Ledger := {}

def charge (l : Ledger) (n : Nat) : Ledger :=
  { l with cycles := l.cycles + n }

/-- Adds an activity to the log, without charging for it. -/
def record (l : Ledger) (c : Cycle) : Ledger :=
  { l with transactions := l.transactions ++ [c] }

/-- Records an activity and charges its full cost. -/
def complete (l : Ledger) (c : Cycle) : Ledger :=
  (l.record c).charge c.cycles

def count (l : Ledger) (c : Cycle) : Nat :=
  l.transactions.count c

def nominal (l : Ledger) : Nat :=
  Cycle.totalCycles l.transactions

def text (l : Ledger) : String :=
  Cycle.pattern l.transactions

end Ledger

end Compare68k
