import Compare68k.Bus.Ledger
/-!
# What bus activities cost

The cost of a sequence of activities is the sum over its parts, at two clock cycles a tick.
-/

namespace Compare68k

namespace Cycle

theorem cycles_eq_ticks (c : Cycle) : c.cycles = 2 * c.ticks := by
  cases c <;> rfl

theorem totalCycles_append (cs ds : List Cycle) :
    totalCycles (cs ++ ds) = totalCycles cs + totalCycles ds := by
  induction cs with
  | nil => rw [List.nil_append, totalCycles, Nat.zero_add]
  | cons c cs ih => rw [List.cons_append, totalCycles, totalCycles, ih, Nat.add_assoc]

theorem totalCycles_eq_totalTicks (cs : List Cycle) : totalCycles cs = 2 * totalTicks cs := by
  induction cs with
  | nil => rfl
  | cons c cs ih => rw [totalCycles, totalTicks, ih, c.cycles_eq_ticks, Nat.mul_add]

theorem totalTicks_append (cs ds : List Cycle) :
    totalTicks (cs ++ ds) = totalTicks cs + totalTicks ds := by
  have happend := totalCycles_append cs ds
  rw [totalCycles_eq_totalTicks, totalCycles_eq_totalTicks, totalCycles_eq_totalTicks] at happend
  omega

end Cycle

namespace Ledger

theorem nominal_record (l : Ledger) (c : Cycle) :
    (l.record c).nominal = l.nominal + c.cycles := by
  rw [nominal, record, Cycle.totalCycles_append]
  rfl

theorem nominal_complete (l : Ledger) (c : Cycle) :
    (l.complete c).nominal = l.nominal + c.cycles :=
  l.nominal_record c

end Ledger

end Compare68k
