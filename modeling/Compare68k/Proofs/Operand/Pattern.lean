import Compare68k.Operand.Mode
/-!
# The activities of the modes

What holds of the activities of every mode at every size: there are at most two prefetches, one for
each extension word, nothing is written, and no mode takes more than sixteen clock cycles.
-/

namespace Compare68k

def Cycle.isWrite : Cycle → Bool
  | write | writeHigh => true
  | idle | prefetch | read | readHigh => false

namespace Mode

theorem extensionWords_le (m : Mode) (size : Size) : m.extensionWords size ≤ 2 := by
  cases m <;> cases size <;> simp [extensionWords]

theorem count_prefetch_pattern (m : Mode) (size : Size) :
    (m.pattern size).count .prefetch = m.extensionWords size := by
  cases m <;> cases size <;> simp [pattern, fetch, extensionWords]

theorem isWrite_of_mem_pattern {m : Mode} {size : Size} {c : Cycle} (h : c ∈ m.pattern size) :
    c.isWrite = false := by
  cases c with
  | write | writeHigh => cases m <;> cases size <;> simp [pattern, fetch] at h
  | idle | prefetch | read | readHigh => rfl

theorem cycles_le (m : Mode) (size : Size) : m.cycles size ≤ 16 := by
  cases m <;> cases size <;> simp [cycles, pattern, fetch, Cycle.totalCycles, Cycle.cycles]

end Mode

end Compare68k
