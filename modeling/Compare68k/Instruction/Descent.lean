import Compare68k.Instruction.Tick
/-!
# Every tick gets on

A tick that does not complete its instruction brings it closer to its end: either the progress
marker moves on to a later stage, or the marker stays and the operand being read has fewer
ticks left.  This is why running an instruction to its end always comes to one.
-/

namespace Compare68k

variable {β : Type} [Bus β]

/-- How many kinds of progress come after a marker. -/
def Progress.rank : Progress → Nat
  | .idle => 5
  | .running _ .source => 4
  | .running _ (.destination _) => 3
  | .running _ .prefetch => 2
  | .running _ .tail => 1
  | .finished => 0

theorem Progress.rank_le (p : Progress) : p.rank ≤ 5 := by
  cases p with
  | idle => exact Nat.le_refl 5
  | running c s => cases s <;> simp [rank]
  | finished => exact Nat.zero_le 5

theorem Cycle.ticks_pos (c : Cycle) : 0 < c.ticks := by
  cases c <;> decide

namespace Resolution

theorem wait_pending_of_start {r r' : Resolution} {regs regs' : Registers}
    (h : r.start regs = .ok (r', regs')) : r'.wait = r.wait ∧ r'.pending = r.pending := by
  unfold start at h
  split at h
  · obtain ⟨a, -, h⟩ := exists_of_bind h
    cases h
    exact ⟨rfl, rfl⟩
  · obtain ⟨a, -, h⟩ := exists_of_bind h
    cases h
    exact ⟨rfl, rfl⟩
  · cases h
    exact ⟨rfl, rfl⟩

theorem ticksLeft_of_prepare {r r' : Resolution} {regs regs' : Registers}
    (h : r.prepare regs = .ok (r', regs')) : r'.ticksLeft = r.ticksLeft := by
  unfold prepare at h
  split at h
  · cases h
    rfl
  · obtain ⟨hw, hp⟩ := wait_pending_of_start h
    rw [ticksLeft, hw, hp, ticksLeft]

end Resolution

namespace Cpu

variable {cpu cpu' : Cpu} {r : Resolution} {bus bus' : β}

def operandTicks (cpu : Cpu) : Nat :=
  match cpu.operand with
  | some r => r.ticksLeft
  | none => 0

/-- The first state is closer to the end of its instruction than the second. -/
def Closer (a b : Cpu) : Prop :=
  a.progress.rank < b.progress.rank ∨
    a.progress.rank = b.progress.rank ∧ a.operandTicks < b.operandTicks

theorem operandTicks_of_pollStarted (h : cpu.pollStarted r bus = .ok (none, cpu', bus')) :
    cpu'.progress = cpu.progress ∧ cpu'.operandTicks < r.ticksLeft := by
  unfold pollStarted at h
  split at h
  · rename_i k hk
    cases h
    refine ⟨rfl, ?_⟩
    simp only [operandTicks, Resolution.ticksLeft, hk]
    omega
  · rename_i c rest hw hp
    obtain ⟨⟨r', registers, bus''⟩, -, h⟩ := exists_of_bind h
    cases h
    refine ⟨rfl, ?_⟩
    have hc := c.ticks_pos
    simp only [operandTicks, Resolution.ticksLeft, hw, hp, Cycle.totalTicks]
    omega
  · obtain ⟨value, -, h⟩ := exists_of_bind h
    cases h

theorem closer_of_poll (h : cpu.poll bus = .ok (none, cpu', bus')) : cpu'.wait.Closer cpu := by
  unfold poll at h
  split at h
  · cases h
  · rename_i r ho
    obtain ⟨⟨r', registers⟩, hr, h⟩ := exists_of_bind h
    obtain ⟨hp, hlt⟩ := operandTicks_of_pollStarted h
    have ht : cpu.operandTicks = r'.ticksLeft := by
      rw [Resolution.ticksLeft_of_prepare hr]
      simp only [operandTicks, ho]
    exact .inr ⟨congrArg Progress.rank hp, by rw [ht]; exact hlt⟩

end Cpu

namespace Class

variable {c : Class} {op : Opcode} {size : Size} {cpu cpu' : Cpu} {bus bus' : β}
  {source : UInt32}

theorem rank_of_tickPrefetch (h : c.tickPrefetch op size cpu = .ok cpu') :
    cpu'.progress.rank ≤ 1 := by
  obtain ⟨destination, -, h⟩ := exists_of_bind h
  cases h
  simp only [Cpu.fetchNext]
  split <;> simp [Progress.rank]

theorem closer_of_tickDestination (hp : cpu.progress.rank = 3)
    (h : c.tickDestination op size source cpu bus = .ok (cpu', bus')) : cpu'.Closer cpu := by
  obtain ⟨⟨value, next, bus''⟩, hv, h⟩ := exists_of_bind h
  cases value with
  | none =>
    cases h
    exact Cpu.closer_of_poll hv
  | some destination =>
    obtain ⟨final, hf, h⟩ := exists_of_bind h
    cases h
    have := rank_of_tickPrefetch hf
    exact .inl (by omega)

theorem closer_of_tickSource (hp : cpu.progress.rank = 4)
    (h : c.tickSource op size cpu bus = .ok (cpu', bus')) : cpu'.Closer cpu := by
  obtain ⟨⟨value, next, bus''⟩, hv, h⟩ := exists_of_bind h
  cases value with
  | none =>
    cases h
    exact Cpu.closer_of_poll hv
  | some source =>
    obtain ⟨mode, -, h⟩ := exists_of_bind h
    obtain ⟨begun, -, h⟩ := exists_of_bind h
    have hr : cpu'.progress.rank ≤ 3 := by
      rcases closer_of_tickDestination rfl h with hlt | ⟨heq, -⟩
      · exact Nat.le_of_lt hlt
      · exact Nat.le_of_eq heq
    exact .inl (by omega)

theorem closer_of_tick (h : c.tick op cpu bus = .ok (cpu', bus'))
    (hf : cpu'.isFinished = false) : cpu'.Closer cpu := by
  obtain ⟨size, -, h⟩ := exists_of_bind h
  split at h
  · rename_i hp
    obtain ⟨mode, -, h⟩ := exists_of_bind h
    obtain ⟨begun, -, h⟩ := exists_of_bind h
    have hr : cpu'.progress.rank ≤ 4 := by
      rcases closer_of_tickSource rfl h with hlt | ⟨heq, -⟩
      · exact Nat.le_of_lt hlt
      · exact Nat.le_of_eq heq
    exact .inl (by rw [hp]; exact Nat.lt_succ_of_le hr)
  · rename_i d stage hp
    split at h
    · cases stage with
      | source => exact closer_of_tickSource (by rw [hp]; rfl) h
      | destination source => exact closer_of_tickDestination (by rw [hp]; rfl) h
      | prefetch =>
        obtain ⟨final, hfin, h⟩ := exists_of_bind h
        cases h
        have hr := rank_of_tickPrefetch hfin
        exact .inl (by rw [hp]; exact Nat.lt_succ_of_le hr)
      | tail =>
        cases h
        exact .inl (by rw [hp]; exact Nat.zero_lt_one)
    · cases h
  · rename_i hp
    cases h
    simp [Cpu.isFinished, hp] at hf

end Class

end Compare68k
