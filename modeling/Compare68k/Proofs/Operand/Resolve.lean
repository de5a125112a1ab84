import Compare68k.Cpu
import Compare68k.Proofs.Bus.Ledger
import Compare68k.Proofs.Operand.Soundness
/-!
# An operand in one go

What a resolution would deliver if all its remaining activities ran at once.  Main statement: a
poll of a sound resolution either brings that result or leaves a sound resolution from which the
same result is still to come, having moved at most one activity to the log.  So polls bring it in
the end, after as many of them as there are ticks.
-/

namespace Compare68k

variable {β : Type} [Bus β]

namespace Resolution

def gather (r : Resolution) (regs : Registers) (bus : β) :
    List Cycle → Except Fault (UInt32 × Registers × β)
  | [] => do
    let value ← r.finish regs
    return (value, regs, bus)
  | c :: cs => do
    let (r, regs, bus) ← r.perform c regs bus
    (r.next c cs).gather regs bus cs

def resolve (r : Resolution) (regs : Registers) (bus : β) :
    Except Fault (UInt32 × Registers × β) := do
  let (r, regs) ← r.prepare regs
  r.gather regs bus r.pending

def withWait (r : Resolution) (k : Nat) : Resolution :=
  { r with wait := k }

variable {r r' : Resolution} {regs regs' : Registers}

theorem prepare_of_started (h : r.started = true) (regs : Registers) :
    r.prepare regs = .ok (r, regs) := by
  rw [prepare, if_pos h]

theorem perform_withWait (r : Resolution) (k : Nat) (c : Cycle) (regs : Registers) (bus : β) :
    (r.withWait k).perform c regs bus =
      (r.perform c regs bus).map fun (r', rest) => (r'.withWait k, rest) := by
  have heffective : (r.withWait k).effectiveAddress regs = r.effectiveAddress regs := rfl
  cases c with
  | idle =>
    have hmode : (r.withWait k).mode = r.mode := rfl
    have hsize : (r.withWait k).size = r.size := rfl
    simp only [perform, hmode, hsize]
    split
    · rename_i n _
      cases regs.address? n <;> rfl
    · rfl
  | prefetch | write | writeHigh => rfl
  | readHigh =>
    simp only [perform, heffective]
    cases r.effectiveAddress regs <;> rfl
  | read =>
    have hsize : (r.withWait k).size = r.size := rfl
    simp only [perform, heffective, hsize]
    cases r.effectiveAddress regs <;> cases r.size <;> rfl

theorem gather_withWait (r : Resolution) (k : Nat) (regs : Registers) (bus : β)
    (cs : List Cycle) : (r.withWait k).gather regs bus cs = r.gather regs bus cs := by
  cases cs with
  | nil => rfl
  | cons c cs =>
    rw [gather, perform_withWait, gather]
    cases r.perform c regs bus <;> rfl

theorem Sound.withWait {k : Nat} (h : r.Sound) (hk : k ≤ 1) : (r.withWait k).Sound where
  wellFormed := h.wellFormed
  pending_suffix := h.pending_suffix
  wait_le := hk
  address_of_started := h.address_of_started
  address_of_moved := h.address_of_moved

theorem words_of_prepare (h : r.prepare regs = .ok (r', regs')) : r'.words = r.words := by
  unfold prepare start at h
  split at h
  · cases h
    rfl
  · split at h
    case h_3 =>
      cases h
      rfl
    all_goals
      obtain ⟨a, -, h⟩ := exists_of_bind h
      cases h
      rfl

theorem words_of_perform {c : Cycle} {bus bus' : β}
    (h : r.perform c regs bus = .ok (r', regs', bus')) :
    r'.words.length = r.words.length + if c = .prefetch then 1 else 0 := by
  cases c with
  | idle =>
    simp only [perform] at h
    split at h
    · obtain ⟨a, -, h⟩ := exists_of_bind h
      cases h
      rfl
    · cases h
      rfl
  | prefetch =>
    cases h
    exact List.length_append
  | readHigh =>
    obtain ⟨a, -, h⟩ := exists_of_bind h
    cases h
    rfl
  | read =>
    obtain ⟨a, -, h⟩ := exists_of_bind h
    split at h <;>
    · cases h
      rfl
  | write | writeHigh =>
    cases h
    rfl

theorem resolve_of_prepare (h : r.prepare regs = .ok (r', regs')) (bus : β) :
    r.resolve regs bus = r'.gather regs' bus r.pending := by
  have hpending : r'.pending = r.pending := (extends_of_prepare h).1.pending
  rw [resolve, h, ← hpending]
  rfl

theorem resolve_of_started (h : r.started = true) (regs : Registers) (bus : β) :
    r.resolve regs bus = r.gather regs bus r.pending :=
  resolve_of_prepare (prepare_of_started h regs) bus

end Resolution

namespace Cpu

variable {cpu : Cpu} {r : Resolution}

/-- What a poll that brings no operand makes of the processor state and the bus.  An activity
that begins is in the log at once, and its cost is charged a tick at a time. -/
structure Polled (cpu : Cpu) (r : Resolution) (bus : β) (cpu' : Cpu) (r' : Resolution)
    (bus' : β) : Prop where
  operand : cpu'.operand = some r'
  sound : r'.Sound
  progress : cpu'.progress = cpu.progress
  mode : r'.mode = r.mode
  size : r'.size = r.size
  transactions : cpu'.ledger.transactions ++ r'.pending = cpu.ledger.transactions ++ r.pending
  cycles : cpu'.ledger.cycles = cpu.ledger.cycles
  nominal : cpu'.ledger.nominal + 2 * r.wait = cpu.ledger.nominal + 2 * (r'.wait + 1)
  words : r'.words.length + r'.pending.count .prefetch =
    r.words.length + r.pending.count .prefetch
  resolve : r'.resolve cpu'.registers bus' = r.resolve cpu.registers bus

theorem Polled.of_prepare {regs : Registers} {bus bus' : β} {cpu' : Cpu} {r₀ r' : Resolution}
    (hprepare : r₀.prepare cpu.registers = .ok (r, regs))
    (h : { cpu with registers := regs }.Polled r bus cpu' r' bus') :
    cpu.Polled r₀ bus cpu' r' bus' := by
  obtain ⟨hextends, hstarted⟩ := Resolution.extends_of_prepare hprepare
  refine ⟨h.operand, h.sound, h.progress, h.mode.trans hextends.mode, h.size.trans hextends.size,
    ?_, h.cycles, ?_, ?_, ?_⟩
  · rw [← hextends.pending]
    exact h.transactions
  · rw [← hextends.wait]
    exact h.nominal
  · rw [h.words, hextends.pending, Resolution.words_of_prepare hprepare]
  · rw [h.resolve, Resolution.resolve_of_prepare hprepare, Resolution.resolve_of_started hstarted,
      hextends.pending]

theorem polled_of_wait (h : r.Sound) (hstarted : r.started = true) {k : Nat}
    (hwait : r.wait = k + 1) (bus : β) :
    cpu.Polled r bus { cpu with operand := some (r.withWait k) } (r.withWait k) bus := by
  have hle := h.wait_le
  have hstarted' : (r.withWait k).started = true := hstarted
  refine ⟨rfl, h.withWait (by omega), rfl, rfl, rfl, rfl, rfl, ?_, rfl, ?_⟩
  · rw [hwait]
    rfl
  · rw [Resolution.resolve_of_started hstarted', Resolution.resolve_of_started hstarted]
    exact Resolution.gather_withWait r k cpu.registers bus r.pending

theorem polled_of_perform {r' : Resolution} {c : Cycle} {cs : List Cycle} {regs : Registers}
    {bus bus' : β} (hstarted : r.started = true) (hwait : r.wait = 0)
    (hpending : r.pending = c :: cs)
    (hperform : r.perform c cpu.registers bus = .ok (r', regs, bus'))
    (hnext : (r'.next c cs).Sound) :
    cpu.Polled r bus
      { cpu with
        registers := regs
        operand := some (r'.next c cs)
        ledger := cpu.ledger.record c }
      (r'.next c cs) bus' := by
  have hextends := Resolution.extends_of_perform hperform
  have hstarted' : (r'.next c cs).started = true := hextends.started hstarted
  refine ⟨rfl, hnext, rfl, hextends.mode, hextends.size, ?_, rfl, ?_, ?_, ?_⟩
  · show cpu.ledger.transactions ++ [c] ++ cs = cpu.ledger.transactions ++ r.pending
    rw [hpending, List.append_assoc]
    rfl
  · show (cpu.ledger.record c).nominal + 2 * r.wait = cpu.ledger.nominal + 2 * (c.ticks - 1 + 1)
    have hpos := c.ticks_pos
    rw [Ledger.nominal_record, hwait, c.cycles_eq_ticks]
    omega
  · show r'.words.length + cs.count .prefetch = r.words.length + r.pending.count .prefetch
    rw [Resolution.words_of_perform hperform, hpending, List.count_cons, Nat.add_right_comm,
      Nat.add_assoc]
    simp only [beq_iff_eq]
  · rw [Resolution.resolve_of_started hstarted', Resolution.resolve_of_started hstarted, hpending,
      Resolution.gather, hperform]
    rfl

theorem pollStarted_of_sound (h : r.Sound) (hstarted : r.started = true) (bus : β) :
    (∃ cpu' r' bus', cpu.pollStarted r bus = .ok (none, cpu', bus') ∧
      cpu.Polled r bus cpu' r' bus') ∨
    (∃ value, cpu.pollStarted r bus = .ok (some value, { cpu with operand := none }, bus) ∧
      r.wait = 0 ∧ r.pending = [] ∧ r.finish cpu.registers = .ok value) := by
  unfold pollStarted
  cases hwait : r.wait with
  | succ k => exact .inl ⟨_, _, bus, rfl, polled_of_wait h hstarted hwait bus⟩
  | zero =>
    cases hpending : r.pending with
    | nil =>
      obtain ⟨value, hvalue⟩ := h.exists_finish cpu.registers
      right
      refine ⟨value, ?_, rfl, rfl, hvalue⟩
      dsimp only
      rw [hvalue]
      rfl
    | cons c cs =>
      obtain ⟨r', regs, bus', hperform, hnext⟩ :=
        h.exists_perform hstarted hpending cpu.registers bus
      left
      refine ⟨_, _, bus', ?_, polled_of_perform hstarted hwait hpending hperform hnext⟩
      dsimp only
      rw [hperform]
      rfl

/-- A poll of a sound resolution succeeds.  It brings the operand exactly if no activity is left,
and what it brings is what the resolution would have delivered in one go. -/
theorem poll_of_sound (ho : cpu.operand = some r) (h : r.Sound) (bus : β) :
    (∃ cpu' r' bus', cpu.poll bus = .ok (none, cpu', bus') ∧ cpu.Polled r bus cpu' r' bus') ∨
    (∃ value registers, cpu.poll bus =
        .ok (some value, { cpu with registers, operand := none }, bus) ∧
      r.wait = 0 ∧ r.pending = [] ∧
      r.resolve cpu.registers bus = .ok (value, registers, bus)) := by
  obtain ⟨r', regs, hprepare, hsound⟩ := Resolution.exists_prepare h cpu.registers
  obtain ⟨hextends, hstarted⟩ := Resolution.extends_of_prepare hprepare
  have hpoll : cpu.poll bus = { cpu with registers := regs }.pollStarted r' bus := by
    rw [poll, ho]
    dsimp only
    rw [hprepare]
    rfl
  rw [hpoll]
  rcases pollStarted_of_sound hsound hstarted bus with
    ⟨cpu', r'', bus', hstep, hpolled⟩ | ⟨value, hstep, hwait, hpending, hfinish⟩
  · exact .inl ⟨cpu', r'', bus', hstep, hpolled.of_prepare hprepare⟩
  · refine .inr ⟨value, regs, hstep, hextends.wait ▸ hwait, hextends.pending ▸ hpending, ?_⟩
    rw [Resolution.resolve_of_prepare hprepare, ← hextends.pending, hpending, Resolution.gather,
      hfinish]
    rfl

/-! ## Polls until the operand is there -/

def await (cpu : Cpu) (bus : β) : Nat → Except Fault (Option UInt32 × Cpu × β)
  | 0 => .ok (none, cpu, bus)
  | n + 1 => do
    let (answer, cpu, bus) ← cpu.poll bus
    match answer with
    | some value => return (some value, cpu, bus)
    | none => cpu.await bus n

theorem Polled.ticksLeft {bus bus' : β} {cpu' : Cpu} {r' : Resolution}
    (h : cpu.Polled r bus cpu' r' bus') : r.ticksLeft = r'.ticksLeft + 1 := by
  have htotal := congrArg Cycle.totalTicks h.transactions
  have hnominal := h.nominal
  rw [Cycle.totalTicks_append, Cycle.totalTicks_append] at htotal
  rw [Ledger.nominal, Ledger.nominal, Cycle.totalCycles_eq_totalTicks,
    Cycle.totalCycles_eq_totalTicks] at hnominal
  rw [Resolution.ticksLeft, Resolution.ticksLeft]
  omega

theorem await_of_sound (ho : cpu.operand = some r) (h : r.Sound) (bus : β) {n : Nat}
    (hn : r.ticksLeft < n) :
    ∃ value last bus', cpu.await bus n = .ok (some value, last, bus') ∧ last.operand = none ∧
      r.resolve cpu.registers bus = .ok (value, last.registers, bus') := by
  induction n generalizing cpu r bus with
  | zero => cases hn
  | succ n ih =>
    rcases poll_of_sound ho h bus with
      ⟨cpu', r', bus', hpoll, hpolled⟩ | ⟨value, registers, hpoll, -, -, hresolve⟩
    · have hticks := hpolled.ticksLeft
      obtain ⟨value, last, bus'', hawait, hlast, hresolve⟩ :=
        ih hpolled.operand hpolled.sound bus' (by omega)
      rw [hpolled.resolve] at hresolve
      refine ⟨value, last, bus'', ?_, hlast, hresolve⟩
      rw [await, hpoll]
      exact hawait
    · refine ⟨value, { cpu with registers, operand := none }, bus, ?_, rfl, hresolve⟩
      rw [await, hpoll]
      rfl

end Cpu

end Compare68k
