import Compare68k.Proofs.Instruction.Schedule
import Compare68k.Proofs.Operand.Resolve
/-!
# The course of an instruction

An instruction in flight is reading its source, reading its destination, or has only its closing
cycle left.  `Underway` says which after how many ticks, with everything the ledger holds by then;
it mentions neither registers nor memory.  Main statement: a tick of an instruction that is
underway succeeds, and leaves it underway or complete one tick later.  What the rest of the
instruction does to registers and memory, `remaining`, is the same before and after the tick.
-/

namespace Compare68k

variable {β : Type} [Bus β]

/-- An operand of a mode and size is being read, and an earlier part of the instruction has
recorded the given activities.  What is recorded and not charged is the rest of the present
activity. -/
structure Cpu.Reads (cpu : Cpu) (r : Resolution) (mode : Mode) (size : Size)
    (earlier : List Cycle) : Prop where
  operand : cpu.operand = some r
  sound : r.Sound
  mode_eq : r.mode = mode
  size_eq : r.size = size
  transactions : cpu.ledger.transactions ++ r.pending = earlier ++ mode.pattern size
  nominal : cpu.ledger.nominal = cpu.ledger.cycles + 2 * r.wait
  words : r.words.length + r.pending.count .prefetch = (mode.pattern size).count .prefetch
  wait_of_nil : mode.pattern size = [] → r.wait = 0

theorem Cpu.Reads.withRegisters {cpu : Cpu} {r : Resolution} {mode : Mode} {size : Size}
    {earlier : List Cycle} {regs : Registers} (h : cpu.Reads r mode size earlier) :
    { cpu with registers := regs }.Reads r mode size earlier :=
  ⟨h.operand, h.sound, h.mode_eq, h.size_eq, h.transactions, h.nominal, h.words, h.wait_of_nil⟩

theorem Cpu.Reads.pattern_ne_nil {cpu cpu' : Cpu} {r r' : Resolution} {mode : Mode} {size : Size}
    {earlier : List Cycle} {bus bus' : β} (h : cpu.Reads r mode size earlier)
    (hp : cpu.Polled r bus cpu' r' bus') : mode.pattern size ≠ [] := by
  intro hnil
  have hbefore : r.pending = [] := by
    have hsuffix := h.sound.pending_suffix
    rwa [h.mode_eq, h.size_eq, hnil, List.suffix_nil] at hsuffix
  have hafter : r'.pending = [] := by
    have hsuffix := hp.sound.pending_suffix
    rwa [hp.mode, hp.size, h.mode_eq, h.size_eq, hnil, List.suffix_nil] at hsuffix
  have hlog := hp.transactions
  rw [hbefore, hafter, List.append_nil, List.append_nil] at hlog
  have hsame : cpu'.ledger.nominal = cpu.ledger.nominal := congrArg Cycle.totalCycles hlog
  have hwait := h.wait_of_nil hnil
  have hnominal := hp.nominal
  omega

namespace Instruction

/-- An instruction is in flight and has been ticked a number of times. -/
inductive Underway (i : Instruction) (k : Nat) (cpu : Cpu) : Prop where
  | source (r : Resolution) (progress : cpu.progress = .running i.cls .source)
      (reads : cpu.Reads r i.source i.size []) (cycles : cpu.ledger.cycles = 2 * k)
      (waits : i.source.pattern i.size ≠ [])
  | destination (value : UInt32) (r : Resolution)
      (progress : cpu.progress = .running i.cls (.destination value))
      (reads : cpu.Reads r i.destination i.width (i.source.pattern i.size))
      (cycles : cpu.ledger.cycles = 2 * k) (waits : i.destination.pattern i.width ≠ [])
  | tail (progress : cpu.progress = .running i.cls .tail) (operand : cpu.operand = none)
      (closes : i.closes = true)
      (transactions : cpu.ledger.transactions = i.operandPattern ++ [.prefetch])
      (nominal : cpu.ledger.nominal = cpu.ledger.cycles)
      (cycles : cpu.ledger.cycles = 2 * k + 2)

structure Complete (i : Instruction) (k : Nat) (cpu : Cpu) : Prop where
  progress : cpu.progress = .finished
  operand : cpu.operand = none
  transactions : cpu.ledger.transactions = i.schedule
  nominal : cpu.ledger.nominal = cpu.ledger.cycles
  cycles : cpu.ledger.cycles = 2 * k + 2

def fromDestination (i : Instruction) (source : UInt32) (r : Resolution) (regs : Registers)
    (bus : β) : Except Fault (Registers × β) := do
  let (destination, regs, bus) ← r.resolve regs bus
  let status := regs.status.afterCompare i.width (i.cls.extend i.size source) destination
  return ({ regs with status }, bus)

def fromSource (i : Instruction) (r : Resolution) (regs : Registers) (bus : β) :
    Except Fault (Registers × β) := do
  let (source, regs, bus) ← r.resolve regs bus
  i.fromDestination source (.ofMode i.destination i.width) regs bus

/-- What is left to do of an instruction in flight. -/
def remaining (i : Instruction) (cpu : Cpu) (bus : β) : Except Fault (Registers × β) :=
  match cpu.progress, cpu.operand with
  | .running _ .source, some r => i.fromSource r cpu.registers bus
  | .running _ (.destination source), some r => i.fromDestination source r cpu.registers bus
  | _, _ => .ok (cpu.registers, bus)

variable {i : Instruction} {op : Opcode} {k : Nat} {cpu : Cpu} {r : Resolution}

theorem Underway.isFinished (h : i.Underway k cpu) : cpu.isFinished = false := by
  cases h with
  | source r progress | destination value r progress | tail progress =>
    rw [Cpu.isFinished, progress]
    rfl

theorem Complete.isFinished (h : i.Complete k cpu) : cpu.isFinished = true :=
  decide_eq_true h.progress

theorem Underway.withRegisters (h : i.Underway k cpu) (regs : Registers) :
    i.Underway k { cpu with registers := regs } := by
  cases h with
  | source r progress reads cycles waits =>
    exact .source r progress reads.withRegisters cycles waits
  | destination value r progress reads cycles waits =>
    exact .destination value r progress reads.withRegisters cycles waits
  | tail progress operand closes transactions nominal cycles =>
    exact .tail progress operand closes transactions nominal cycles

/-! ## The ticks that are left -/

theorem Complete.totalTicks (h : i.Complete k cpu) : Cycle.totalTicks i.schedule = k + 1 := by
  have hnominal : Cycle.totalCycles cpu.ledger.transactions = cpu.ledger.cycles := h.nominal
  rw [h.transactions, h.cycles, Cycle.totalCycles_eq_totalTicks] at hnominal
  omega

/-- All of a complete instruction but the registers is known. -/
theorem Complete.cpu_eq (h : i.Complete k cpu) :
    cpu = ⟨cpu.registers, .finished, none, ⟨Cycle.totalCycles i.schedule, i.schedule⟩⟩ := by
  have hcycles : cpu.ledger.cycles = Cycle.totalCycles i.schedule := by
    rw [← h.nominal, Ledger.nominal, h.transactions]
  rw [← hcycles, ← h.transactions, ← h.progress, ← h.operand]

theorem Complete.remaining (h : i.Complete k cpu) (bus : β) :
    i.remaining cpu bus = .ok (cpu.registers, bus) := by
  rw [Instruction.remaining, h.progress]

theorem le_of_reads {mode : Mode} {size : Size} {earlier : List Cycle}
    (h : cpu.Reads r mode size earlier) (hcycles : cpu.ledger.cycles = 2 * k) :
    k ≤ Cycle.totalTicks (earlier ++ mode.pattern size) := by
  have hnominal : Cycle.totalCycles cpu.ledger.transactions = cpu.ledger.cycles + 2 * r.wait :=
    h.nominal
  rw [Cycle.totalCycles_eq_totalTicks, hcycles] at hnominal
  rw [← h.transactions, Cycle.totalTicks_append]
  omega

theorem Underway.lt (hd : i.Decoded op) (h : i.Underway k cpu) :
    k + 1 < Cycle.totalTicks i.schedule := by
  have hticks := totalTicks_schedule i
  cases h with
  | source r progress reads cycles =>
    have hle := le_of_reads reads cycles
    rw [operandPattern_eq hd, Cycle.totalTicks_append] at hticks
    rw [List.nil_append] at hle
    omega
  | destination value r progress reads cycles =>
    have hle := le_of_reads reads cycles
    rw [← operandPattern_eq hd] at hle
    omega
  | tail progress operand closes transactions nominal cycles =>
    have hnominal : Cycle.totalCycles cpu.ledger.transactions = cpu.ledger.cycles := nominal
    rw [transactions, Cycle.totalCycles_eq_totalTicks, Cycle.totalTicks_append, cycles] at hnominal
    have hprefetch : Cycle.totalTicks [.prefetch] = 2 := rfl
    rw [if_pos closes] at hticks
    omega

/-! ## The stages of a tick -/

theorem after_fetchNext (hd : i.Decoded op) (hoperand : cpu.operand = none)
    (htransactions : cpu.ledger.transactions = i.operandPattern)
    (hnominal : cpu.ledger.nominal = cpu.ledger.cycles) (hcycles : cpu.ledger.cycles = 2 * k) :
    i.Underway (k + 1) (cpu.fetchNext i.cls i.size i.destination) ∨
      i.Complete (k + 1) (cpu.fetchNext i.cls i.size i.destination) := by
  have hcharged : (cpu.ledger.complete .prefetch).cycles = 2 * (k + 1) + 2 := by
    show cpu.ledger.cycles + 4 = 2 * (k + 1) + 2
    omega
  have hbalance : (cpu.ledger.complete .prefetch).nominal =
      (cpu.ledger.complete .prefetch).cycles := by
    rw [Ledger.nominal_complete, hnominal]
    rfl
  have hlog : (cpu.ledger.complete .prefetch).transactions = i.operandPattern ++ [.prefetch] := by
    rw [← htransactions]
    rfl
  cases hcloses : i.closes with
  | true =>
    left
    refine .tail ?_ hoperand hcloses hlog hbalance hcharged
    simp only [Cpu.fetchNext, ← closes_eq_hasTail hd, hcloses, if_true]
  | false =>
    right
    refine ⟨?_, hoperand, ?_, hbalance, hcharged⟩
    · simp only [Cpu.fetchNext, ← closes_eq_hasTail hd, hcloses, Bool.false_eq_true, if_false]
    · rw [schedule, hcloses]
      exact hlog

theorem reads_wait {mode : Mode} {size : Size} {earlier : List Cycle} {bus bus' : β} {cpu' : Cpu}
    {r' : Resolution} (h : cpu.Reads r mode size earlier) (hp : cpu.Polled r bus cpu' r' bus') :
    cpu'.wait.Reads r' mode size earlier := by
  have hbefore := h.nominal
  have hafter := hp.nominal
  have hcharged := hp.cycles
  refine ⟨hp.operand, hp.sound, hp.mode.trans h.mode_eq, hp.size.trans h.size_eq,
    hp.transactions.trans h.transactions, ?_, hp.words.trans h.words,
    fun hnil => absurd hnil (h.pattern_ne_nil hp)⟩
  show cpu'.ledger.nominal = cpu'.ledger.cycles + 2 + 2 * r'.wait
  omega

theorem remaining_fetchNext (i : Instruction) (cpu : Cpu) (c : Class) (size : Size)
    (destination : Mode) (bus : β) :
    i.remaining (cpu.fetchNext c size destination) bus = .ok (cpu.registers, bus) := by
  unfold remaining Cpu.fetchNext
  cases c.hasTail size destination <;> rfl

theorem tickDestination_of_reads (hd : i.Decoded op) {source : UInt32}
    (hprogress : cpu.progress = .running i.cls (.destination source))
    (h : cpu.Reads r i.destination i.width (i.source.pattern i.size))
    (hcycles : cpu.ledger.cycles = 2 * k) (bus : β) :
    ∃ cpu' bus', i.cls.tickDestination op i.size source cpu bus = .ok (cpu', bus') ∧
      (i.Underway (k + 1) cpu' ∨ i.Complete (k + 1) cpu') ∧
      i.remaining cpu' bus' = i.fromDestination source r cpu.registers bus := by
  unfold Class.tickDestination
  rcases Cpu.poll_of_sound h.operand h.sound bus with
    ⟨cpu', r', bus', hpoll, hp⟩ | ⟨destination, regs, hpoll, hwait, hpending, hresolve⟩
  · refine ⟨cpu'.wait, bus', ?_, .inl ?_, ?_⟩
    · rw [hpoll]
      rfl
    · refine .destination source r' (hp.progress.trans hprogress) (reads_wait h hp) ?_
        (h.pattern_ne_nil hp)
      show cpu'.ledger.cycles + 2 = 2 * (k + 1)
      rw [hp.cycles, hcycles]
      omega
    · have hprogress' : cpu'.wait.progress = .running i.cls (.destination source) :=
        hp.progress.trans hprogress
      have hoperand' : cpu'.wait.operand = some r' := hp.operand
      rw [remaining, hprogress', hoperand']
      show i.fromDestination source r' cpu'.registers bus' = _
      rw [fromDestination, hp.resolve]
      rfl
  · let read : Cpu := { cpu with registers := regs, operand := none }
    let compared := read.applyCompare i.cls i.size source destination
    refine ⟨compared.fetchNext i.cls i.size i.destination, bus, ?_, ?_, ?_⟩
    · rw [hpoll]
      show (do let cpu ← i.cls.tickPrefetch op i.size compared; return (cpu, bus)) = _
      rw [Class.tickPrefetch, hd.destination]
      rfl
    · have htransactions := h.transactions
      rw [hpending, List.append_nil, ← operandPattern_eq hd] at htransactions
      have hnominal := h.nominal
      rw [hwait] at hnominal
      exact after_fetchNext hd rfl htransactions hnominal hcycles
    · rw [remaining_fetchNext, fromDestination, hresolve]
      rfl

theorem reads_ofMode {mode : Mode} (hmode : mode.wellFormed = true) (size : Size)
    {earlier : List Cycle} (hoperand : cpu.operand = some (.ofMode mode size))
    (htransactions : cpu.ledger.transactions = earlier)
    (hnominal : cpu.ledger.nominal = cpu.ledger.cycles) :
    cpu.Reads (.ofMode mode size) mode size earlier where
  operand := hoperand
  sound := Resolution.sound_ofMode size hmode
  mode_eq := rfl
  size_eq := rfl
  transactions := by
    rw [htransactions]
    rfl
  nominal := hnominal
  words := Nat.zero_add _
  wait_of_nil _ := rfl

theorem tickSource_of_reads (hd : i.Decoded op) (hprogress : cpu.progress = .running i.cls .source)
    (h : cpu.Reads r i.source i.size []) (hcycles : cpu.ledger.cycles = 2 * k) (bus : β) :
    ∃ cpu' bus', i.cls.tickSource op i.size cpu bus = .ok (cpu', bus') ∧
      (i.Underway (k + 1) cpu' ∨ i.Complete (k + 1) cpu') ∧
      i.remaining cpu' bus' = i.fromSource r cpu.registers bus := by
  unfold Class.tickSource
  rcases Cpu.poll_of_sound h.operand h.sound bus with
    ⟨cpu', r', bus', hpoll, hp⟩ | ⟨source, regs, hpoll, hwait, hpending, hresolve⟩
  · refine ⟨cpu'.wait, bus', ?_, .inl ?_, ?_⟩
    · rw [hpoll]
      rfl
    · refine .source r' (hp.progress.trans hprogress) (reads_wait h hp) ?_
        (h.pattern_ne_nil hp)
      show cpu'.ledger.cycles + 2 = 2 * (k + 1)
      rw [hp.cycles, hcycles]
      omega
    · have hprogress' : cpu'.wait.progress = .running i.cls .source :=
        hp.progress.trans hprogress
      have hoperand' : cpu'.wait.operand = some r' := hp.operand
      rw [remaining, hprogress', hoperand']
      show i.fromSource r' cpu'.registers bus' = _
      rw [fromSource, hp.resolve]
      rfl
  · let begun : Cpu :=
      { cpu with
        registers := regs
        progress := .running i.cls (.destination source)
        operand := some (.ofMode i.destination i.width) }
    have htransactions := h.transactions
    rw [hpending, List.append_nil, List.nil_append] at htransactions
    have hnominal := h.nominal
    rw [hwait] at hnominal
    have hreads : begun.Reads (.ofMode i.destination i.width) i.destination i.width
        (i.source.pattern i.size) :=
      reads_ofMode hd.destination_wellFormed i.width rfl htransactions hnominal
    obtain ⟨cpu', bus', htick, hafter, hremaining⟩ :=
      tickDestination_of_reads hd rfl hreads hcycles bus
    refine ⟨cpu', bus', ?_, hafter, ?_⟩
    · rw [hpoll, ← htick, hd.destination]
      rfl
    · rw [hremaining, fromSource, hresolve]
      rfl

/-! ## A whole tick -/

theorem tick_of_idle (hd : i.Decoded op) (hprogress : cpu.progress = .idle)
    (hoperand : cpu.operand = none) (hledger : cpu.ledger = .empty) (bus : β) :
    ∃ cpu' bus', i.cls.tick op cpu bus = .ok (cpu', bus') ∧
      (i.Underway 1 cpu' ∨ i.Complete 1 cpu') ∧
      i.remaining cpu' bus' = i.fromSource (.ofMode i.source i.size) cpu.registers bus := by
  let begun : Cpu :=
    { cpu with
      progress := .running i.cls .source
      operand := some (.ofMode i.source i.size) }
  have htransactions : begun.ledger.transactions = [] := congrArg Ledger.transactions hledger
  have hcycles : begun.ledger.cycles = 2 * 0 := congrArg Ledger.cycles hledger
  have hnominal : begun.ledger.nominal = begun.ledger.cycles := by
    rw [hcycles, Ledger.nominal, htransactions]
    rfl
  have hreads : begun.Reads (.ofMode i.source i.size) i.source i.size [] :=
    reads_ofMode hd.source_wellFormed i.size rfl htransactions hnominal
  obtain ⟨cpu', bus', htick, hafter, hremaining⟩ := tickSource_of_reads hd rfl hreads hcycles bus
  have hbegin : cpu.beginOperand i.source i.size =
      .ok { cpu with operand := some (.ofMode i.source i.size) } := by
    rw [Cpu.beginOperand, hoperand]
  refine ⟨cpu', bus', ?_, hafter, hremaining⟩
  rw [← htick, Class.tick, hd.size]
  dsimp only [bind, Except.bind]
  rw [hprogress, hd.source]
  dsimp only
  rw [hbegin]

/-- A tick of an instruction that is underway. -/
theorem Underway.tick (hd : i.Decoded op) (h : i.Underway k cpu) (bus : β) :
    ∃ cpu' bus', i.cls.tick op cpu bus = .ok (cpu', bus') ∧
      (i.Underway (k + 1) cpu' ∨ i.Complete (k + 1) cpu') ∧
      i.remaining cpu' bus' = i.remaining cpu bus := by
  rw [Class.tick, hd.size]
  dsimp only [bind, Except.bind]
  cases h with
  | source r progress reads cycles =>
    rw [progress, remaining, progress, reads.operand]
    dsimp only
    rw [if_pos rfl]
    exact tickSource_of_reads hd progress reads cycles bus
  | destination value r progress reads cycles =>
    rw [progress, remaining, progress, reads.operand]
    dsimp only
    rw [if_pos rfl]
    exact tickDestination_of_reads hd progress reads cycles bus
  | tail progress operand closes transactions nominal cycles =>
    rw [progress]
    dsimp only
    rw [if_pos rfl]
    refine ⟨cpu.closeInstruction, bus, rfl, .inr ⟨rfl, operand, ?_, ?_, ?_⟩, ?_⟩
    · show cpu.ledger.transactions ++ [.idle] = _
      rw [transactions, schedule, if_pos closes, List.append_assoc]
      rfl
    · show (cpu.ledger.complete .idle).nominal = cpu.ledger.cycles + 2
      rw [Ledger.nominal_complete, nominal]
      rfl
    · show cpu.ledger.cycles + 2 = 2 * (k + 1) + 2
      omega
    · rw [remaining, remaining, progress, operand]
      rfl

end Instruction

end Compare68k
