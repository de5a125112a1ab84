import Compare68k.Proofs.Processor.Control
import Compare68k.Proofs.Processor.Timing
import Compare68k.Proofs.Processor.Turn
/-!
# The ledger at every tick

An activity is recorded as it begins and charged for tick by tick, so what is recorded and what is
charged differ while an activity is under way.  Main statement: they differ by two clock cycles when
an operand's activity of four cycles is half over, and agree otherwise.  Every tick charges two
cycles, but for the one that compares and fetches the next opcode; that one charges four.
-/

namespace Compare68k

/-- An operand is being read, and one of the two ticks of its present activity, which is one of four
cycles, is over. -/
def Cpu.Halfway (cpu : Cpu) : Prop :=
  ∃ r c, cpu.operand = some r ∧ cpu.ledger.transactions.getLast? = some c ∧ c.cycles = 4 ∧
    c.ticks - r.wait = 1

structure Cpu.Level (cpu : Cpu) : Prop where
  ahead : cpu.ledger.nominal = cpu.ledger.cycles ∨ cpu.ledger.nominal = cpu.ledger.cycles + 2
  halfway : cpu.ledger.nominal = cpu.ledger.cycles + 2 ↔ cpu.Halfway
  finished : cpu.progress = .finished → cpu.ledger.nominal = cpu.ledger.cycles

namespace Instruction

inductive Charged (i : Instruction) (cpu cpu' : Cpu) : Prop where
  /-- An operand is awaited, or the instruction closes. -/
  | two (cycles : cpu'.ledger.cycles = cpu.ledger.cycles + 2)
      (prefetched : i.Prefetched cpu'.ledger ↔ i.Prefetched cpu.ledger)
      (status : cpu'.registers.status = cpu.registers.status)
  /-- The completion prefetch is recorded behind the operands' activities.  Before that, the flags
  are written. -/
  | four (cycles : cpu'.ledger.cycles = cpu.ledger.cycles + 4)
      (before : cpu.ledger.transactions = i.operandPattern)
      (after : cpu'.ledger.transactions = i.operandPattern ++ [.prefetch])
      (compared : Cpu) (source destination : UInt32) (unrecorded : compared.ledger = cpu.ledger)
      (status : compared.registers.status =
        cpu.registers.status.afterCompare i.width (i.cls.extend i.size source) destination)
      (fetched : cpu' = compared.fetchNext i.cls i.size i.destination)

/-- The account of an instruction after a number of its ticks, of which only the one behind those
of its operands has charged four cycles. -/
structure Tallied (i : Instruction) (k : Nat) (ledger : Ledger) : Prop where
  cycles : ledger.cycles = 2 * k + if Cycle.totalTicks i.operandPattern < k then 2 else 0
  prefetched : i.Prefetched ledger ↔ Cycle.totalTicks i.operandPattern < k
  transactions : ledger.transactions <+: i.schedule

variable {i : Instruction} {op : Opcode} {k : Nat} {cpu cpu' : Cpu} {r : Resolution}

theorem Turn.charged (h : i.Turn cpu cpu') : i.Charged cpu cpu' := by
  cases h with
  | waits moved cycles recorded operands current =>
    obtain ⟨cs, hcs, -⟩ := recorded
    have hafter := operands.length_le
    have hbefore : cpu.ledger.transactions.length ≤ i.operandPattern.length := by
      rw [hcs, List.length_append] at hafter
      omega
    exact .two cycles ⟨fun hlt => absurd hlt (Nat.not_lt.mpr hafter),
      fun hlt => absurd hlt (Nat.not_lt.mpr hbefore)⟩ moved.status
  | compares read source destination moved operand ledger operands result =>
    subst result
    refine .four ?_ operands ?_ (read.applyCompare i.cls i.size source destination) source
      destination ledger ?_ rfl
    · show read.ledger.cycles + 4 = _
      rw [ledger]
    · show read.ledger.transactions ++ [.prefetch] = _
      rw [ledger, operands]
    · show read.registers.status.afterCompare _ _ _ = _
      rw [moved.status]
      rfl
  | closes progress operand operands result =>
    subst result
    have hbefore : i.Prefetched cpu.ledger := by
      rw [Prefetched, operands, List.length_append, List.length_singleton]
      omega
    have hafter : i.Prefetched cpu.closeInstruction.ledger := by
      show _ < (cpu.ledger.transactions ++ [Cycle.idle]).length
      rw [List.length_append]
      exact Nat.lt_add_right _ hbefore
    exact .two rfl ⟨fun _ => hbefore, fun _ => hafter⟩ rfl

theorem Turn.current (h : i.Turn cpu cpu') (hr : cpu'.operand = some r) (hwait : r.wait = 1) :
    ∃ c, cpu'.ledger.transactions.getLast? = some c ∧ c.cycles = 4 := by
  cases h with
  | waits moved cycles recorded operands current => exact current r hr hwait
  | compares read source destination moved operand ledger operands result =>
    subst result
    cases operand.symm.trans hr
  | closes progress operand operands result =>
    subst result
    cases operand.symm.trans hr

/-- The difference between the two sides of the ledger is the rest of the activity under way. -/
theorem Underway.nominal (h : i.Underway k cpu) :
    (∃ r, cpu.operand = some r ∧ r.wait ≤ 1 ∧
        cpu.ledger.nominal = cpu.ledger.cycles + 2 * r.wait) ∨
      cpu.operand = none ∧ cpu.ledger.nominal = cpu.ledger.cycles := by
  cases h with
  | source r progress reads | destination value r progress reads =>
    exact .inl ⟨r, reads.operand, reads.sound.wait_le, reads.nominal⟩
  | tail progress operand closes transactions nominal => exact .inr ⟨operand, nominal⟩

theorem Underway.level (h : i.Underway k cpu)
    (hcurrent : ∀ r, cpu.operand = some r → r.wait = 1 →
      ∃ c, cpu.ledger.transactions.getLast? = some c ∧ c.cycles = 4) : cpu.Level := by
  have hfinished := h.isFinished
  rcases h.nominal with ⟨r, hr, hle, hnominal⟩ | ⟨hnone, hnominal⟩
  · refine ⟨by omega, ⟨fun htwo => ?_, ?_⟩, fun hdone => ?_⟩
    · have hwait : r.wait = 1 := by omega
      obtain ⟨c, hlast, hcycles⟩ := hcurrent r hr hwait
      have hticks := c.cycles_eq_ticks
      exact ⟨r, c, hr, hlast, hcycles, by omega⟩
    · rintro ⟨r', c, hr', -, hcycles, hwait⟩
      cases hr.symm.trans hr'
      have hticks := c.cycles_eq_ticks
      omega
    · rw [Cpu.isFinished, hdone] at hfinished
      cases hfinished
  · refine ⟨.inl hnominal, ⟨fun htwo => by omega, ?_⟩, fun _ => hnominal⟩
    rintro ⟨r', c, hr', -⟩
    cases hnone.symm.trans hr'

theorem Complete.level (h : i.Complete k cpu) : cpu.Level := by
  have hnominal := h.nominal
  refine ⟨.inl hnominal, ⟨fun htwo => by omega, ?_⟩, fun _ => hnominal⟩
  rintro ⟨r, c, hr, -⟩
  cases h.operand.symm.trans hr

theorem totalTicks_operandPattern_lt (i : Instruction) :
    Cycle.totalTicks i.operandPattern < i.ticks := by
  have hticks := i.totalTicks_schedule
  rw [ticks]
  omega

theorem tallied_of_operands {mode : Mode} {size : Size} {earlier : List Cycle}
    (hoperands : earlier ++ mode.pattern size <+: i.operandPattern)
    (h : cpu.Reads r mode size earlier) (hcycles : cpu.ledger.cycles = 2 * k) :
    i.Tallied k cpu.ledger := by
  have hlog : cpu.ledger.transactions <+: i.operandPattern :=
    (h.transactions ▸ List.prefix_append _ _ : cpu.ledger.transactions <+: _).trans hoperands
  have hlength := hlog.length_le
  have hle := le_of_reads h hcycles
  obtain ⟨later, hlater⟩ := hoperands
  have hticks := congrArg Cycle.totalTicks hlater
  rw [Cycle.totalTicks_append] at hticks
  -- an activity of the operands is under way or to come, so their ticks are not over
  have hk : ¬ Cycle.totalTicks i.operandPattern < k := by omega
  refine ⟨by rw [if_neg hk, hcycles, Nat.add_zero], iff_of_false (Nat.not_lt.mpr hlength) hk, ?_⟩
  exact hlog.trans (List.prefix_append _ _)

theorem tallied_of_prefetched (hlt : Cycle.totalTicks i.operandPattern < k)
    (hcycles : cpu.ledger.cycles = 2 * k + 2)
    (hlog : i.operandPattern ++ [.prefetch] <+: cpu.ledger.transactions)
    (hinitial : cpu.ledger.transactions <+: i.schedule) : i.Tallied k cpu.ledger := by
  refine ⟨by rw [if_pos hlt, hcycles], iff_of_true ?_ hlt, hinitial⟩
  have hlength := hlog.length_le
  rw [List.length_append, List.length_singleton] at hlength
  exact hlength

theorem Underway.tallied (hd : i.Decoded op) (h : i.Underway k cpu) : i.Tallied k cpu.ledger := by
  have hinitial := h.transactions_prefix hd
  cases h with
  | source r progress reads cycles =>
    refine tallied_of_operands ?_ reads cycles
    rw [operandPattern_eq hd]
    exact List.prefix_append _ _
  | destination value r progress reads cycles =>
    refine tallied_of_operands ?_ reads cycles
    rw [operandPattern_eq hd]
  | tail progress operand closes transactions nominal cycles =>
    have hnominal : Cycle.totalCycles cpu.ledger.transactions = cpu.ledger.cycles := nominal
    have hprefetch : Cycle.totalTicks [.prefetch] = 2 := rfl
    rw [transactions, Cycle.totalCycles_eq_totalTicks, Cycle.totalTicks_append, cycles] at hnominal
    exact tallied_of_prefetched (by omega) cycles (transactions ▸ List.prefix_rfl) hinitial

theorem Complete.tallied (h : i.Complete k cpu) : i.Tallied k cpu.ledger := by
  have htotal := h.totalTicks
  have hticks := totalTicks_schedule i
  refine tallied_of_prefetched (by omega) h.cycles ?_ (h.transactions ▸ List.prefix_rfl)
  rw [h.transactions]
  exact ⟨_, (List.append_cons _ _ _).symm⟩

end Instruction

namespace Processor

variable {β : Type} [Bus β] {t : Table} {p p' : Processor} {f : InFlight} {i : Instruction}
  {k : Nat} {bus bus' : β}

theorem Reachable.current (h : Reachable t p) :
    ∀ r, p.cpu.operand = some r → r.wait = 1 →
      ∃ c, p.cpu.ledger.transactions.getLast? = some c ∧ c.cycles = 4 := by
  induction h with
  | fresh =>
    intro r hr
    cases hr
  | tick h hp ih =>
    rename_i result
    obtain ⟨⟨result', q, bus₁⟩, hadvance, heq⟩ := exists_of_bind hp
    cases heq
    cases result' with
    | error b => rwa [eq_of_break hadvance]
    | ok done =>
      obtain ⟨i, hturned⟩ := turned_of_advance h hadvance
      exact fun r hr hwait => hturned.turn.current hr hwait
  | setPc a h ih =>
    intro r hr
    cases hr
  | withRegisters regs h ih => exact ih

theorem Reachable.level (h : Reachable t p)
    (hlive : p.isMidInstruction = true ∨ p.cpu.progress = .finished) : p.cpu.Level := by
  rcases hlive with hmid | hfinished
  · rcases h.consistent.control with hbetween | ⟨f, i, k, hflying⟩
    · rw [isMidInstruction, hbetween.current] at hmid
      cases hmid
    · exact hflying.underway.level h.current
  · obtain ⟨i, k, hcomplete⟩ := h.accounted.complete hfinished
    exact hcomplete.level

theorem Ticked.tallied {done : Option InFlight} (hd : i.Decoded f.opcode)
    (h : Ticked t f i k p done) : i.Tallied k p.cpu.ledger := by
  cases h with
  | underway h => exact h.underway.tallied hd
  | complete current h => exact h.tallied

theorem charged_of_tick (hp : Reachable t p) (h : p.tick bus = .ok (.ok (), p', bus')) :
    ∃ i, t.lookup (p.subject bus).2 = some i ∧ p'.cpu.Level ∧ i.Charged p.onset p'.cpu := by
  obtain ⟨done, hadvance⟩ := advance_of_tick h
  obtain ⟨i, hturned⟩ := turned_of_advance hp hadvance
  exact ⟨i, hturned.lookup, (hp.tick h).level hturned.next, hturned.turn.charged⟩

theorem tallied_of_disturbed (hp : Reachable t p) (hmid : p.isMidInstruction = false)
    (hi : t.lookup (Bus.readWord bus p.registers.pc).1 = some i) (changes : List (Change β))
    (hticks : changes.length + 1 ≤ i.ticks) :
    ∃ last bus', p.disturbed bus changes = .ok (.ok (), last, bus') ∧
      i.Tallied (changes.length + 1) last.cpu.ledger := by
  have htable : p.table = t := hp.consistent.table
  obtain ⟨first, bus₁, done, hadvance, -, hticked, -⟩ :=
    advance_of_between (hp.between hmid) bus (htable ▸ hi)
  obtain ⟨last, bus₂, done', hrun, hlast⟩ :=
    disturbed_of_ticked changes hticked hadvance (by omega)
  refine ⟨last, bus₂, hrun, ?_⟩
  rw [Nat.add_comm]
  exact hlast.tallied (Table.decoded_of_lookup hi)

/-- The ledger never drifts during an instruction: not in any state that can be reached, not in any
tick, and not along the ticks of an instruction. -/
theorem ledger_never_drifts (hp : Reachable t p) (bus : β) :
    (p.isMidInstruction = true ∨ p.cpu.progress = .finished → p.cpu.Level) ∧
    (∃ result p' bus', p.tick bus = .ok (result, p', bus') ∧
      match result with
      | .ok () =>
        ∃ i, t.lookup (p.subject bus).2 = some i ∧ p'.cpu.Level ∧ i.Charged p.onset p'.cpu
      | .error _ => p' = p) ∧
    ∀ i, p.isMidInstruction = false → t.lookup (Bus.readWord bus p.registers.pc).1 = some i →
      Cycle.totalTicks i.operandPattern < i.ticks ∧
      ∀ changes : List (Change β), changes.length + 1 ≤ i.ticks →
        ∃ last bus', p.disturbed bus changes = .ok (.ok (), last, bus') ∧
          i.Tallied (changes.length + 1) last.cpu.ledger := by
  refine ⟨hp.level, ?_, fun i hmid hi => ⟨i.totalTicks_operandPattern_lt, fun changes hticks => ?_⟩⟩
  · obtain ⟨result, p', bus', htick, -⟩ := hp.exists_tick bus
    refine ⟨result, p', bus', htick, ?_⟩
    cases result with
    | ok => exact charged_of_tick hp htick
    | error b =>
      obtain ⟨⟨result', q, bus₁⟩, hadvance, heq⟩ := exists_of_bind htick
      cases result' with
      | ok done => cases heq
      | error b' =>
        cases heq
        exact eq_of_break hadvance
  · exact tallied_of_disturbed hp hmid hi changes hticks

/-- CMP.W (A0),D0 is half through its read after a tick.  With its opcode overwritten and the
program counter sent elsewhere, it has recorded both its activities after three. -/
theorem ledger_never_drifts_halfway :
    ∃ p bus₁, (ofTable .standard).tick ((Ram.zeroed 4 (by decide)).setWord 0 0xB050) =
        .ok (.ok (), p, bus₁) ∧
      p.cpu.Halfway ∧ p.cpu.Level ∧
      ∃ last bus₂,
        (ofTable .standard).disturbed ((Ram.zeroed 4 (by decide)).setWord 0 0xB050)
            [fun (regs, ram) => ({ regs with pc := 8 }, ram),
              fun (regs, ram) => ({ regs with pc := 4 }, ram.setWord 0 0)] =
          .ok (.ok (), last, bus₂) ∧
        last.cpu.ledger.cycles = 8 ∧ last.cpu.ledger.transactions.length = 2 := by
  let i : Instruction := ⟨.cmp, .word, .indirect 0, .dataReg 0⟩
  have hi : Table.standard.lookup
      (Bus.readWord ((Ram.zeroed 4 (by decide)).setWord 0 0xB050)
        (ofTable .standard).registers.pc).1 = some i := by decide
  obtain ⟨p, bus₁, htick, hmid, hnominal⟩ : ∃ p bus₁,
      (ofTable .standard).tick ((Ram.zeroed 4 (by decide)).setWord 0 0xB050) =
        .ok (.ok (), p, bus₁) ∧ p.isMidInstruction = true ∧
      p.cpu.ledger.nominal = p.cpu.ledger.cycles + 2 :=
    ⟨_, _, rfl, by decide +kernel, by decide +kernel⟩
  have hlevel := (ledger_never_drifts (Reachable.fresh.tick htick) bus₁).1 (.inl hmid)
  obtain ⟨-, -, hrun⟩ := ledger_never_drifts (.fresh (t := .standard))
    ((Ram.zeroed 4 (by decide)).setWord 0 0xB050)
  obtain ⟨last, bus₂, hticks, htallied⟩ := (hrun i rfl hi).2
    [fun (regs, ram) => ({ regs with pc := 8 }, ram),
      fun (regs, ram) => ({ regs with pc := 4 }, ram.setWord 0 0)] (by decide)
  have hprefetched := htallied.prefetched.mpr (by decide)
  have hle := htallied.transactions.length_le
  refine ⟨p, bus₁, htick, hlevel.halfway.mp hnominal, hlevel, last, bus₂, hticks,
    htallied.cycles, ?_⟩
  exact Nat.le_antisymm hle hprefetched

end Processor

end Compare68k
