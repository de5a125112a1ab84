import Compare68k.Proofs.Operand.Pattern
import Compare68k.Proofs.Processor.Step
/-!
# Ticks and steps

A step is a run of ticks up to the first that completes the instruction or fails.  It may take over
at any tick from whoever ticked before: the instruction ends in the same state, and the report tells
the whole of it but for the ticks that came before.  Main statement: that run of ticks and the step
are the same, from every reachable state and on every bus, so also on one that keeps account of its
accesses, and thirteen ticks are enough.
-/

namespace Compare68k

namespace Instruction

variable {i : Instruction} {op : Opcode}

/-- No entry of the timing table is above that of a long constant and a long absolute address. -/
theorem tableCycles_le (i : Instruction) : i.tableCycles ≤ 28 := by
  have hsource := i.source.cycles_le i.size
  have hdestination := i.destination.cycles_le i.size
  unfold tableCycles
  cases i.cls with
  | cmpa =>
    dsimp only
    omega
  | cmp | cmpm =>
    dsimp only
    split <;> omega
  | cmpi =>
    dsimp only
    split <;> split <;> omega

theorem ticks_le (h : i.Decoded op) : i.ticks ≤ 13 := by
  have htable := i.tableCycles_le
  rw [← totalCycles_schedule h, Cycle.totalCycles_eq_totalTicks] at htable
  rw [ticks]
  omega

end Instruction

namespace Processor

variable {β : Type} [Bus β] {t : Table} {p p' q : Processor} {f : InFlight} {i : Instruction}
  {k : Nat} {bus bus' : β}

def ticks (p : Processor) (bus : β) : Nat → Except Fault (Except Break Unit × Processor × β)
  | 0 => .ok (.ok (), p, bus)
  | n + 1 => do
    let (result, p, bus) ← p.tick bus
    match result with
    | .error b => return (.error b, p, bus)
    | .ok () => p.ticks bus n

def subject (p : Processor) (bus : β) : Address × Opcode :=
  match p.current with
  | some f => (f.address, f.opcode)
  | none => (p.registers.pc, (Bus.readWord bus p.registers.pc).1)

theorem ticks_succ_of_advance {done : Option InFlight} (n : Nat)
    (h : p.advance bus = .ok (.ok done, p', bus')) : p.ticks bus (n + 1) = p'.ticks bus' n := by
  rw [ticks, tick, h]
  rfl

/-- Before the next tick, an instruction of a table has had a number of them. -/
structure Taking (t : Table) (p : Processor) (bus : β) (f : InFlight) (i : Instruction) (k : Nat)
    (p' : Processor) (bus' : β) (done : Option InFlight) : Prop where
  decoded : i.Decoded f.opcode
  subject : p.subject bus = (f.address, f.opcode)
  lookup : t.lookup f.opcode = some i
  advance : p.advance bus = .ok (.ok done, p', bus')
  table : p'.table = p.table
  ticked : Ticked t f i (k + 1) p' done

theorem Flying.taking (h : p.Flying t f i k) (bus : β) :
    ∃ p' bus' done, Taking t p bus f i k p' bus' done := by
  obtain ⟨p', bus', done, hadvance, htable, hticked, -⟩ := advance_of_flying h bus
  refine ⟨p', bus', done, h.decoded, ?_, h.lookup, hadvance, htable, hticked⟩
  rw [subject, h.current]

theorem Between.taking (h : p.Between) (bus : β)
    (hlookup : p.table.lookup (Bus.readWord bus p.registers.pc).1 = some i) :
    ∃ f p' bus' done, Taking p.table p bus f i 0 p' bus' done ∧
      i.remaining p'.cpu bus' =
        i.fromSource (.ofMode i.source i.size) (p.registers.skip 1)
          (Bus.readWord bus p.registers.pc).2 := by
  obtain ⟨p', bus', done, hadvance, htable, hticked, hremaining⟩ :=
    advance_of_between h bus hlookup
  refine ⟨_, p', bus', done, ⟨Table.decoded_of_lookup hlookup, ?_, hlookup, hadvance, htable,
    hticked⟩, hremaining⟩
  rw [subject, h.current]

theorem Ticked.le {done : Option InFlight} (hd : i.Decoded f.opcode) (h : Ticked t f i k p done) :
    k ≤ i.ticks ∧ (k = i.ticks ↔ p.isMidInstruction = false) := by
  unfold Instruction.ticks isMidInstruction
  cases h with
  | underway h =>
    have hlt := h.underway.lt hd
    rw [h.current, Option.isSome_some]
    refine ⟨by omega, fun heq => by omega, fun hfalse => ?_⟩
    cases hfalse
  | complete current h =>
    have htotal := h.totalTicks
    rw [current, Option.isSome_none]
    exact ⟨by omega, fun _ => rfl, fun _ => by omega⟩

theorem ticks_of_taking {done : Option InFlight} (n : Nat)
    (h : Taking t p bus f i k p' bus' done) (hn : k + (n + 1) ≤ i.ticks) :
    ∃ q bus₁ done', p.ticks bus (n + 1) = .ok (.ok (), q, bus₁) ∧ q.table = p.table ∧
      Ticked t f i (k + (n + 1)) q done' ∧ i.remaining q.cpu bus₁ = i.remaining p'.cpu bus' := by
  induction n generalizing p bus k p' bus' done with
  | zero =>
    refine ⟨p', bus', done, ?_, h.table, h.ticked, rfl⟩
    rw [ticks_succ_of_advance 0 h.advance, ticks]
  | succ n ih =>
    have hflying := h.ticked.flying_of_lt (by omega)
    obtain ⟨next, bus₁, done', hadvance, htable, hticked', hremaining⟩ :=
      advance_of_flying hflying bus'
    have hnext : Taking t p' bus' f i (k + 1) next bus₁ done' := by
      refine ⟨h.decoded, ?_, h.lookup, hadvance, htable, hticked'⟩
      rw [subject, hflying.current]
    obtain ⟨q, bus₂, done'', hticks, htable', hlast, hremaining'⟩ := ih hnext (by omega)
    refine ⟨q, bus₂, done'', ?_, htable'.trans h.table, ?_, hremaining'.trans hremaining⟩
    · rw [ticks_succ_of_advance _ h.advance, hticks]
    · rw [show k + (n + 1 + 1) = k + 1 + (n + 1) by omega]
      exact hlast

/-- A number of ticks complete an instruction, and so does a step, before them or after some of
them.  The report is on the whole instruction, but for the ticks that came before the step. -/
structure Completes (t : Table) (p : Processor) (bus : β) (n : Nat) (report : Report)
    (p' : Processor) (bus' : β) : Prop where
  ticks : p.ticks bus n = .ok (.ok (), p', bus')
  between : p'.isMidInstruction = false
  step : p.step bus = .ok (.ok report, p', bus')
  report_ticks : report.ticks = n
  subject : (report.address, report.opcode) = p.subject bus
  whole : ∃ i, t.lookup report.opcode = some i ∧ report.transactions = i.schedule ∧
    report.cycles = Cycle.totalCycles i.schedule
  resumed : ∀ k < n, ∃ q bus₁, p.ticks bus k = .ok (.ok (), q, bus₁) ∧
    q.step bus₁ = .ok (.ok { report with ticks := n - k }, p', bus')

theorem ticks_to_end {done : Option InFlight} (h : Taking t p bus f i k p' bus' done)
    {regs : Registers} {last : β} (hremaining : i.remaining p'.cpu bus' = .ok (regs, last)) :
    p.ticks bus (i.ticks - k) = .ok (.ok (), p.completed i regs, last) := by
  have hlt := (h.ticked.le h.decoded).1
  obtain ⟨q, bus₁, done', hticks, htable, hlast, hremaining'⟩ :=
    ticks_of_taking (i.ticks - k - 1) h (by omega)
  obtain ⟨current, hcomplete⟩ := hlast.complete_of_eq (by omega)
  rw [hcomplete.remaining, hremaining] at hremaining'
  obtain ⟨rfl, rfl⟩ := Prod.mk.inj (Except.ok.inj hremaining')
  have hq := eq_completed htable current hcomplete
  rw [show i.ticks - k = i.ticks - k - 1 + 1 by omega, hticks, hq]
  rfl

theorem step_after_ticks {done : Option InFlight} (h : Taking t p bus f i k p' bus' done)
    {regs : Registers} {last : β} (hremaining : i.remaining p'.cpu bus' = .ok (regs, last))
    (n : Nat) (hn : k + (n + 1) < i.ticks) :
    ∃ q bus₁, p.ticks bus (n + 1) = .ok (.ok (), q, bus₁) ∧ q.isMidInstruction = true ∧
      q.step bus₁ =
        .ok (.ok (i.report f.address f.opcode (i.ticks - k - (n + 1))), p.completed i regs,
          last) := by
  obtain ⟨q, bus₁, done', hticks, htable, hlast, hremaining'⟩ := ticks_of_taking n h (by omega)
  have hflying := hlast.flying_of_lt hn
  obtain ⟨regs', last', hrest, hstep⟩ := stepFrom_of_flying hflying 0 bus₁
  rw [hremaining', hremaining] at hrest
  obtain ⟨rfl, rfl⟩ := Prod.mk.inj (Except.ok.inj hrest)
  refine ⟨q, bus₁, hticks, ?_, ?_⟩
  · rw [isMidInstruction, hflying.current]
    rfl
  · rw [step, hstep, completed, completed, htable, Instruction.ticks]
    congr 4
    omega

theorem completes_of_taking {done : Option InFlight} (h : Taking t p bus f i k p' bus' done) :
    ∃ n report last bus₁, 0 < n ∧ n ≤ 13 ∧
      (∀ j, 0 < j → j < n →
        ∃ q bus₂, p.ticks bus j = .ok (.ok (), q, bus₂) ∧ q.isMidInstruction = true) ∧
      Completes t p bus n report last bus₁ := by
  obtain ⟨regs, last, hremaining, hstep⟩ := stepFrom_of_ticked h.ticked h.table h.advance 0
  have hlt := (h.ticked.le h.decoded).1
  have hle := Instruction.ticks_le h.decoded
  have hstep' : p.step bus =
      .ok (.ok (i.report f.address f.opcode (i.ticks - k)), p.completed i regs, last) := by
    rw [step, hstep, Instruction.ticks]
    congr 4
    omega
  refine ⟨i.ticks - k, _, p.completed i regs, last, by omega, by omega, ?_,
    ticks_to_end h hremaining, rfl, hstep', rfl, h.subject.symm,
    ⟨i, h.lookup, rfl, rfl⟩, ?_⟩
  · intro j hpos hj
    obtain ⟨n, rfl⟩ := Nat.exists_eq_succ_of_ne_zero (Nat.ne_of_gt hpos)
    obtain ⟨q, bus₁, hticks, hmid, -⟩ := step_after_ticks h hremaining n (by omega)
    exact ⟨q, bus₁, hticks, hmid⟩
  · intro j hj
    cases j with
    | zero => exact ⟨p, bus, rfl, hstep'⟩
    | succ n =>
      obtain ⟨q, bus₁, hticks, -, hrest⟩ := step_after_ticks h hremaining n (by omega)
      exact ⟨q, bus₁, hticks, hrest⟩

/-- Ticks up to the first that fails or completes an instruction are one step. -/
theorem step_eq_ticks (hp : Reachable t p) (bus : β) :
    ∃ n p' bus', 0 < n ∧ n ≤ 13 ∧
      (∀ k, 0 < k → k < n →
        ∃ q bus₁, p.ticks bus k = .ok (.ok (), q, bus₁) ∧ q.isMidInstruction = true) ∧
      ((∃ b, p.ticks bus n = .ok (.error b, p', bus') ∧ p.step bus = .ok (.error b, p', bus')) ∨
        ∃ report, Completes t p bus n report p' bus') := by
  obtain ⟨htable, hbetween | ⟨f, i, k, hflying⟩⟩ := hp.consistent
  · cases hlookup : p.table.lookup (Bus.readWord bus p.registers.pc).1 with
    | none =>
      have hadvance := advance_of_illegal hbetween.current bus hlookup
      refine ⟨1, _, _, Nat.one_pos, by omega, fun k hpos hk => by omega, .inl ⟨_, ?_,
        step_of_illegal hbetween.current bus hlookup⟩⟩
      rw [ticks, tick, hadvance]
      rfl
    | some i =>
      obtain ⟨f, p₁, bus₁, done, htaking, -⟩ := hbetween.taking bus hlookup
      obtain ⟨n, report, last, bus₂, hpos, hle, hmid, hcompletes⟩ := completes_of_taking htaking
      exact ⟨n, last, bus₂, hpos, hle, hmid, .inr ⟨report, htable ▸ hcompletes⟩⟩
  · obtain ⟨p₁, bus₁, done, htaking⟩ := hflying.taking bus
    obtain ⟨n, report, last, bus₂, hpos, hle, hmid, hcompletes⟩ := completes_of_taking htaking
    exact ⟨n, last, bus₂, hpos, hle, hmid, .inr ⟨report, hcompletes⟩⟩

/-- CMPI.L #0,($0).L takes all thirteen. -/
theorem step_eq_ticks_longest :
    ∃ report p' bus', Completes .standard (ofTable .standard)
      ((Ram.zeroed 4 (by decide)).setWord 0 0x0CB9) 13 report p' bus' := by
  have hmid : ∀ k < 13,
      (match (ofTable .standard).ticks ((Ram.zeroed 4 (by decide)).setWord 0 0x0CB9) (k + 1) with
        | .ok (.ok (), q, _) => some q.isMidInstruction
        | _ => none) = some (decide (k + 1 < 13)) := by
    decide +kernel
  obtain ⟨n, p', bus', hpos, hle, -, hstep⟩ :=
    step_eq_ticks .fresh ((Ram.zeroed 4 (by decide)).setWord 0 0x0CB9)
  have hlast := hmid (n - 1) (by omega)
  rw [Nat.sub_add_cancel hpos] at hlast
  rcases hstep with ⟨b, hticks, -⟩ | ⟨report, hcompletes⟩
  · rw [hticks] at hlast
    cases hlast
  · rw [hcompletes.ticks] at hlast
    have hlast' : p'.isMidInstruction = decide (n < 13) := Option.some.inj hlast
    rw [hcompletes.between, eq_comm, decide_eq_false_iff_not] at hlast'
    obtain rfl : n = 13 := by omega
    exact ⟨report, p', bus', hcompletes⟩

end Processor

end Compare68k
