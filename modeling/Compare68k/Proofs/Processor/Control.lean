import Compare68k.Proofs.Operand.Pattern
import Compare68k.Proofs.Processor.Operation
/-!
# Control states

The current instruction, the progress marker, the operand being read and the table are kept in
different places and have to agree.  `Controlled` says how, and what keeps a tick from going wrong:
an operand being read names a register that exists and has room for its extension words, nothing is
written, and a complete instruction has its prefetch in a balanced ledger.  Main statement: a
processor that operations have driven in any way is controlled, and none of them met a fault.
-/

namespace Compare68k

/-- The markers at which an instruction waits for an operand.  The destinations of the other two
classes are registers, which are there at once. -/
def Progress.awaitsOperand : Progress → Bool
  | running _ .source => true
  | running .cmpi (.destination _) | running .cmpm (.destination _) => true
  | _ => false

structure Processor.Controlled (t : Table) (p : Processor) : Prop where
  current : p.current.isSome = p.cpu.progress.inFlight
  marker : ∀ f, p.current = some f →
    ∃ i stage, t.lookup f.opcode = some i ∧ p.cpu.progress = .running i.cls stage
  reading : p.cpu.operand.isSome = p.cpu.progress.awaitsOperand
  resting : p.current = none → p.cpu.operand = none
  fits : ∀ r, p.cpu.operand = some r → r.mode.wellFormed = true ∧ r.words.length ≤ 2
  recorded : ∀ c ∈ p.cpu.ledger.transactions, c.isWrite = false
  complete : p.cpu.progress = .finished →
    0 < p.cpu.ledger.count .prefetch ∧ p.cpu.ledger.cycles = p.cpu.ledger.nominal

namespace Instruction

variable {i : Instruction} {op : Opcode} {k : Nat} {cpu : Cpu}

theorem Decoded.cls_of_waits (h : i.Decoded op) (hwaits : i.destination.pattern i.width ≠ []) :
    i.cls = .cmpi ∨ i.cls = .cmpm := by
  cases hc : i.cls with
  | cmp =>
    rw [h.destination_of_cmp hc] at hwaits
    exact absurd rfl hwaits
  | cmpa =>
    rw [h.destination_of_cmpa hc] at hwaits
    exact absurd rfl hwaits
  | cmpi => exact .inl rfl
  | cmpm => exact .inr rfl

theorem isWrite_of_mem_schedule (h : i.Decoded op) {c : Cycle} (hc : c ∈ i.schedule) :
    c.isWrite = false := by
  rw [schedule, operandPattern_eq h] at hc
  simp only [List.mem_append, List.mem_cons] at hc
  rcases hc with (hc | hc) | rfl | hc
  · exact Mode.isWrite_of_mem_pattern hc
  · exact Mode.isWrite_of_mem_pattern hc
  · rfl
  · split at hc
    · rw [List.mem_singleton.mp hc]
      rfl
    · cases hc

theorem Underway.transactions_prefix (hd : i.Decoded op) (h : i.Underway k cpu) :
    cpu.ledger.transactions <+: i.schedule := by
  cases h with
  | source r progress reads =>
    have hlog := reads.transactions
    rw [List.nil_append] at hlog
    rw [schedule, operandPattern_eq hd, ← hlog]
    simp only [List.append_assoc]
    exact List.prefix_append _ _
  | destination value r progress reads =>
    rw [schedule, operandPattern_eq hd, ← reads.transactions, List.append_assoc]
    exact List.prefix_append _ _
  | tail progress operand closes transactions =>
    rw [transactions]
    exact ⟨_, (List.append_cons _ _ _).symm⟩

theorem words_le_of_reads {r : Resolution} {mode : Mode} {size : Size} {earlier : List Cycle}
    (h : cpu.Reads r mode size earlier) : r.words.length ≤ 2 := by
  have hle := mode.extensionWords_le size
  have hwords := h.words
  rw [mode.count_prefetch_pattern] at hwords
  omega

theorem Underway.marker (h : i.Underway k cpu) : ∃ stage, cpu.progress = .running i.cls stage := by
  cases h with
  | source r progress | destination value r progress | tail progress => exact ⟨_, progress⟩

theorem Underway.reading (hd : i.Decoded op) (h : i.Underway k cpu) :
    cpu.operand.isSome = cpu.progress.awaitsOperand := by
  cases h with
  | source r progress reads =>
    rw [reads.operand, progress]
    rfl
  | destination value r progress reads cycles waits =>
    rw [reads.operand, progress]
    rcases hd.cls_of_waits waits with hc | hc <;>
    · rw [hc]
      rfl
  | tail progress operand =>
    rw [operand, progress]
    rfl

theorem Underway.fits (h : i.Underway k cpu) {r : Resolution} (hr : cpu.operand = some r) :
    r.mode.wellFormed = true ∧ r.words.length ≤ 2 := by
  cases h with
  | source r' progress reads | destination value r' progress reads =>
    cases reads.operand.symm.trans hr
    exact ⟨reads.sound.wellFormed, words_le_of_reads reads⟩
  | tail progress operand =>
    cases operand.symm.trans hr

end Instruction

namespace Processor

variable {β : Type} [Bus β] {t : Table} {p p' : Processor} {f : InFlight} {i : Instruction}
  {k : Nat} {bus bus' : β}

/-! ## The ledger between instructions -/

/-- An instruction that has just been completed leaves its whole account behind, and one that was
given up a part of it. -/
structure Accounted (p : Processor) : Prop where
  recorded : ∀ c ∈ p.cpu.ledger.transactions, c.isWrite = false
  complete : p.cpu.progress = .finished → ∃ (i : Instruction) (k : Nat), i.Complete k p.cpu

theorem Flying.accounted (h : p.Flying t f i k) : p.Accounted where
  recorded c hc :=
    Instruction.isWrite_of_mem_schedule h.decoded
      ((h.underway.transactions_prefix h.decoded).mem hc)
  complete hfinished := by
    have hunfinished := h.underway.isFinished
    rw [Cpu.isFinished, hfinished] at hunfinished
    cases hunfinished

theorem Ticked.accounted {done : Option InFlight} (hd : i.Decoded f.opcode)
    (h : Ticked t f i k p done) : p.Accounted := by
  cases h with
  | underway h => exact h.accounted
  | complete current h =>
    refine ⟨fun c hc => ?_, fun _ => ⟨i, k, h⟩⟩
    rw [h.transactions] at hc
    exact Instruction.isWrite_of_mem_schedule hd hc

theorem Accounted.advance {result : Except Break (Option InFlight)} (h : p.Accounted)
    (hp : Consistent t p) (hadvance : p.advance bus = .ok (result, p', bus')) : p'.Accounted := by
  obtain ⟨-, hbetween | ⟨f, i, k, hflying⟩⟩ := hp
  · cases hlookup : p.table.lookup (Bus.readWord bus p.registers.pc).1 with
    | none =>
      rw [advance_of_illegal hbetween.current bus hlookup] at hadvance
      cases hadvance
      exact h
    | some i =>
      obtain ⟨q, bus₁, done, hadvance', -, hticked, -⟩ := advance_of_between hbetween bus hlookup
      rw [hadvance] at hadvance'
      cases hadvance'
      exact hticked.accounted (Table.decoded_of_lookup hlookup)
  · obtain ⟨q, bus₁, done, hadvance', -, hticked, -⟩ := advance_of_flying hflying bus
    rw [hadvance] at hadvance'
    cases hadvance'
    exact hticked.accounted hflying.decoded

theorem Accounted.withRegisters (h : p.Accounted) (regs : Registers) :
    (p.withRegisters regs).Accounted := by
  refine ⟨h.recorded, fun hfinished => ?_⟩
  obtain ⟨i, k, hcomplete⟩ := h.complete hfinished
  exact ⟨i, k, hcomplete.progress, hcomplete.operand, hcomplete.transactions, hcomplete.nominal,
    hcomplete.cycles⟩

theorem Reachable.accounted (h : Reachable t p) : p.Accounted := by
  induction h with
  | fresh =>
    refine ⟨fun c hc => ?_, fun hfinished => ?_⟩
    · cases hc
    · cases hfinished
  | tick h hp ih =>
    obtain ⟨⟨result, q, bus₁⟩, hadvance, hresult⟩ := exists_of_bind hp
    cases hresult
    exact ih.advance h.consistent hadvance
  | setPc a h ih =>
    refine ⟨ih.recorded, fun hfinished => ?_⟩
    cases hfinished
  | withRegisters regs h ih => exact ih.withRegisters regs

/-! ## Every state -/

theorem Accounted.balanced (h : p.Accounted) (hfinished : p.cpu.progress = .finished) :
    0 < p.cpu.ledger.count .prefetch ∧ p.cpu.ledger.cycles = p.cpu.ledger.nominal := by
  obtain ⟨i, k, hi⟩ := h.complete hfinished
  refine ⟨?_, hi.nominal.symm⟩
  rw [Ledger.count, hi.transactions, Instruction.schedule, List.count_pos_iff]
  exact List.mem_append_right _ List.mem_cons_self

theorem Between.controlled (h : p.Between) (haccounted : p.Accounted) : Controlled t p := by
  refine ⟨?_, ?_, ?_, fun _ => h.operand, ?_, haccounted.recorded, haccounted.balanced⟩
  · rw [h.current, h.progress]
    rfl
  · intro f hf
    cases h.current.symm.trans hf
  · rw [h.operand]
    have hprogress := h.progress
    cases hp : p.cpu.progress with
    | running c stage =>
      rw [hp] at hprogress
      cases hprogress
    | idle | finished => rfl
  · intro r hr
    cases h.operand.symm.trans hr

theorem Flying.controlled (h : p.Flying t f i k) (haccounted : p.Accounted) : Controlled t p := by
  obtain ⟨stage, hstage⟩ := h.underway.marker
  refine ⟨?_, ?_, h.underway.reading h.decoded, ?_, fun r hr => h.underway.fits hr,
    haccounted.recorded, haccounted.balanced⟩
  · rw [h.current, hstage]
    rfl
  · intro g hg
    cases h.current.symm.trans hg
    exact ⟨i, stage, h.lookup, hstage⟩
  · intro hnone
    cases h.current.symm.trans hnone

theorem Reachable.controlled (h : Reachable t p) : Controlled t p := by
  rcases h.consistent.control with hbetween | ⟨f, i, k, hflying⟩
  · exact hbetween.controlled h.accounted
  · exact hflying.controlled h.accounted

/-- Whatever is done with a processor and whatever the bus answers, no fault is met and the
processor stays controlled. -/
theorem performAll_controlled (classes : List Class) (ops : List Operation) (bus : β) :
    ∃ outcomes p bus',
      (ofTable (.ofClasses classes)).performAll bus ops = .ok (outcomes, p, bus') ∧
        Controlled (.ofClasses classes) p := by
  obtain ⟨outcomes, p, bus', hall, hreach⟩ :=
    (Reachable.fresh (t := .ofClasses classes)).performAll bus ops
  exact ⟨outcomes, p, bus', hall, hreach.controlled⟩

end Processor

end Compare68k
