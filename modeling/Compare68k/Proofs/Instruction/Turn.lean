import Compare68k.Proofs.Instruction.Course
import Compare68k.Proofs.Operand.Delivery
import Compare68k.Proofs.Operand.Movement
/-!
# What one tick does

A tick of an instruction waits for an operand, or compares the operands and fetches the next opcode,
or closes the instruction; `Turn` says for each what becomes of the registers and the ledger.  Main
statement: every tick of an instruction that is about to begin or underway is one of the three.
What the ticks have moved the address registers by can be read off the state, as
`Instruction.shift`.
-/

namespace Compare68k

namespace Instruction

def displacement (i : Instruction) (source destination : Bool) (n : Fin 8) : UInt32 :=
  (if source then i.source.stride i.size n else 0) +
    (if destination then i.destination.stride i.width n else 0)

def shift (i : Instruction) (cpu : Cpu) (n : Fin 8) : UInt32 :=
  match cpu.progress, cpu.operand with
  | .idle, _ => 0
  | .running _ .source, some r => r.shift n
  | .running _ (.destination _), some r => i.source.stride i.size n + r.shift n
  | _, _ => i.source.stride i.size n + i.destination.stride i.width n

/-- The completion prefetch of an instruction is in the ledger: all the activities of its operands
are, and one more. -/
def Prefetched (i : Instruction) (ledger : Ledger) : Prop :=
  i.operandPattern.length < ledger.transactions.length

instance (i : Instruction) (ledger : Ledger) : Decidable (i.Prefetched ledger) :=
  inferInstanceAs (Decidable (_ < _))

/-- What a tick makes of an instruction. -/
inductive Turn (i : Instruction) (cpu cpu' : Cpu) : Prop where
  /-- An operand is being read. -/
  | waits (moved : cpu.registers.Moved (fun n => i.shift cpu' n - i.shift cpu n) cpu'.registers)
      (cycles : cpu'.ledger.cycles = cpu.ledger.cycles + 2)
      (recorded : ∃ cs, cpu'.ledger.transactions = cpu.ledger.transactions ++ cs ∧ cs.length ≤ 1)
      (operands : cpu'.ledger.transactions <+: i.operandPattern)
      (current : ∀ r, cpu'.operand = some r → r.wait = 1 →
        ∃ c, cpu'.ledger.transactions.getLast? = some c ∧ c.cycles = 4)
  /-- Both operands are there.  The flags are set before the prefetch is recorded. -/
  | compares (read : Cpu) (source destination : UInt32)
      (moved : cpu.registers.Moved (fun n => i.displacement true true n - i.shift cpu n)
        read.registers)
      (operand : read.operand = none) (ledger : read.ledger = cpu.ledger)
      (operands : cpu.ledger.transactions = i.operandPattern)
      (result : cpu' = (read.applyCompare i.cls i.size source destination).fetchNext i.cls i.size
        i.destination)
  /-- The closing internal cycle has run. -/
  | closes (progress : cpu.progress = .running i.cls .tail) (operand : cpu.operand = none)
      (operands : cpu.ledger.transactions = i.operandPattern ++ [.prefetch])
      (result : cpu' = cpu.closeInstruction)

variable {β : Type} [Bus β] {i : Instruction} {op : Opcode} {k : Nat} {cpu cpu' begun : Cpu}
  {r : Resolution} {bus bus' : β}

theorem Turn.of_begun (h : i.Turn begun cpu') (hledger : begun.ledger = cpu.ledger)
    (hprogress : begun.progress ≠ .running i.cls .tail)
    (hmoved : cpu.registers.Moved (fun n => i.shift begun n - i.shift cpu n) begun.registers) :
    i.Turn cpu cpu' := by
  cases h with
  | waits moved cycles recorded operands current =>
    rw [hledger] at cycles recorded
    exact .waits (hmoved.trans moved) cycles recorded operands current
  | compares read source destination moved operand ledger operands result =>
    rw [hledger] at ledger operands
    exact .compares read source destination (hmoved.trans moved) operand ledger operands result
  | closes progress => exact absurd progress hprogress

/-! ## The stages of a tick -/

/-- A poll that brings no operand is a tick of waiting. -/
theorem turn_of_waiting {mode : Mode} {size : Size} {earlier : List Cycle} {next : Cpu}
    {r' : Resolution} (h : cpu.Reads r mode size earlier) (hp : cpu.Polled r bus next r' bus')
    (hpoll : cpu.poll bus = .ok (none, next, bus'))
    (hshift : ∀ n, i.shift next.wait n - i.shift cpu n = r'.shift n - r.shift n)
    (hoperands : earlier ++ mode.pattern size <+: i.operandPattern) : i.Turn cpu next.wait := by
  obtain ⟨_, hw⟩ := Cpu.waited_of_poll h.operand h.sound hpoll
  cases hw.operand.symm.trans hp.operand
  have hlog : next.ledger.transactions <+: earlier ++ mode.pattern size := by
    rw [← h.transactions, ← hp.transactions]
    exact List.prefix_append _ _
  refine .waits (hw.moved.congr fun n => (hshift n).symm) (congrArg (· + 2) hp.cycles) hw.recorded
    (hlog.trans hoperands) fun r hr hone => ?_
  cases hw.operand.symm.trans hr
  exact hw.current hone

theorem turn_of_tickDestination (hd : i.Decoded op) {source : UInt32}
    (hprogress : cpu.progress = .running i.cls (.destination source))
    (h : cpu.Reads r i.destination i.width (i.source.pattern i.size))
    (ht : i.cls.tickDestination op i.size source cpu bus = .ok (cpu', bus')) : i.Turn cpu cpu' := by
  have hshift : ∀ n, i.shift cpu n = i.source.stride i.size n + r.shift n := by
    intro n
    rw [shift, hprogress, h.operand]
  obtain ⟨⟨value, next, bus₁⟩, hpoll, ht⟩ := exists_of_bind ht
  rcases Cpu.poll_of_sound h.operand h.sound bus with
    ⟨next', r', bus₂, hpoll', hp⟩ | ⟨v, regs, hpoll', hwait, hpending, -⟩
  · cases hpoll.symm.trans hpoll'
    cases ht
    have hprogress' : next.wait.progress = .running i.cls (.destination source) :=
      hp.progress.trans hprogress
    have hoperand' : next.wait.operand = some r' := hp.operand
    refine turn_of_waiting h hp hpoll (fun n => ?_) ?_
    · rw [hshift, shift, hprogress', hoperand']
      grind
    · rw [operandPattern_eq hd]
  · cases hpoll.symm.trans hpoll'
    obtain ⟨compared, hprefetch, ht⟩ := exists_of_bind ht
    cases ht
    rw [Class.tickPrefetch, hd.destination] at hprefetch
    cases hprefetch
    obtain ⟨_, heq, hmoved⟩ := Cpu.moved_of_poll h.operand hpoll
    cases heq
    have hlog := h.transactions
    rw [hpending, List.append_nil, ← operandPattern_eq hd] at hlog
    refine .compares { cpu with registers := regs, operand := none } source v
      (hmoved.congr fun n => ?_) rfl rfl hlog rfl
    rw [hshift, displacement, if_pos rfl, if_pos rfl, h.mode_eq, h.size_eq]
    grind

theorem turn_of_tickSource (hd : i.Decoded op) (hprogress : cpu.progress = .running i.cls .source)
    (h : cpu.Reads r i.source i.size [])
    (ht : i.cls.tickSource op i.size cpu bus = .ok (cpu', bus')) : i.Turn cpu cpu' := by
  have hshift : ∀ n, i.shift cpu n = r.shift n := by
    intro n
    rw [shift, hprogress, h.operand]
  obtain ⟨⟨value, next, bus₁⟩, hpoll, ht⟩ := exists_of_bind ht
  rcases Cpu.poll_of_sound h.operand h.sound bus with
    ⟨next', r', bus₂, hpoll', hp⟩ | ⟨v, regs, hpoll', hwait, hpending, -⟩
  · cases hpoll.symm.trans hpoll'
    cases ht
    have hprogress' : next.wait.progress = .running i.cls .source := hp.progress.trans hprogress
    have hoperand' : next.wait.operand = some r' := hp.operand
    refine turn_of_waiting h hp hpoll (fun n => ?_) ?_
    · rw [hshift, shift, hprogress', hoperand']
    · rw [operandPattern_eq hd, List.nil_append]
      exact List.prefix_append _ _
  · cases hpoll.symm.trans hpoll'
    -- the source is there, and the rest of the tick is the first of the destination
    obtain ⟨_, heq, hmoved⟩ := Cpu.moved_of_poll h.operand hpoll
    cases heq
    rw [hd.destination] at ht
    let begun : Cpu :=
      { cpu with
        registers := regs
        progress := .running i.cls (.destination v)
        operand := some (.ofMode i.destination i.width) }
    have htransactions := h.transactions
    rw [hpending, List.append_nil, List.nil_append] at htransactions
    have hnominal := h.nominal
    rw [hwait] at hnominal
    have hreads : begun.Reads (.ofMode i.destination i.width) i.destination i.width
        (i.source.pattern i.size) :=
      reads_ofMode hd.destination_wellFormed i.width rfl htransactions hnominal
    refine (turn_of_tickDestination hd rfl hreads ht).of_begun rfl (fun hprogress' => ?_)
      (hmoved.congr fun n => ?_)
    · cases hprogress'
    · have hbegun : i.shift begun n = i.source.stride i.size n := by
        show i.source.stride i.size n + (Resolution.ofMode i.destination i.width).shift n = _
        rw [Resolution.shift_ofMode, UInt32.add_zero]
      rw [hbegun, hshift, h.mode_eq, h.size_eq]

/-! ## A whole tick -/

theorem turn_of_idle (hd : i.Decoded op) (hprogress : cpu.progress = .idle)
    (hoperand : cpu.operand = none) (hledger : cpu.ledger = .empty)
    (ht : i.cls.tick op cpu bus = .ok (cpu', bus')) : i.Turn cpu cpu' := by
  let begun : Cpu :=
    { cpu with
      progress := .running i.cls .source
      operand := some (.ofMode i.source i.size) }
  have hreads : begun.Reads (.ofMode i.source i.size) i.source i.size [] := by
    refine reads_ofMode hd.source_wellFormed i.size rfl (congrArg Ledger.transactions hledger) ?_
    show cpu.ledger.nominal = cpu.ledger.cycles
    rw [hledger]
    rfl
  rw [Class.tick, hd.size] at ht
  dsimp only [bind, Except.bind] at ht
  rw [hprogress, hd.source] at ht
  dsimp only at ht
  rw [Cpu.beginOperand, hoperand] at ht
  have hbefore : ∀ n, i.shift cpu n = 0 := by
    intro n
    rw [shift, hprogress]
  have hmoved : cpu.registers.Moved (fun n => i.shift cpu n - i.shift cpu n) begun.registers :=
    .of_eq rfl rfl rfl
  refine (turn_of_tickSource hd rfl hreads ht).of_begun rfl (fun hprogress' => ?_)
    (hmoved.congr fun n => ?_)
  · cases hprogress'
  · have hbegun : i.shift begun n = 0 := Resolution.shift_ofMode i.source i.size n
    rw [hbegun, hbefore]

theorem Underway.turn (hd : i.Decoded op) (h : i.Underway k cpu)
    (ht : i.cls.tick op cpu bus = .ok (cpu', bus')) : i.Turn cpu cpu' := by
  rw [Class.tick, hd.size] at ht
  dsimp only [bind, Except.bind] at ht
  cases h with
  | source r progress reads =>
    rw [progress] at ht
    dsimp only at ht
    rw [if_pos rfl] at ht
    exact turn_of_tickSource hd progress reads ht
  | destination value r progress reads =>
    rw [progress] at ht
    dsimp only at ht
    rw [if_pos rfl] at ht
    exact turn_of_tickDestination hd progress reads ht
  | tail progress operand closes transactions =>
    rw [progress] at ht
    dsimp only at ht
    rw [if_pos rfl] at ht
    cases ht
    exact .closes progress operand transactions rfl

end Instruction

/-! ## Registers that are compared with -/

namespace Class

/-- The register in an opcode that the instruction compares with, for the classes that have one. -/
def register? (c : Class) (op : Opcode) : Option Register :=
  match c with
  | cmp => some (.data (Opcode.upperRegister op))
  | cmpa => some (.address (Opcode.upperRegister op))
  | cmpi | cmpm => none

variable {β : Type} [Bus β] {c : Class} {op : Opcode} {register : Register} {cpu : Cpu}

theorem poll_of_begun {m : Mode} {size : Size} {value : UInt32}
    (hmode : ∀ n, m ≠ .indirect n ∧ m ≠ .postInc n) (hpattern : m.pattern size = [])
    (hfinish : (Resolution.begun m size).finish cpu.registers = .ok value)
    (hoperand : cpu.operand = some (.ofMode m size)) (bus : β) :
    cpu.poll bus = .ok (some value, { cpu with operand := none }, bus) := by
  rw [Cpu.poll, hoperand]
  dsimp only
  rw [Resolution.prepare_eq_begun hmode]
  dsimp only [bind, Except.bind]
  unfold Cpu.pollStarted
  rw [show (Resolution.begun m size).pending = [] from hpattern,
    show (Resolution.begun m size).wait = 0 from rfl]
  dsimp only
  rw [hfinish]
  rfl

theorem poll_of_register (h : c.register? op = some register) (size : Size) :
    ∃ m, c.destination op = .ok m ∧ ∀ (cpu : Cpu) (bus : β),
      cpu.operand = some (.ofMode m size) →
        cpu.poll bus =
          .ok (some (cpu.registers.get register &&& size.mask), { cpu with operand := none },
            bus) := by
  have hupper : Opcode.upperRegister op < 8 := toUInt8_and_seven_lt _
  cases c with
  | cmp =>
    cases h
    exact ⟨_, rfl, fun cpu bus hoperand =>
      poll_of_begun (by simp) rfl (Resolution.finish_dataReg hupper size cpu.registers) hoperand
        bus⟩
  | cmpa =>
    cases h
    exact ⟨_, rfl, fun cpu bus hoperand =>
      poll_of_begun (by simp) rfl (Resolution.finish_addrReg hupper size cpu.registers) hoperand
        bus⟩
  | cmpi => cases h
  | cmpm => cases h

theorem operand_of_poll {value : UInt32} {cpu' : Cpu} {bus bus' : β}
    (h : cpu.poll bus = .ok (some value, cpu', bus')) : cpu'.operand = none := by
  cases ho : cpu.operand with
  | none =>
    rw [Cpu.poll, ho] at h
    cases h
  | some r =>
    obtain ⟨regs, rfl, -⟩ := Cpu.moved_of_poll ho h
    rfl

/-- A register is compared with as it stands once the source is there, and takes no time. -/
theorem tickSource_of_register (h : c.register? op = some register) (size : Size) (cpu : Cpu)
    (bus : β) :
    ∃ m, c.destination op = .ok m ∧
      c.tickSource op size cpu bus = do
        let (value, cpu, bus) ← cpu.poll bus
        match value with
        | none => return (cpu.wait, bus)
        | some source =>
          let destination := cpu.registers.get register
          return ((cpu.applyCompare c size source destination).fetchNext c size m, bus) := by
  obtain ⟨m, hm, hregister⟩ := poll_of_register (β := β) h (c.width size)
  refine ⟨m, hm, ?_⟩
  rw [tickSource]
  cases hpoll : cpu.poll bus with
  | error e => rfl
  | ok found =>
    obtain ⟨value, after, bus'⟩ := found
    cases value with
    | none => rfl
    | some source =>
      have hoperand := operand_of_poll hpoll
      dsimp only [bind, Except.bind]
      rw [hm]
      dsimp only
      rw [Cpu.beginOperand, hoperand]
      dsimp only
      rw [tickDestination, hregister _ _ rfl]
      dsimp only [bind, Except.bind]
      rw [tickPrefetch, hm]
      show Except.ok _ = Except.ok _
      rw [Cpu.applyCompare, Cpu.applyCompare, Status.afterCompare_and_mask]
      obtain ⟨registers, progress, operand, ledger⟩ := after
      cases hoperand
      rfl

end Class

end Compare68k
