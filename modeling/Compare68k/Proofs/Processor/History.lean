import Compare68k.Proofs.Processor.Frame
/-!
# The history of an instruction

`Handled` keeps the ticks that an instruction has had, each with the state it found and the state it
left, while registers may be written between them.  The history ends with the instruction or with
its being given up, so what holds of every history holds wherever it breaks off.  Main statement: in
every history the ticks have moved the address registers that the modes of the operands move, each
operand's by one stride at most; and one tick at most has changed the status register, the one that
records the completion prefetch.
-/

namespace Compare68k

/-- A tick, by what it found and what it left. -/
structure Passage where
  found : Cpu
  left : Cpu

namespace Passage

def move (x : Passage) (n : Fin 8) : UInt32 :=
  x.left.registers.address.get n - x.found.registers.address.get n

def flagged (x : Passage) : Bool :=
  x.left.registers.status != x.found.registers.status

def moved : List Passage → Fin 8 → UInt32
  | [], _ => 0
  | x :: xs, n => x.move n + moved xs n

end Passage

namespace Instruction

variable {i : Instruction} {op : Opcode} {k : Nat} {cpu cpu' : Cpu}

theorem Turn.move (h : i.Turn cpu cpu') (n : Fin 8) :
    (Passage.mk cpu cpu').move n = i.shift cpu' n - i.shift cpu n := by
  have hadded : ∀ d, cpu'.registers.address.get n = cpu.registers.address.get n + d →
      (Passage.mk cpu cpu').move n = d := by
    intro d hd
    rw [Passage.move, hd, UInt32.add_comm, UInt32.add_sub_cancel]
  cases h with
  | waits moved => exact hadded _ (moved.address n)
  | compares read source destination moved operand ledger operands result =>
    have hshift : i.shift cpu' n = i.displacement true true n := by
      subst result
      unfold shift Cpu.fetchNext
      cases i.cls.hasTail i.size i.destination <;> rfl
    rw [hshift]
    subst result
    exact hadded _ (moved.address n)
  | closes progress operand operands result =>
    have hshift : i.shift cpu' n = i.shift cpu n := by
      rw [shift, shift, progress, operand, result]
      rfl
    rw [hshift, UInt32.sub_self]
    subst result
    exact hadded 0 (UInt32.add_zero _).symm

/-- A tick that changes the status register records the completion prefetch. -/
theorem Charged.of_flagged (h : i.Charged cpu cpu') (hflagged : (Passage.mk cpu cpu').flagged) :
    cpu.ledger.transactions = i.operandPattern ∧
      cpu'.ledger.transactions = i.operandPattern ++ [.prefetch] := by
  cases h with
  | two cycles prefetched status =>
    rw [Passage.flagged, status, bne_self_eq_false] at hflagged
    cases hflagged
  | four cycles before after => exact ⟨before, after⟩

theorem shift_of_reads {r : Resolution} {mode : Mode} {size : Size} {earlier : List Cycle}
    (h : cpu.Reads r mode size earlier) (n : Fin 8) :
    r.shift n = if r.hasMoved then mode.stride size n else 0 := by
  rw [Resolution.shift, h.mode_eq, h.size_eq]

theorem Underway.shift (h : i.Underway k cpu) :
    ∃ source destination, ∀ n, i.shift cpu n = i.displacement source destination n := by
  cases h with
  | source r progress reads =>
    refine ⟨r.hasMoved, false, fun n => ?_⟩
    rw [Instruction.shift, progress, reads.operand]
    show r.shift n = (if r.hasMoved then _ else 0) + 0
    rw [shift_of_reads reads, UInt32.add_zero]
  | destination value r progress reads =>
    refine ⟨true, r.hasMoved, fun n => ?_⟩
    rw [Instruction.shift, progress, reads.operand]
    show _ + r.shift n = _
    rw [shift_of_reads reads]
    rfl
  | tail progress operand =>
    refine ⟨true, true, fun n => ?_⟩
    rw [Instruction.shift, progress, operand]
    rfl

theorem Complete.shift (h : i.Complete k cpu) (n : Fin 8) :
    i.shift cpu n = i.displacement true true n := by
  rw [Instruction.shift, h.progress]
  rfl

/-- What the ticks of an instruction have done by the time it is in a state. -/
structure Past (i : Instruction) (cpu : Cpu) (passages : List Passage) : Prop where
  moved : ∀ n, Passage.moved passages n = i.shift cpu n
  flagged : ∀ x ∈ passages, x.flagged → x.found.ledger.transactions = i.operandPattern ∧
    x.left.ledger.transactions = i.operandPattern ++ [.prefetch]
  once : passages.countP Passage.flagged ≤ if i.Prefetched cpu.ledger then 1 else 0
  kept : ∀ x ∈ passages, x.found.registers.Kept x.left.registers

theorem past_nil (hshift : ∀ n, i.shift cpu n = 0) : i.Past cpu [] where
  moved n := (hshift n).symm
  flagged := List.forall_mem_nil _
  once := Nat.zero_le _
  kept := List.forall_mem_nil _

/-- One more tick, of which the ledger tells whether it may have changed the flags. -/
theorem once_of_charged {passages : List Passage} (h : i.Charged cpu cpu')
    (honce : passages.countP Passage.flagged ≤ if i.Prefetched cpu.ledger then 1 else 0) :
    (⟨cpu, cpu'⟩ :: passages).countP Passage.flagged ≤
      if i.Prefetched cpu'.ledger then 1 else 0 := by
  rw [List.countP_cons]
  cases h with
  | two cycles prefetched status =>
    have hquiet : (Passage.mk cpu cpu').flagged = false := by
      rw [Passage.flagged, status, bne_self_eq_false]
    simp only [prefetched, hquiet, Bool.false_eq_true, if_false]
    exact honce
  | four cycles before after =>
    have hbefore : ¬ i.Prefetched cpu.ledger := by
      rw [Prefetched, before]
      exact Nat.lt_irrefl _
    have hafter : i.Prefetched cpu'.ledger := by
      rw [Prefetched, after, List.length_append]
      exact Nat.lt_add_one _
    rw [if_neg hbefore] at honce
    rw [if_pos hafter]
    split <;> omega

theorem Past.turn {passages : List Passage} (h : i.Past cpu passages) (hturn : i.Turn cpu cpu') :
    i.Past cpu' (⟨cpu, cpu'⟩ :: passages) where
  moved n := by
    rw [Passage.moved, h.moved, hturn.move]
    grind
  flagged := List.forall_mem_cons.mpr ⟨hturn.charged.of_flagged, h.flagged⟩
  once := once_of_charged hturn.charged h.once
  kept := List.forall_mem_cons.mpr ⟨hturn.kept, h.kept⟩

end Instruction

namespace Processor

/-- The ticks that an instruction has had since it began, the latest first. -/
inductive Handled (t : Table) (i : Instruction) : Processor → List Passage → Prop where
  | begins {β : Type} [Bus β] {p p' : Processor} {bus bus' : β} (h : Driven t p)
      (hmid : p.isMidInstruction = false)
      (hi : t.lookup (Bus.readWord bus p.registers.pc).1 = some i)
      (htick : p.tick bus = .ok (.ok (), p', bus')) : Handled t i p' [⟨p.onset, p'.cpu⟩]
  | tick {β : Type} [Bus β] {p p' : Processor} {bus bus' : β} {passages : List Passage}
      (h : Handled t i p passages) (hmid : p.isMidInstruction = true)
      (htick : p.tick bus = .ok (.ok (), p', bus')) : Handled t i p' (⟨p.onset, p'.cpu⟩ :: passages)
  | setNamed {p : Processor} {passages : List Passage} (h : Handled t i p passages) (name : String)
      (value : UInt32) (hmid : (p.setNamed name value).isMidInstruction = true) :
      Handled t i (p.setNamed name value) passages
  | setOnly {p : Processor} {passages : List Passage} (h : Handled t i p passages) (r : Register)
      (value : UInt32) : Handled t i (p.setRegisterOnly r value) passages

structure Spent (t : Table) (i : Instruction) (p : Processor) (passages : List Passage) : Prop where
  driven : Driven t p
  ticked : ∃ f k done, Ticked t f i k p done
  past : i.Past p.cpu passages

variable {β : Type} [Bus β] {t : Table} {p p' : Processor} {f : InFlight} {i : Instruction}
  {k : Nat} {bus bus' : β} {done : Option InFlight} {passages : List Passage}

theorem Ticked.withRegisters (h : Ticked t f i k p done) (regs : Registers) :
    Ticked t f i k (p.withRegisters regs) done := by
  cases h with
  | underway h => exact .underway (h.withRegisters regs)
  | complete current h =>
    exact .complete current ⟨h.progress, h.operand, h.transactions, h.nominal, h.cycles⟩

theorem Spent.withRegisters (h : Spent t i p passages) {regs : Registers}
    (hdriven : Driven t (p.withRegisters regs)) : Spent t i (p.withRegisters regs) passages := by
  obtain ⟨f, k, done, hticked⟩ := h.ticked
  obtain ⟨moved, flagged, once, kept⟩ := h.past
  exact ⟨hdriven, ⟨f, k, done, hticked.withRegisters regs⟩, moved, flagged, once, kept⟩

theorem Spent.flying (h : Spent t i p passages) (hmid : p.isMidInstruction = true) :
    ∃ f k, p.Flying t f i k := by
  obtain ⟨f, k, done, hticked⟩ := h.ticked
  cases hticked with
  | underway hflying => exact ⟨f, k, hflying⟩
  | complete current hcomplete =>
    rw [isMidInstruction, current] at hmid
    cases hmid

theorem Spent.lookup_subject (h : Spent t i p passages) (hmid : p.isMidInstruction = true)
    (bus : β) : t.lookup (p.subject bus).2 = some i := by
  obtain ⟨f, k, hflying⟩ := h.flying hmid
  rw [subject, hflying.current]
  exact hflying.lookup

theorem Spent.tick (h : Spent t i p passages) (hmid : p.isMidInstruction = true)
    (htick : p.tick bus = .ok (.ok (), p', bus')) :
    Spent t i p' (⟨p.onset, p'.cpu⟩ :: passages) := by
  obtain ⟨f, k, hflying⟩ := h.flying hmid
  -- the course of the instruction says where the tick leads, and its turn what the tick does
  obtain ⟨done, hadvance⟩ := advance_of_tick htick
  obtain ⟨q, bus₁, done₁, hadvance₁, -, hticked, -⟩ := advance_of_flying hflying bus
  cases hadvance.symm.trans hadvance₁
  obtain ⟨j, hturned⟩ := turned_of_advance h.driven.reachable hadvance
  cases (h.lookup_subject hmid bus).symm.trans hturned.lookup
  have hpast : i.Past p.onset passages := by
    rw [onset, hflying.current]
    exact h.past
  exact ⟨h.driven.goes (.tick htick), ⟨f, _, _, hticked⟩, hpast.turn hturned.turn⟩

theorem spent_of_begins (h : Driven t p) (hmid : p.isMidInstruction = false)
    (hi : t.lookup (Bus.readWord bus p.registers.pc).1 = some i)
    (htick : p.tick bus = .ok (.ok (), p', bus')) : Spent t i p' [⟨p.onset, p'.cpu⟩] := by
  have hbetween := h.reachable.between hmid
  have htable : p.table = t := h.reachable.consistent.table
  obtain ⟨done, hadvance⟩ := advance_of_tick htick
  obtain ⟨q, bus₁, done₁, hadvance₁, -, hticked, -⟩ := advance_of_between hbetween bus (htable ▸ hi)
  cases hadvance.symm.trans hadvance₁
  obtain ⟨j, hturned⟩ := turned_of_advance h.reachable hadvance
  have hlookup := hturned.lookup
  rw [subject, hbetween.current] at hlookup
  cases hi.symm.trans hlookup
  have hpast : i.Past p.onset [] := by
    rw [onset, hbetween.current]
    exact Instruction.past_nil fun n => rfl
  exact ⟨h.goes (.tick htick), ⟨_, _, _, htable ▸ hticked⟩, hpast.turn hturned.turn⟩

theorem Spent.setNamed (h : Spent t i p passages) (name : String) (value : UInt32)
    (hmid : (p.setNamed name value).isMidInstruction = true) :
    Spent t i (p.setNamed name value) passages := by
  have hdriven := h.driven.setNamed name value
  unfold Processor.setNamed at hmid hdriven ⊢
  cases hname : Register.ofName? name with
  | none => exact h
  | some r =>
    rw [hname] at hmid hdriven
    cases r with
    | pc => cases hmid
    | data n | address n | sr | ccr => exact h.withRegisters hdriven

theorem Handled.spent (h : Handled t i p passages) : Spent t i p passages := by
  induction h with
  | begins h hmid hi htick => exact spent_of_begins h hmid hi htick
  | tick h hmid htick ih => exact ih.tick hmid htick
  | setNamed h name value hmid ih => exact ih.setNamed name value hmid
  | setOnly h r value ih => exact ih.withRegisters (ih.driven.setOnly r value)

/-! ## Steps -/

theorem mid_of_advance (h : p.advance bus = .ok (.ok none, p', bus')) :
    p'.isMidInstruction = true := by
  unfold advance at h
  split at h
  · obtain ⟨hcurrent, -, -⟩ := current_of_run h
    exact congrArg Option.isSome hcurrent
  · dsimp only at h
    split at h
    · cases h
    · obtain ⟨begun, -, h⟩ := exists_of_bind h
      obtain ⟨hcurrent, -, -⟩ := current_of_run h
      exact congrArg Option.isSome hcurrent

theorem Handled.stepFrom {report : Report} {n : Nat} (h : Handled t i p passages)
    (hmid : p.isMidInstruction = true) (hstep : p.stepFrom n bus = .ok (.ok report, p', bus')) :
    ∃ more, Handled t i p' (more ++ passages) := by
  fun_induction Processor.stepFrom n p bus generalizing passages with
  | case1 n p bus f hf => cases hstep
  | case2 n p bus b q bus₁ hb => cases hstep
  | case3 n p bus f q bus₁ hf =>
    cases hstep
    exact ⟨[_], h.tick hmid (tick_of_advance hf)⟩
  | case4 n p bus q bus₁ hn ih =>
    obtain ⟨more, hmore⟩ := ih (h.tick hmid (tick_of_advance hn)) (mid_of_advance hn) hstep
    exact ⟨more ++ [_], by rw [List.append_assoc]; exact hmore⟩

theorem handled_of_step {report : Report} (h : Driven t p) (hmid : p.isMidInstruction = false)
    (hstep : p.step bus = .ok (.ok report, p', bus')) :
    ∃ i passages, t.lookup (Bus.readWord bus p.registers.pc).1 = some i ∧
      Handled t i p' passages := by
  have htable : p.table = t := h.reachable.consistent.table
  have hbetween := h.reachable.between hmid
  cases hlookup : t.lookup (Bus.readWord bus p.registers.pc).1 with
  | none => cases (step_of_illegal hbetween.current bus (htable ▸ hlookup)).symm.trans hstep
  | some i =>
    refine ⟨i, ?_⟩
    obtain ⟨q, bus₁, done, hadvance, -⟩ := advance_of_between hbetween bus (htable ▸ hlookup)
    have hfirst := Handled.begins h hmid hlookup (tick_of_advance hadvance)
    rw [step] at hstep
    cases done with
    | some f =>
      cases (stepFrom_of_completed 0 hadvance).symm.trans hstep
      exact ⟨_, rfl, hfirst⟩
    | none =>
      rw [stepFrom_of_underway 0 hadvance] at hstep
      obtain ⟨more, hmore⟩ := hfirst.stepFrom (mid_of_advance hadvance) hstep
      exact ⟨_, rfl, hmore⟩

/-! ## Every instruction -/

theorem not_mid_of_step {result : Except Break Report} (hp : Reachable t p)
    (hstep : p.step bus = .ok (result, p', bus')) : p'.isMidInstruction = false := by
  rcases hp.consistent.control with hbetween | ⟨f, i, k, hflying⟩
  · cases hlookup : p.table.lookup (Bus.readWord bus p.registers.pc).1 with
    | none =>
      cases (step_of_illegal hbetween.current bus hlookup).symm.trans hstep
      rw [isMidInstruction, hbetween.current]
      rfl
    | some i =>
      obtain ⟨regs, last, -, hstep'⟩ := step_of_between hbetween bus hlookup
      cases hstep'.symm.trans hstep
      rfl
  · obtain ⟨regs, last, -, hstep'⟩ := stepFrom_of_flying hflying 0 bus
    cases hstep'.symm.trans hstep
    rfl

theorem exists_handled_of_tick {result : Except Break Unit} (h : Driven t p)
    (ih : p.isMidInstruction = true → ∃ i passages, Handled t i p passages)
    (htick : p.tick bus = .ok (result, p', bus')) (hmid : p'.isMidInstruction = true) :
    ∃ i passages, Handled t i p' passages := by
  cases result with
  | error b =>
    obtain ⟨⟨done, q, bus₁⟩, hadvance, heq⟩ := exists_of_bind htick
    cases done with
    | ok done => cases heq
    | error b' =>
      cases heq
      rw [eq_of_break hadvance] at hmid ⊢
      exact ih hmid
  | ok =>
    cases hbefore : p.isMidInstruction with
    | true =>
      obtain ⟨i, passages, hhandled⟩ := ih hbefore
      exact ⟨i, _, hhandled.tick hbefore htick⟩
    | false =>
      obtain ⟨done, hadvance⟩ := advance_of_tick htick
      obtain ⟨i, hturned⟩ := turned_of_advance h.reachable hadvance
      have hlookup := hturned.lookup
      rw [subject, (h.reachable.between hbefore).current] at hlookup
      exact ⟨i, _, .begins h hbefore hlookup htick⟩

theorem mid_of_setNamed {name : String} {value : UInt32}
    (h : (p.setNamed name value).isMidInstruction = true) : p.isMidInstruction = true := by
  unfold Processor.setNamed at h
  cases hname : Register.ofName? name with
  | none =>
    rw [hname] at h
    exact h
  | some r =>
    rw [hname] at h
    cases r with
    | pc => cases h
    | data n | address n | sr | ccr => exact h

theorem Driven.exists_handled (h : Driven t p) (hmid : p.isMidInstruction = true) :
    ∃ i passages, Handled t i p passages := by
  induction h with
  | fresh => cases hmid
  | goes h hgoes ih =>
    cases hgoes with
    | tick htick => exact exists_handled_of_tick h ih htick hmid
    | step hstep =>
      rw [not_mid_of_step h.reachable hstep] at hmid
      cases hmid
  | setPc h a ih => cases hmid
  | setNamed h name value ih =>
    obtain ⟨i, passages, hhandled⟩ := ih (mid_of_setNamed hmid)
    exact ⟨i, passages, hhandled.setNamed name value hmid⟩
  | setOnly h r value ih =>
    obtain ⟨i, passages, hhandled⟩ := ih hmid
    exact ⟨i, passages, hhandled.setOnly r value⟩

/-- What the ticks of an instruction have done to the registers, wherever its history breaks off. -/
structure Confined (i : Instruction) (p : Processor) (passages : List Passage) : Prop where
  /-- Either operand has moved its register as its mode does, or not yet. -/
  moved : ∃ source destination,
    (∀ n, Passage.moved passages n = i.displacement source destination n) ∧
    (p.isMidInstruction = false → source = true ∧ destination = true)
  flagged : ∀ x ∈ passages, x.flagged → x.found.ledger.transactions = i.operandPattern ∧
    x.left.ledger.transactions = i.operandPattern ++ [.prefetch]
  once : passages.countP Passage.flagged ≤ 1
  untouched : ¬ i.Prefetched p.cpu.ledger →
    ∀ x ∈ passages, x.left.registers.status = x.found.registers.status
  kept : ∀ x ∈ passages, x.found.registers.Kept x.left.registers

theorem Spent.confined (h : Spent t i p passages) : Confined i p passages := by
  refine ⟨?_, h.past.flagged, ?_, fun hearly x hx => ?_, h.past.kept⟩
  · obtain ⟨f, k, done, hticked⟩ := h.ticked
    cases hticked with
    | underway hflying =>
      obtain ⟨source, destination, hshift⟩ := hflying.underway.shift
      refine ⟨source, destination, fun n => (h.past.moved n).trans (hshift n), fun hmid => ?_⟩
      rw [isMidInstruction, hflying.current] at hmid
      cases hmid
    | complete current hcomplete =>
      exact ⟨true, true, fun n => (h.past.moved n).trans (hcomplete.shift n), fun _ => ⟨rfl, rfl⟩⟩
  · have honce := h.past.once
    split at honce <;> omega
  · have honce := h.past.once
    rw [if_neg hearly, Nat.le_zero, List.countP_eq_zero] at honce
    exact of_not_not fun hne => honce x hx (bne_iff_ne.mpr hne)

/-- Ticks and steps change nothing that they must not, and an instruction, complete or given up, has
changed no more than its opcode says. -/
theorem confined_of_driven (h : Driven t p) :
    p.registers.Masked ∧ (∀ a, (p.setPc a).registers = { p.registers with pc := a }) ∧
    (∀ {β : Type} [Bus β] (bus : β),
      (∃ result p' bus', p.tick bus = .ok (result, p', bus')) ∧
      (∃ result p' bus', p.step bus = .ok (result, p', bus')) ∧
      (∀ p' bus', p.Goes bus p' bus' → Bus.OnlyRead bus bus' ∧ p.registers.Kept p'.registers) ∧
      ∀ calls p' (log : Logged β), p.Goes (⟨bus, calls⟩ : Logged β) p' log →
        ∃ more, log.calls = calls ++ more ∧ more.all (·.request.isRead) = true) ∧
    (p.isMidInstruction = true → ∃ i passages, Handled t i p passages) ∧
    (∀ i passages, Handled t i p passages → Confined i p passages) ∧
    ∀ {β : Type} [Bus β] (bus : β) report p' bus', p.step bus = .ok (.ok report, p', bus') →
      ∃ i passages, t.lookup (p.subject bus).2 = some i ∧ Handled t i p' passages ∧
        ∀ earlier, p.isMidInstruction = true → Handled t i p earlier →
          ∃ more, Handled t i p' (more ++ earlier) := by
  refine ⟨h.masked, fun a => rfl, fun bus => ⟨?_, ?_, fun p' bus' hgoes => ?_,
    fun calls p' log hgoes => Logged.reads_of_onlyRead (onlyRead_of_goes hgoes)⟩, h.exists_handled,
    fun i passages hhandled => hhandled.spent.confined, fun bus report p' bus' hstep => ?_⟩
  · obtain ⟨result, p', bus', htick, -⟩ := h.reachable.exists_tick bus
    exact ⟨result, p', bus', htick⟩
  · obtain ⟨result, p', bus', hstep, -⟩ := h.reachable.exists_step bus
    exact ⟨result, p', bus', hstep⟩
  · exact ⟨onlyRead_of_goes hgoes, kept_of_goes h.reachable hgoes⟩
  · cases hmid : p.isMidInstruction with
    | false =>
      obtain ⟨i, passages, hlookup, hhandled⟩ := handled_of_step h hmid hstep
      refine ⟨i, passages, ?_, hhandled, fun earlier hmid' => ?_⟩
      · rw [subject, (h.reachable.between hmid).current]
        exact hlookup
      · cases hmid'
    | true =>
      obtain ⟨i, passages, hhandled⟩ := h.exists_handled hmid
      obtain ⟨more, hmore⟩ := hhandled.stepFrom hmid hstep
      refine ⟨i, more ++ passages, hhandled.spent.lookup_subject hmid bus, hmore,
        fun earlier _ hearlier => hearlier.stepFrom hmid hstep⟩

/-- CMPM.W (A0)+,(A1)+ has moved the first of its registers after one tick, and is then given up. -/
theorem confined_of_driven_givenUp :
    ∃ p bus₁ passages,
      (ofTable .standard).tick ((Ram.zeroed 4 (by decide)).setWord 0 0xB348) =
        .ok (.ok (), p, bus₁) ∧
      Handled .standard ⟨.cmpm, .word, .postInc 0, .postInc 1⟩ p passages ∧
      Confined ⟨.cmpm, .word, .postInc 0, .postInc 1⟩ p passages ∧
      Passage.moved passages 0 = 2 ∧ Passage.moved passages 1 = 0 ∧
      (p.setPc 8).registers.get (.address 0) = 2 ∧ (p.setPc 8).registers.Masked := by
  have hi : Table.standard.lookup
      (Bus.readWord ((Ram.zeroed 4 (by decide)).setWord 0 0xB348)
        (ofTable .standard).registers.pc).1 =
        some ⟨.cmpm, .word, .postInc 0, .postInc 1⟩ := by decide
  obtain ⟨p, bus₁, htick, hmoved, hunmoved⟩ : ∃ p bus₁,
      (ofTable .standard).tick ((Ram.zeroed 4 (by decide)).setWord 0 0xB348) =
        .ok (.ok (), p, bus₁) ∧
      p.registers.get (.address 0) = 2 ∧ p.registers.get (.address 1) = 0 :=
    ⟨_, _, rfl, by decide +kernel, by decide +kernel⟩
  have hhandled := Handled.begins .fresh rfl hi htick
  obtain ⟨hmasked, hgivenUp, -, -, hconfined, -⟩ :=
    confined_of_driven (Driven.fresh.goes (.tick htick))
  refine ⟨p, bus₁, _, htick, hhandled, hconfined _ _ hhandled, ?_, ?_, ?_, hmasked⟩
  · show p.registers.get (.address 0) - 0 + 0 = 2
    rw [hmoved]
    rfl
  · show p.registers.get (.address 1) - 0 + 0 = 0
    rw [hunmoved]
    rfl
  · rw [hgivenUp]
    exact hmoved

end Processor

end Compare68k
