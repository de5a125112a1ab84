import Compare68k.Proofs.Processor.Operation
/-!
# Nothing of an instruction outlives it

Between instructions a processor may still hold the ledger and the marker of the last one, complete
or given up half way.  They are thrown away when the next opcode is fetched, and until then nothing
looks at them.  Two processors that differ in nothing else are `Alike`: each operation answers the
same on both and leaves them alike, and an instruction that runs leaves them equal.  Main statement:
between instructions a processor does whatever a fresh one with the same registers does, on every
bus, so also on one that keeps account of its accesses.
-/

namespace Compare68k

def Script.Event.isExecuted : Script.Event → Bool
  | executed _ _ => true
  | assigned _ _ | poked _ _ => false

/-- Whether an operation has got on with an instruction.  Between instructions that means that it
has fetched one. -/
def Answer.ran : Answer → Bool
  | ticked (.ok _) | stepped (.ok _) => true
  | scripted journal _ => journal.any Script.Event.isExecuted
  | done | value _ | ticked (.error _) | stepped (.error _) => false

namespace Processor

/-- Two processors that differ at most in what is left of instructions that are over. -/
inductive Alike : Processor → Processor → Prop where
  | same (p : Processor) : Alike p p
  | between {p q : Processor} (left : p.Between) (right : q.Between) (table : p.table = q.table)
      (registers : p.registers = q.registers) : Alike p q

variable {α β : Type} {t : Table} {p q : Processor}

/-- Two results are the same, unless the same word stopped the two processors as they were. -/
def Agree (p q : Processor) (x y : Except Fault (Except Break α × Processor × β)) : Prop :=
  x = y ∨ ∃ b bus', x = .ok (.error b, p, bus') ∧ y = .ok (.error b, q, bus')

/-- What comes of one of two alike processors comes of the other, and only a stop leaves them as
different as they were. -/
theorem Agree.exists_eq {x y : Except Fault (Except Break α × Processor × β)}
    (h : Agree p q x y) (halike : p.Alike q) {result : Except Break α} {p' : Processor} {bus' : β}
    (hx : x = .ok (result, p', bus')) :
    ∃ q', y = .ok (result, q', bus') ∧ p'.Alike q' ∧
      ((p = q ∨ ∃ a, result = .ok a) → p' = q') := by
  rcases h with heq | ⟨b, bus'', hleft, hright⟩
  · exact ⟨p', heq.symm.trans hx, .same p', fun _ => rfl⟩
  · cases hleft.symm.trans hx
    refine ⟨q, hright, halike, ?_⟩
    rintro (hsame | ⟨a, ha⟩)
    · exact hsame
    · cases ha

variable [Bus β] {bus : β}

theorem stepFrom_congr (h : p.advance bus = q.advance bus) (n : Nat) :
    p.stepFrom n bus = q.stepFrom n bus := by
  cases hp : p.advance bus with
  | error fault => rw [stepFrom_of_fault n hp, stepFrom_of_fault n (h.symm.trans hp)]
  | ok result =>
    obtain ⟨stop | done, next, bus'⟩ := result
    · rw [stepFrom_of_break n hp, stepFrom_of_break n (h.symm.trans hp)]
    · cases done with
      | none => rw [stepFrom_of_underway n hp, stepFrom_of_underway n (h.symm.trans hp)]
      | some f => rw [stepFrom_of_completed n hp, stepFrom_of_completed n (h.symm.trans hp)]

namespace Alike

theorem table_eq (h : p.Alike q) : p.table = q.table := by
  cases h with
  | same => rfl
  | between left right table registers => exact table

theorem registers_eq (h : p.Alike q) : p.registers = q.registers := by
  cases h with
  | same => rfl
  | between left right table registers => exact registers

theorem isMidInstruction_eq (h : p.Alike q) : p.isMidInstruction = q.isMidInstruction := by
  cases h with
  | same => rfl
  | between left right table registers =>
    rw [isMidInstruction, isMidInstruction, left.current, right.current]

/-! ## Changes -/

theorem withRegisters (h : p.Alike q) (regs : Registers) :
    (p.withRegisters regs).Alike (q.withRegisters regs) := by
  cases h with
  | same => exact .same _
  | between left right table registers =>
    exact .between ⟨left.current, left.progress, left.operand⟩
      ⟨right.current, right.progress, right.operand⟩ table rfl

theorem setOnly (h : p.Alike q) (r : Register) (value : UInt32) :
    (p.setRegisterOnly r value).Alike (q.setRegisterOnly r value) := by
  have halike := h.withRegisters (p.registers.set r value)
  have hq : q.setRegisterOnly r value = q.withRegisters (p.registers.set r value) := by
    rw [h.registers_eq]
    rfl
  rw [hq]
  exact halike

theorem setPc (h : p.Alike q) (a : Address) : (p.setPc a).Alike (q.setPc a) := by
  have hregisters : (p.setPc a).registers = (q.setPc a).registers := by
    show { p.registers with pc := a } = { q.registers with pc := a }
    rw [h.registers_eq]
  exact .between ⟨rfl, rfl, rfl⟩ ⟨rfl, rfl, rfl⟩ h.table_eq hregisters

theorem setRegister (h : p.Alike q) (r : Register) (value : UInt32) :
    (p.setRegister r value).Alike (q.setRegister r value) := by
  cases r with
  | pc => exact h.setPc value
  | data n => exact h.setOnly (.data n) value
  | address n => exact h.setOnly (.address n) value
  | sr => exact h.setOnly .sr value
  | ccr => exact h.setOnly .ccr value

theorem setNamed (h : p.Alike q) (name : String) (value : UInt32) :
    (p.setNamed name value).Alike (q.setNamed name value) := by
  unfold Processor.setNamed
  split
  · exact h.setRegister _ value
  · exact h

/-! ## Ticks and steps -/

theorem advance (h : p.Alike q) (bus : β) : Agree p q (p.advance bus) (q.advance bus) := by
  cases h with
  | same => exact .inl rfl
  | between left right table registers =>
    have hlookup : q.table.lookup (Bus.readWord bus q.registers.pc).1 =
        p.table.lookup (Bus.readWord bus p.registers.pc).1 := by
      rw [table, registers]
    cases hp : p.table.lookup (Bus.readWord bus p.registers.pc).1 with
    | none =>
      right
      refine ⟨_, _, advance_of_illegal left.current bus hp, ?_⟩
      rw [registers]
      exact advance_of_illegal right.current bus (hlookup.trans hp)
    | some i =>
      left
      have htake : p.takeOpcode = q.takeOpcode := by
        rw [takeOpcode_of_between left, takeOpcode_of_between right, table, registers]
      have hpc : p.cpu.registers = q.cpu.registers := registers
      rw [Processor.advance, Processor.advance, left.current, right.current]
      dsimp only
      rw [htake, hpc, table]
      rw [show q.cpu.registers = q.registers from rfl, hlookup.trans hp]

theorem tick (h : p.Alike q) (bus : β) : Agree p q (p.tick bus) (q.tick bus) := by
  rw [Processor.tick, Processor.tick]
  rcases h.advance bus with heq | ⟨b, bus', hp, hq⟩
  · rw [heq]
    exact .inl rfl
  · rw [hp, hq]
    exact .inr ⟨b, bus', rfl, rfl⟩

theorem step (h : p.Alike q) (bus : β) : Agree p q (p.step bus) (q.step bus) := by
  rcases h.advance bus with heq | ⟨b, bus', hp, hq⟩
  · exact .inl (stepFrom_congr heq 0)
  · exact .inr ⟨b, bus', stepFrom_of_break 0 hp, stepFrom_of_break 0 hq⟩

end Alike

end Processor

namespace Script.Run

open Processor

variable {β : Type} {r : Run β} {q : Processor}

def on (r : Run β) (q : Processor) : Run β :=
  { r with processor := q }

/-- Another processor takes the place of the run's, and no instruction has been run yet unless it is
the same one. -/
structure Mirrored (r : Run β) (q : Processor) : Prop where
  alike : r.processor.Alike q
  same : r.journal.toList.any Event.isExecuted = true → r.processor = q

theorem Mirrored.note {e : Event} (h : r.Mirrored q) (he : e.isExecuted = false) :
    (r.note e).Mirrored q := by
  refine ⟨h.alike, fun hany => h.same ?_⟩
  rw [Run.note, Array.toList_push, List.any_append, List.any_cons, he] at hany
  simpa using hany

variable [Bus β] {t : Table}

theorem Mirrored.stepOnce (h : r.Mirrored q) (hr : Reachable t r.processor) :
    ∃ r' q', r.stepOnce = .ok r' ∧ (r.on q).stepOnce = .ok (r'.on q') ∧ r'.Mirrored q' ∧
      Reachable t r'.processor := by
  obtain ⟨result, p', bus', hstep, hreach⟩ := hr.exists_step r.bus
  obtain ⟨q', hother, halike, hsame⟩ := (h.alike.step r.bus).exists_eq h.alike hstep
  have hother' : (r.on q).processor.step (r.on q).bus = .ok (result, q', bus') := hother
  rw [Run.stepOnce, Run.stepOnce, hstep, hother']
  cases result with
  | error cause =>
    exact ⟨_, q', rfl, rfl, ⟨halike, fun hany => hsame (.inl (h.same hany))⟩, hreach⟩
  | ok report =>
    obtain rfl := hsame (.inr ⟨report, rfl⟩)
    exact ⟨_, p', rfl, rfl, ⟨.same p', fun _ => rfl⟩, hreach⟩

theorem Mirrored.steps (h : r.Mirrored q) (hr : Reachable t r.processor) (n : Nat) :
    ∃ r' q', r.steps n = .ok r' ∧ (r.on q).steps n = .ok (r'.on q') ∧ r'.Mirrored q' ∧
      Reachable t r'.processor := by
  induction n generalizing r q with
  | zero => exact ⟨r, q, rfl, rfl, h, hr⟩
  | succ n ih =>
    obtain ⟨r', q', hstep, hother, hmirrored, hreach⟩ := h.stepOnce hr
    rw [Run.steps, Run.steps, hstep, hother]
    dsimp only [bind, Except.bind]
    rw [show (r'.on q').stopped = r'.stopped from rfl]
    split
    · exact ⟨r', q', rfl, rfl, hmirrored, hreach⟩
    · exact ih hmirrored hreach

theorem Mirrored.act (h : r.Mirrored q) (hr : Reachable t r.processor) (a : Action) :
    ∃ r' q', r.act a = .ok r' ∧ (r.on q).act a = .ok (r'.on q') ∧ r'.Mirrored q' ∧
      Reachable t r'.processor := by
  cases a with
  | set register value =>
    have hset : { r with processor := r.processor.setRegister register value }.Mirrored
        (q.setRegister register value) :=
      ⟨h.alike.setRegister register value, fun hany => by rw [h.same hany]⟩
    exact ⟨_, _, rfl, rfl, hset.note rfl, hr.setRegister register value⟩
  | poke a words =>
    have hpoke : { r with bus := Bus.writeBytes r.bus a (bytesOf words) }.Mirrored q :=
      ⟨h.alike, h.same⟩
    exact ⟨_, q, rfl, rfl, hpoke.note rfl, hr⟩
  | step count => exact h.steps hr count.toNat

theorem Mirrored.statements (h : r.Mirrored q) (hr : Reachable t r.processor)
    (list : List Statement) :
    ∃ r' q', statements list r = .ok r' ∧ statements list (r.on q) = .ok (r'.on q') ∧
      r'.Mirrored q' ∧ Reachable t r'.processor := by
  induction list generalizing r q with
  | nil => exact ⟨r, q, rfl, rfl, h, hr⟩
  | cons s list ih =>
    obtain ⟨r', q', hact, hother, hmirrored, hreach⟩ := h.act hr s.action
    rw [Run.statements, Run.statements, hact, hother]
    dsimp only [bind, Except.bind]
    rw [show (r'.on q').stopped = r'.stopped from rfl]
    split
    · exact ⟨r', q', rfl, rfl, hmirrored, hreach⟩
    · exact ih hmirrored hreach

end Script.Run

namespace Processor

variable {β : Type} [Bus β] {t : Table} {p q : Processor}

/-! ## Operations -/

theorem Alike.play (h : p.Alike q) (hp : Reachable t p) (bus : β) (list : List Script.Statement) :
    ∃ answer p' q' bus', p.play bus list = .ok (answer, p', bus') ∧
      q.play bus list = .ok (answer, q', bus') ∧ p'.Alike q' ∧ (answer.ran = true → p' = q') := by
  let r : Script.Run β := { processor := p, bus }
  have hstart : r.Mirrored q := by
    refine ⟨h, fun hany => ?_⟩
    cases hany
  obtain ⟨r', q', hrun, hother, hmirrored, -⟩ := hstart.statements hp list
  refine ⟨r'.answer, r'.processor, q', r'.bus, ?_, ?_, hmirrored.alike, hmirrored.same⟩
  · rw [Processor.play, hrun]
    rfl
  · rw [Processor.play, show ({ processor := q, bus } : Script.Run β) = r.on q from rfl, hother]
    rfl

theorem Alike.perform (h : p.Alike q) (hp : Reachable t p) (bus : β) (op : Operation) :
    ∃ answer p' q' bus', p.perform bus op = .ok (answer, p', bus') ∧
      q.perform bus op = .ok (answer, q', bus') ∧ p'.Alike q' ∧ (answer.ran = true → p' = q') := by
  cases op with
  | tick =>
    obtain ⟨result, p', bus', htick, -⟩ := hp.exists_tick bus
    obtain ⟨q', hother, halike, hsame⟩ := (h.tick bus).exists_eq h htick
    rw [Processor.perform, Processor.perform, htick, hother]
    refine ⟨.ticked result, p', q', bus', rfl, rfl, halike, fun hran => hsame (.inr ?_)⟩
    cases result with
    | error cause => cases hran
    | ok a => exact ⟨a, rfl⟩
  | step =>
    obtain ⟨result, p', bus', hstep, -⟩ := hp.exists_step bus
    obtain ⟨q', hother, halike, hsame⟩ := (h.step bus).exists_eq h hstep
    rw [Processor.perform, Processor.perform, hstep, hother]
    refine ⟨.stepped result, p', q', bus', rfl, rfl, halike, fun hran => hsame (.inr ?_)⟩
    cases result with
    | error cause => cases hran
    | ok report => exact ⟨report, rfl⟩
  | setPc a =>
    exact ⟨.done, _, _, bus, rfl, rfl, h.setPc a, fun hran => by cases hran⟩
  | setNamed name value =>
    exact ⟨.done, _, _, bus, rfl, rfl, h.setNamed name value, fun hran => by cases hran⟩
  | setOnly r value =>
    exact ⟨.done, _, _, bus, rfl, rfl, h.setOnly r value, fun hran => by cases hran⟩
  | getNamed name =>
    have hvalue : q.getNamed name = p.getNamed name := by
      rw [getNamed, getNamed, h.registers_eq]
    rw [Processor.perform, Processor.perform, hvalue]
    exact ⟨_, p, q, bus, rfl, rfl, h, fun hran => by cases hran⟩
  | script source =>
    rw [Processor.perform, Processor.perform]
    cases Script.parse source with
    | error es => exact ⟨_, p, q, bus, rfl, rfl, h, fun hran => by cases hran⟩
    | ok list => exact h.play hp bus list
  | statements list => exact h.play hp bus list

theorem Alike.performAll (h : p.Alike q) (hp : Reachable t p) (bus : β) (ops : List Operation) :
    ∃ outcomes p' q' bus', p.performAll bus ops = .ok (outcomes, p', bus') ∧
      q.performAll bus ops = .ok (outcomes, q', bus') ∧ p'.Alike q' ∧
      (outcomes.any (fun o => o.answer.ran) = true → p' = q') := by
  induction ops generalizing p q bus with
  | nil => exact ⟨[], p, q, bus, rfl, rfl, h, fun hany => by cases hany⟩
  | cons op ops ih =>
    obtain ⟨answer, p₁, q₁, bus₁, hleft, hright, halike, hran⟩ := h.perform hp bus op
    obtain ⟨answer', p₁', bus₁', hperform, hreach⟩ := hp.perform bus op
    rw [hleft] at hperform
    cases hperform
    obtain ⟨outcomes, p₂, q₂, bus₂, hrest, hrest', halike₂, hran₂⟩ := ih halike hreach bus₁
    refine ⟨⟨answer, p₁.registers, p₁.isMidInstruction, bus₁⟩ :: outcomes, p₂, q₂, bus₂, ?_, ?_,
      halike₂, ?_⟩
    · rw [Processor.performAll, hleft]
      dsimp only [bind, Except.bind]
      rw [hrest]
      rfl
    · rw [Processor.performAll, hright, halike.registers_eq, halike.isMidInstruction_eq]
      dsimp only [bind, Except.bind]
      rw [hrest']
      rfl
    · intro hany
      rw [List.any_cons, Bool.or_eq_true] at hany
      rcases hany with hfirst | hlater
      · -- equal processors have only one future
        rw [hran hfirst, hrest'] at hrest
        cases hrest
        rfl
      · exact hran₂ hlater

/-- Between instructions a processor does what a fresh one with its registers does.  Once an
instruction has been fetched, nothing at all tells the two apart. -/
theorem performAll_renewed (hp : Reachable t p) (hmid : p.isMidInstruction = false) (bus : β)
    (ops : List Operation) :
    ∃ outcomes p' fresh bus', p.performAll bus ops = .ok (outcomes, p', bus') ∧
      ((ofTable t).withRegisters p.registers).performAll bus ops = .ok (outcomes, fresh, bus') ∧
      p'.registers = fresh.registers ∧ p'.isMidInstruction = fresh.isMidInstruction ∧
      (outcomes.any (fun o => o.answer.ran) = true → p' = fresh) := by
  have halike : p.Alike ((ofTable t).withRegisters p.registers) :=
    .between (hp.between hmid) ⟨rfl, rfl, rfl⟩ hp.consistent.table rfl
  obtain ⟨outcomes, p', fresh, bus', hleft, hright, hafter, hran⟩ := halike.performAll hp bus ops
  exact ⟨outcomes, p', fresh, bus', hleft, hright, hafter.registers_eq, hafter.isMidInstruction_eq,
    hran⟩

/-- CMP.L (A0),D0, given up after its first tick and begun again. -/
theorem performAll_renewed_abandoned :
    ∃ p bus, (ofTable .standard).tick ((Ram.zeroed 4 (by decide)).setWord 0 0xB090) =
        .ok (.ok (), p, bus) ∧
      (p.setPc 0).cpu.ledger = ⟨2, [.readHigh]⟩ ∧
      ∃ outcomes p' fresh bus', (p.setPc 0).performAll bus [.tick] = .ok (outcomes, p', bus') ∧
        ((ofTable .standard).withRegisters (p.setPc 0).registers).performAll bus [.tick] =
          .ok (outcomes, fresh, bus') ∧
        p' = fresh := by
  have hticks : ∃ p bus, (ofTable .standard).tick ((Ram.zeroed 4 (by decide)).setWord 0 0xB090) =
      .ok (.ok (), p, bus) ∧ p.cpu.ledger = ⟨2, [.readHigh]⟩ ∧
        (p.setPc 0).tick bus = .ok (.ok (), p, bus) := ⟨_, _, rfl, rfl, rfl⟩
  obtain ⟨p, bus, htick, hledger, hagain⟩ := hticks
  obtain ⟨outcomes, p', fresh, bus', hleft, hright, -, -, hran⟩ :=
    performAll_renewed (.setPc 0 (.tick .fresh htick)) rfl bus [.tick]
  refine ⟨p, bus, htick, hledger, outcomes, p', fresh, bus', hleft, hright, hran ?_⟩
  rw [performAll, perform, hagain] at hleft
  cases hleft
  rfl

end Processor

end Compare68k
