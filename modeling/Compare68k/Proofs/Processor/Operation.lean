import Compare68k.Script.Run
import Compare68k.Proofs.Processor.Step
/-!
# Operations on a processor

A processor is driven from outside by ticks and steps, by writes to its registers, by name or
directly, and by whole scripts.  `perform` is one operation with its answer and `performAll` a
sequence of them.  Main statement: from a reachable state every sequence of operations runs through
without a fault, whatever the bus answers, and leads to a reachable state.
-/

namespace Compare68k

inductive Operation where
  | tick
  | step
  | setPc (a : Address)
  | setNamed (name : String) (value : UInt32)
  /-- Writes to the register file, which does not give up an instruction even for the program
  counter. -/
  | setOnly (r : Register) (value : UInt32)
  | getNamed (name : String)
  | script (source : String)
  | statements (list : List Script.Statement)

inductive Answer where
  | done
  | ticked (result : Except Break Unit)
  | stepped (result : Except Break Report)
  | value (v : Option UInt32)
  | scripted (journal : List Script.Event) (result : Except Script.Failure (List Report))

def Answer.reports : Answer → Except Script.Failure (List Report)
  | scripted _ result => result
  | stepped (.ok report) => .ok [report]
  | stepped (.error cause) | ticked (.error cause) => .error (.stopped cause)
  | done | value _ | ticked (.ok _) => .ok []

/-- What can be seen of an operation: its answer, and the state it leaves to look at. -/
structure Outcome (β : Type) where
  answer : Answer
  registers : Registers
  isMidInstruction : Bool
  bus : β

namespace Script.Run

def answer {β : Type} (r : Run β) : Answer :=
  .scripted r.journal.toList r.result

end Script.Run

namespace Processor

variable {β : Type} [Bus β]

def play (p : Processor) (bus : β) (list : List Script.Statement) :
    Except Fault (Answer × Processor × β) := do
  let r ← Script.Run.statements list { processor := p, bus }
  return (r.answer, r.processor, r.bus)

def perform (p : Processor) (bus : β) : Operation → Except Fault (Answer × Processor × β)
  | .tick => do
    let (result, p, bus) ← p.tick bus
    return (.ticked result, p, bus)
  | .step => do
    let (result, p, bus) ← p.step bus
    return (.stepped result, p, bus)
  | .setPc a => .ok (.done, p.setPc a, bus)
  | .setNamed name value => .ok (.done, p.setNamed name value, bus)
  | .setOnly r value => .ok (.done, p.setRegisterOnly r value, bus)
  | .getNamed name => .ok (.value (p.getNamed name), p, bus)
  | .script source =>
    match Script.parse source with
    | .error es => .ok (.scripted [] (.error (.complaints es)), p, bus)
    | .ok list => p.play bus list
  | .statements list => p.play bus list

def performAll (p : Processor) (bus : β) :
    List Operation → Except Fault (List (Outcome β) × Processor × β)
  | [] => .ok ([], p, bus)
  | op :: ops => do
    let (answer, next, bus) ← p.perform bus op
    let (outcomes, last, bus') ← next.performAll bus ops
    return (⟨answer, next.registers, next.isMidInstruction, bus⟩ :: outcomes, last, bus')

variable {t : Table} {p : Processor} {bus : β}

theorem Reachable.exists_tick (h : Reachable t p) (bus : β) :
    ∃ result p' bus', p.tick bus = .ok (result, p', bus') ∧ Reachable t p' := by
  obtain ⟨result, p', bus', hadvance, -⟩ := h.consistent.advance bus
  have htick : p.tick bus = .ok (result.map fun _ => (), p', bus') := by
    rw [Processor.tick, hadvance]
    rfl
  exact ⟨_, p', bus', htick, h.tick htick⟩

theorem Reachable.exists_step (h : Reachable t p) (bus : β) :
    ∃ result p' bus', p.step bus = .ok (result, p', bus') ∧ Reachable t p' := by
  suffices hstep : ∃ result p' bus', p.step bus = .ok (result, p', bus') by
    obtain ⟨result, p', bus', hstep⟩ := hstep
    exact ⟨result, p', bus', hstep, h.step hstep⟩
  rcases h.consistent.control with hbetween | ⟨f, i, k, hflying⟩
  · cases hlookup : p.table.lookup (Bus.readWord bus p.registers.pc).1 with
    | none => exact ⟨_, _, _, step_of_illegal hbetween.current bus hlookup⟩
    | some i =>
      obtain ⟨regs, last, -, hstep⟩ := step_of_between hbetween bus hlookup
      exact ⟨_, _, _, hstep⟩
  · obtain ⟨regs, last, -, hstep⟩ := stepFrom_of_flying hflying 0 bus
    exact ⟨_, _, _, hstep⟩

/-! ## Scripts -/

variable {r : Script.Run β}

theorem Reachable.exists_stepOnce (h : Reachable t r.processor) :
    ∃ r', r.stepOnce = .ok r' ∧ Reachable t r'.processor := by
  obtain ⟨result, p', bus', hstep, hreach⟩ := h.exists_step r.bus
  rw [Script.Run.stepOnce, hstep]
  cases result with
  | error cause => exact ⟨_, rfl, hreach⟩
  | ok report => exact ⟨_, rfl, hreach⟩

theorem Reachable.exists_steps (h : Reachable t r.processor) (n : Nat) :
    ∃ r', r.steps n = .ok r' ∧ Reachable t r'.processor := by
  induction n generalizing r with
  | zero => exact ⟨r, rfl, h⟩
  | succ n ih =>
    obtain ⟨r', hstep, hreach⟩ := h.exists_stepOnce
    rw [Script.Run.steps, hstep]
    dsimp only [bind, Except.bind]
    split
    · exact ⟨r', rfl, hreach⟩
    · exact ih hreach

theorem Reachable.exists_act (h : Reachable t r.processor) (a : Script.Action) :
    ∃ r', r.act a = .ok r' ∧ Reachable t r'.processor := by
  cases a with
  | set register value => exact ⟨_, rfl, h.setRegister register value⟩
  | poke a words => exact ⟨_, rfl, h⟩
  | step count => exact h.exists_steps count.toNat

theorem Reachable.exists_statements (h : Reachable t r.processor) (list : List Script.Statement) :
    ∃ r', Script.Run.statements list r = .ok r' ∧ Reachable t r'.processor := by
  induction list generalizing r with
  | nil => exact ⟨r, rfl, h⟩
  | cons s list ih =>
    obtain ⟨r', hact, hreach⟩ := h.exists_act s.action
    rw [Script.Run.statements, hact]
    dsimp only [bind, Except.bind]
    split
    · exact ⟨r', rfl, hreach⟩
    · exact ih hreach

theorem perform_script (p : Processor) (bus : β) (source : String) :
    (p.perform bus (.script source)).map (fun (answer, rest) => (answer.reports, rest)) =
      Script.run source p bus := by
  rw [perform, Script.run]
  cases Script.parse source with
  | error es => rfl
  | ok list =>
    dsimp only [play]
    cases Script.Run.statements list { processor := p, bus } <;> rfl

/-! ## Sequences of operations -/

theorem Reachable.play (h : Reachable t p) (bus : β) (list : List Script.Statement) :
    ∃ answer p' bus', p.play bus list = .ok (answer, p', bus') ∧ Reachable t p' := by
  obtain ⟨r', hrun, hreach⟩ := Reachable.exists_statements (r := { processor := p, bus }) h list
  rw [Processor.play, hrun]
  exact ⟨_, _, _, rfl, hreach⟩

theorem Reachable.perform (h : Reachable t p) (bus : β) (op : Operation) :
    ∃ answer p' bus', p.perform bus op = .ok (answer, p', bus') ∧ Reachable t p' := by
  cases op with
  | tick =>
    obtain ⟨result, p', bus', htick, hreach⟩ := h.exists_tick bus
    rw [Processor.perform, htick]
    exact ⟨_, p', bus', rfl, hreach⟩
  | step =>
    obtain ⟨result, p', bus', hstep, hreach⟩ := h.exists_step bus
    rw [Processor.perform, hstep]
    exact ⟨_, p', bus', rfl, hreach⟩
  | setPc a => exact ⟨_, _, _, rfl, h.setPc a⟩
  | setNamed name value => exact ⟨_, _, _, rfl, h.setNamed name value⟩
  | setOnly r value => exact ⟨_, _, _, rfl, h.withRegisters (p.registers.set r value)⟩
  | getNamed name => exact ⟨_, _, _, rfl, h⟩
  | script source =>
    rw [Processor.perform]
    split
    · exact ⟨_, _, _, rfl, h⟩
    · exact h.play bus _
  | statements list => exact h.play bus list

theorem Reachable.performAll (h : Reachable t p) (bus : β) (ops : List Operation) :
    ∃ outcomes p' bus', p.performAll bus ops = .ok (outcomes, p', bus') ∧ Reachable t p' := by
  induction ops generalizing p bus with
  | nil => exact ⟨[], p, bus, rfl, h⟩
  | cons op ops ih =>
    obtain ⟨answer, next, bus₁, hperform, hnext⟩ := h.perform bus op
    obtain ⟨outcomes, last, bus₂, hrest, hlast⟩ := ih hnext bus₁
    refine ⟨⟨answer, next.registers, next.isMidInstruction, bus₁⟩ :: outcomes, last, bus₂, ?_,
      hlast⟩
    rw [Processor.performAll, hperform]
    dsimp only [bind, Except.bind]
    rw [hrest]
    rfl

end Processor

end Compare68k
