import Compare68k.Proofs.Bus.Logged
import Compare68k.Proofs.Processor.Suspension
/-!
# One processor on two buses

A processor knows nothing of a bus but what it reads from it.  So where reading respects a map from
one bus to another, ticks on the two do the same and leave a pair of buses that the map relates.
Main statement: a processor on a bus that keeps account of its accesses runs as it does without the
account.
-/

namespace Compare68k

variable {α β : Type} [Bus α] [Bus β] {f : α → β}

def carry {γ δ : Type} (f : α → β) (x : Except Fault (γ × δ × α)) : Except Fault (γ × δ × β) :=
  x.map fun (y, z, bus) => (y, z, f bus)

theorem Resolution.perform_carried (hf : Bus.Carries f) (r : Resolution) (c : Cycle)
    (regs : Registers) (bus : α) :
    r.perform c regs (f bus) = carry f (r.perform c regs bus) := by
  cases c with
  | idle =>
    simp only [perform]
    split
    · rename_i n hmode
      cases regs.address? n <;> rfl
    · rfl
  | prefetch =>
    simp only [perform, hf.readWord]
    rfl
  | readHigh =>
    simp only [perform, hf.readWord]
    cases r.effectiveAddress regs <;> rfl
  | read =>
    simp only [perform, hf.readWord, hf.readByte]
    cases r.effectiveAddress regs <;> cases r.size <;> rfl
  | write | writeHigh => rfl

namespace Cpu

theorem pollStarted_carried (hf : Bus.Carries f) (cpu : Cpu) (r : Resolution) (bus : α) :
    cpu.pollStarted r (f bus) = carry f (cpu.pollStarted r bus) := by
  unfold pollStarted
  split
  · rfl
  · rename_i c rest hw hp
    rw [r.perform_carried hf]
    cases r.perform c cpu.registers bus <;> rfl
  · cases r.finish cpu.registers <;> rfl

theorem poll_carried (hf : Bus.Carries f) (cpu : Cpu) (bus : α) :
    cpu.poll (f bus) = carry f (cpu.poll bus) := by
  unfold poll
  split
  · rfl
  · rename_i r ho
    cases r.prepare cpu.registers with
    | error fault => rfl
    | ok prepared => exact pollStarted_carried hf _ prepared.1 bus

end Cpu

namespace Class

variable {c : Class} {op : Opcode} {size : Size}

theorem tickDestination_carried (hf : Bus.Carries f) (source : UInt32) (cpu : Cpu) (bus : α) :
    c.tickDestination op size source cpu (f bus) =
      (c.tickDestination op size source cpu bus).map fun (cpu, bus) => (cpu, f bus) := by
  unfold tickDestination
  rw [Cpu.poll_carried hf]
  cases cpu.poll bus with
  | error fault => rfl
  | ok polled =>
    obtain ⟨value, next, bus'⟩ := polled
    cases value with
    | none => rfl
    | some destination =>
      dsimp only [carry, Except.map, bind, Except.bind]
      cases c.tickPrefetch op size (next.applyCompare c size source destination) <;> rfl

theorem tickSource_carried (hf : Bus.Carries f) (cpu : Cpu) (bus : α) :
    c.tickSource op size cpu (f bus) =
      (c.tickSource op size cpu bus).map fun (cpu, bus) => (cpu, f bus) := by
  unfold tickSource
  rw [Cpu.poll_carried hf]
  cases cpu.poll bus with
  | error fault => rfl
  | ok polled =>
    obtain ⟨value, next, bus'⟩ := polled
    cases value with
    | none => rfl
    | some source =>
      dsimp only [carry, Except.map, bind, Except.bind]
      cases c.destination op with
      | error fault => rfl
      | ok mode =>
        dsimp only
        cases next.beginOperand mode (c.width size) with
        | error fault => rfl
        | ok begun => exact tickDestination_carried hf source _ bus'

theorem tick_carried (hf : Bus.Carries f) (cpu : Cpu) (bus : α) :
    c.tick op cpu (f bus) = (c.tick op cpu bus).map fun (cpu, bus) => (cpu, f bus) := by
  unfold tick
  cases c.size op with
  | error fault => rfl
  | ok size =>
    dsimp only [bind, Except.bind]
    split
    · cases c.source op with
      | error fault => rfl
      | ok mode =>
        dsimp only
        cases cpu.beginOperand mode size with
        | error fault => rfl
        | ok begun => exact tickSource_carried hf _ bus
    · rename_i d stage hp
      split
      · cases stage with
        | source => exact tickSource_carried hf cpu bus
        | destination source => exact tickDestination_carried hf source cpu bus
        | prefetch =>
          dsimp only
          cases c.tickPrefetch op size cpu <;> rfl
        | tail => rfl
      · rfl
    · rfl

end Class

namespace Processor

theorem run_carried (hf : Bus.Carries f) (p : Processor) (i : InFlight) (bus : α) :
    p.run i (f bus) = carry f (p.run i bus) := by
  unfold run
  rw [Class.tick_carried hf]
  cases i.cls.tick i.opcode p.cpu bus with
  | error fault => rfl
  | ok ticked =>
    dsimp only [Except.map, bind, Except.bind]
    split <;> rfl

theorem advance_carried (hf : Bus.Carries f) (p : Processor) (bus : α) :
    p.advance (f bus) = carry f (p.advance bus) := by
  unfold advance
  split
  · exact run_carried hf p _ bus
  · dsimp only
    rw [hf.readWord]
    dsimp only
    split
    · rfl
    · cases p.takeOpcode with
      | error fault => rfl
      | ok begun => exact run_carried hf begun _ _

theorem tick_carried (hf : Bus.Carries f) (p : Processor) (bus : α) :
    p.tick (f bus) = carry f (p.tick bus) := by
  unfold tick
  rw [advance_carried hf]
  cases p.advance bus <;> rfl

theorem ticks_carried (hf : Bus.Carries f) (p : Processor) (bus : α) (n : Nat) :
    p.ticks (f bus) n = carry f (p.ticks bus n) := by
  induction n generalizing p bus with
  | zero => rfl
  | succ n ih =>
    rw [ticks, ticks, tick_carried hf]
    cases p.tick bus with
    | error fault => rfl
    | ok ticked =>
      obtain ⟨result, next, bus'⟩ := ticked
      cases result with
      | error stop => rfl
      | ok _ => exact ih next bus'

/-- Keeping account of the accesses changes nothing about them. -/
theorem ticks_inner {p p' : Processor} {bus bus' : Logged β} {n : Nat}
    {result : Except Break Unit} (h : p.ticks bus n = .ok (result, p', bus')) :
    p.ticks bus.inner n = .ok (result, p', bus'.inner) := by
  rw [ticks_carried Logged.carries_inner, h]
  rfl

end Processor

end Compare68k
