import Compare68k.Proofs.Flags
import Compare68k.Proofs.Processor.Balance
import Compare68k.Proofs.Processor.Reading
/-!
# What ticks and steps leave alone

Comparing changes four bits of the status register and nothing else that a program could see; apart
from these, ticks move the program counter and the address registers of the modes that move them.
Main statement: a tick or a step of a processor that has been driven in any way reads the bus and
leaves the data registers and the rest of the status register as they are.  The bits that the status
register does not have are zero in every state.
-/

namespace Compare68k

namespace Status

theorem and_not_of_and_not {a b inner outer : Status} (hinner : ~~~inner &&& ~~~outer = ~~~outer)
    (h : a &&& ~~~inner = b &&& ~~~inner) : a &&& ~~~outer = b &&& ~~~outer := by
  rw [← hinner, ← UInt16.and_assoc, ← UInt16.and_assoc, h]

end Status

namespace Registers

def Masked (regs : Registers) : Prop :=
  regs.status &&& ~~~Status.mask = 0

variable {regs : Registers}

theorem masked_set (h : regs.Masked) (r : Register) (value : UInt32) :
    (regs.set r value).Masked := by
  cases r with
  | data n | address n | pc => exact h
  | sr =>
    show value.toUInt16 &&& Status.mask &&& ~~~Status.mask = 0
    rw [UInt16.and_assoc, UInt16.and_not_self, UInt16.and_zero]
  | ccr =>
    have hinside : Status.conditionMask &&& ~~~Status.mask = 0 := by decide
    have hrest : regs.status &&& ~~~Status.mask = 0 := h
    show (regs.status &&& ~~~Status.conditionMask ||| value.toUInt16 &&& Status.conditionMask) &&&
      ~~~Status.mask = 0
    rw [Status.or_and, UInt16.and_assoc value.toUInt16, hinside, UInt16.and_zero, UInt16.or_zero,
      UInt16.and_assoc, UInt16.and_comm (~~~Status.conditionMask), ← UInt16.and_assoc, hrest,
      UInt16.zero_and]

/-- What no tick changes. -/
structure Kept (regs regs' : Registers) : Prop where
  data : regs'.data = regs.data
  status : regs'.status &&& ~~~Flags.mask = regs.status &&& ~~~Flags.mask

theorem Kept.refl (regs : Registers) : regs.Kept regs :=
  ⟨rfl, rfl⟩

theorem Kept.trans {regs' regs'' : Registers} (h : regs.Kept regs') (h' : regs'.Kept regs'') :
    regs.Kept regs'' :=
  ⟨h'.data.trans h.data, h'.status.trans h.status⟩

theorem Kept.masked {regs' : Registers} (h : regs.Kept regs') (hmasked : regs.Masked) :
    regs'.Masked :=
  (Status.and_not_of_and_not (by decide) h.status).trans hmasked

end Registers

namespace Instruction

variable {i : Instruction} {cpu cpu' : Cpu}

theorem Turn.kept (h : i.Turn cpu cpu') : cpu.registers.Kept cpu'.registers := by
  cases h with
  | waits moved => exact ⟨moved.data, congrArg (· &&& ~~~Flags.mask) moved.status⟩
  | compares read source destination moved operand ledger operands result =>
    subst result
    refine ⟨moved.data, ?_⟩
    show read.registers.status.afterCompare _ _ _ &&& ~~~Flags.mask = _
    rw [Status.afterCompare_and_not, moved.status]
  | closes progress operand operands result =>
    subst result
    exact .refl cpu.registers

end Instruction

namespace Processor

inductive Goes {β : Type} [Bus β] (p : Processor) (bus : β) (p' : Processor) (bus' : β) : Prop where
  | tick {result : Except Break Unit} (h : p.tick bus = .ok (result, p', bus'))
  | step {result : Except Break Report} (h : p.step bus = .ok (result, p', bus'))

/-- The states of a processor over a table that has been driven in any way, against any buses. -/
inductive Driven (t : Table) : Processor → Prop where
  | fresh : Driven t (ofTable t)
  | goes {β : Type} [Bus β] {p p' : Processor} {bus bus' : β} (h : Driven t p)
      (hgoes : p.Goes bus p' bus') : Driven t p'
  | setPc {p : Processor} (h : Driven t p) (a : Address) : Driven t (p.setPc a)
  | setNamed {p : Processor} (h : Driven t p) (name : String) (value : UInt32) :
      Driven t (p.setNamed name value)
  /-- A write to the register file gives up no instruction. -/
  | setOnly {p : Processor} (h : Driven t p) (r : Register) (value : UInt32) :
      Driven t (p.setRegisterOnly r value)

variable {β : Type} [Bus β] {t : Table} {p p' : Processor} {bus bus' : β}

theorem Driven.reachable (h : Driven t p) : Reachable t p := by
  induction h with
  | fresh => exact .fresh
  | goes h hgoes ih =>
    cases hgoes with
    | tick htick => exact ih.tick htick
    | step hstep => exact ih.step hstep
  | setPc h a ih => exact ih.setPc a
  | setNamed h name value ih => exact ih.setNamed name value
  | setOnly h r value ih => exact ih.withRegisters _

theorem kept_of_advance {done : Except Break (Option InFlight)} (hp : Reachable t p)
    (h : p.advance bus = .ok (done, p', bus')) : p.registers.Kept p'.registers := by
  cases done with
  | error b =>
    rw [eq_of_break h]
    exact .refl p.registers
  | ok done =>
    obtain ⟨i, hturned⟩ := turned_of_advance hp h
    obtain ⟨hdata, -, hstatus⟩ := p.registers_onset
    have hkept := hturned.turn.kept
    exact ⟨hkept.data.trans hdata, by rw [← hstatus]; exact hkept.status⟩

theorem kept_of_stepFrom {result : Except Break Report} {n : Nat} (hp : Reachable t p)
    (h : p.stepFrom n bus = .ok (result, p', bus')) : p.registers.Kept p'.registers := by
  fun_induction Processor.stepFrom n p bus with
  | case1 n p bus f hf => cases h
  | case2 n p bus b q bus₁ hb =>
    cases h
    exact kept_of_advance hp hb
  | case3 n p bus i q bus₁ hi =>
    cases h
    exact kept_of_advance hp hi
  | case4 n p bus q bus₁ hn ih =>
    exact (kept_of_advance hp hn).trans (ih (hp.advance hn) h)

theorem kept_of_goes (hp : Reachable t p) (h : p.Goes bus p' bus') :
    p.registers.Kept p'.registers := by
  cases h with
  | tick htick =>
    obtain ⟨⟨done, q, bus₁⟩, hadvance, heq⟩ := exists_of_bind htick
    cases heq
    exact kept_of_advance hp hadvance
  | step hstep => exact kept_of_stepFrom hp hstep

theorem onlyRead_of_goes (h : p.Goes bus p' bus') : Bus.OnlyRead bus bus' := by
  cases h with
  | tick htick => exact onlyRead_of_tick htick
  | step hstep => exact onlyRead_of_stepFrom hstep

theorem masked_setNamed (h : p.registers.Masked) (name : String) (value : UInt32) :
    (p.setNamed name value).registers.Masked := by
  unfold setNamed
  cases Register.ofName? name with
  | none => exact h
  | some r =>
    cases r with
    | pc => exact h
    | data n => exact Registers.masked_set h (.data n) value
    | address n => exact Registers.masked_set h (.address n) value
    | sr => exact Registers.masked_set h .sr value
    | ccr => exact Registers.masked_set h .ccr value

theorem Driven.masked (h : Driven t p) : p.registers.Masked := by
  induction h with
  | fresh => exact UInt16.zero_and
  | goes h hgoes ih => exact (kept_of_goes h.reachable hgoes).masked ih
  | setPc h a ih => exact ih
  | setNamed h name value ih => exact masked_setNamed ih name value
  | setOnly h r value ih => exact Registers.masked_set ih r value

end Processor

end Compare68k
