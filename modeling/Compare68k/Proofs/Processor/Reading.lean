import Compare68k.Processor
import Compare68k.Proofs.Bus.Logged
/-!
# The bus is only read

One bus is left by reading from another if reads alone lead from the first to the second.  Main
statement: that is all that ticks and steps do to a bus, whichever bus it is.  On a bus that keeps
account of its accesses, everything that a tick or a step adds to the account is a read.
-/

namespace Compare68k

/-- Reads lead from the first bus to the second. -/
inductive Bus.OnlyRead {β : Type} [Bus β] (bus : β) : β → Prop where
  | refl : OnlyRead bus bus
  | readByte {bus' : β} (h : OnlyRead bus bus') (a : Address) :
      OnlyRead bus (Bus.readByte bus' a).2
  | readWord {bus' : β} (h : OnlyRead bus bus') (a : Address) :
      OnlyRead bus (Bus.readWord bus' a).2

variable {β : Type} [Bus β]

theorem Bus.OnlyRead.trans {bus bus' bus'' : β} (h : OnlyRead bus bus') (h' : OnlyRead bus' bus'') :
    OnlyRead bus bus'' := by
  induction h' with
  | refl => exact h
  | readByte h' a ih => exact ih.readByte a
  | readWord h' a ih => exact ih.readWord a

theorem Logged.reads_of_onlyRead {bus bus' : Logged β} (h : Bus.OnlyRead bus bus') :
    ∃ calls, bus'.calls = bus.calls ++ calls ∧ calls.all (·.request.isRead) = true := by
  induction h with
  | refl => exact ⟨[], (List.append_nil _).symm, rfl⟩
  | @readByte last h a ih =>
    obtain ⟨calls, hcalls, hread⟩ := ih
    refine ⟨calls ++ [.readByte a (Bus.readByte last.inner a).1], ?_, ?_⟩
    · rw [← List.append_assoc, ← hcalls]
      rfl
    · rw [List.all_append, hread]
      rfl
  | @readWord last h a ih =>
    obtain ⟨calls, hcalls, hread⟩ := ih
    refine ⟨calls ++ [.readWord a (Bus.readWord last.inner a).1], ?_, ?_⟩
    · rw [← List.append_assoc, ← hcalls]
      rfl
    · rw [List.all_append, hread]
      rfl

theorem Resolution.onlyRead_of_perform {r r' : Resolution} {c : Cycle} {regs regs' : Registers}
    {bus bus' : β} (h : r.perform c regs bus = .ok (r', regs', bus')) : Bus.OnlyRead bus bus' := by
  cases c with
  | idle =>
    simp only [perform] at h
    split at h
    · obtain ⟨a, -, h⟩ := exists_of_bind h
      cases h
      exact .refl
    · cases h
      exact .refl
  | prefetch =>
    cases h
    exact .readWord .refl _
  | readHigh =>
    obtain ⟨a, -, h⟩ := exists_of_bind h
    cases h
    exact .readWord .refl _
  | read =>
    obtain ⟨a, -, h⟩ := exists_of_bind h
    split at h <;> cases h
    · exact .readByte .refl _
    · exact .readWord .refl _
    · exact .readWord .refl _
  | write | writeHigh =>
    cases h
    exact .refl

namespace Cpu

variable {cpu cpu' : Cpu} {r : Resolution} {value : Option UInt32} {bus bus' : β}

theorem onlyRead_of_pollStarted (h : cpu.pollStarted r bus = .ok (value, cpu', bus')) :
    Bus.OnlyRead bus bus' := by
  unfold pollStarted at h
  split at h
  · cases h
    exact .refl
  · obtain ⟨⟨r', regs, bus₁⟩, hperform, h⟩ := exists_of_bind h
    cases h
    exact Resolution.onlyRead_of_perform hperform
  · obtain ⟨v, -, h⟩ := exists_of_bind h
    cases h
    exact .refl

theorem onlyRead_of_poll (h : cpu.poll bus = .ok (value, cpu', bus')) : Bus.OnlyRead bus bus' := by
  unfold poll at h
  split at h
  · cases h
  · obtain ⟨⟨r, regs⟩, -, h⟩ := exists_of_bind h
    exact onlyRead_of_pollStarted h

end Cpu

namespace Class

variable {c : Class} {op : Opcode} {size : Size} {source : UInt32} {cpu cpu' : Cpu} {bus bus' : β}

theorem onlyRead_of_tickDestination
    (h : c.tickDestination op size source cpu bus = .ok (cpu', bus')) : Bus.OnlyRead bus bus' := by
  obtain ⟨⟨value, next, bus₁⟩, hpoll, h⟩ := exists_of_bind h
  have hread := Cpu.onlyRead_of_poll hpoll
  cases value with
  | none =>
    cases h
    exact hread
  | some destination =>
    obtain ⟨compared, -, h⟩ := exists_of_bind h
    cases h
    exact hread

theorem onlyRead_of_tickSource (h : c.tickSource op size cpu bus = .ok (cpu', bus')) :
    Bus.OnlyRead bus bus' := by
  obtain ⟨⟨value, next, bus₁⟩, hpoll, h⟩ := exists_of_bind h
  have hread := Cpu.onlyRead_of_poll hpoll
  cases value with
  | none =>
    cases h
    exact hread
  | some source =>
    obtain ⟨m, -, h⟩ := exists_of_bind h
    obtain ⟨begun, -, h⟩ := exists_of_bind h
    exact hread.trans (onlyRead_of_tickDestination h)

theorem onlyRead_of_tick (h : c.tick op cpu bus = .ok (cpu', bus')) : Bus.OnlyRead bus bus' := by
  obtain ⟨size, -, h⟩ := exists_of_bind h
  split at h
  · obtain ⟨m, -, h⟩ := exists_of_bind h
    obtain ⟨begun, -, h⟩ := exists_of_bind h
    exact onlyRead_of_tickSource h
  · split at h
    · split at h
      · exact onlyRead_of_tickSource h
      · exact onlyRead_of_tickDestination h
      · obtain ⟨fetched, -, h⟩ := exists_of_bind h
        cases h
        exact .refl
      · cases h
        exact .refl
    · cases h
  · cases h
    exact .refl

end Class

namespace Processor

variable {p p' : Processor} {f : InFlight} {bus bus' : β}

theorem onlyRead_of_run {done : Except Break (Option InFlight)}
    (h : p.run f bus = .ok (done, p', bus')) : Bus.OnlyRead bus bus' := by
  obtain ⟨⟨cpu, bus₁⟩, htick, h⟩ := exists_of_bind h
  dsimp only at h
  split at h <;> cases h <;> exact Class.onlyRead_of_tick htick

theorem onlyRead_of_advance {done : Except Break (Option InFlight)}
    (h : p.advance bus = .ok (done, p', bus')) : Bus.OnlyRead bus bus' := by
  have hfetch : Bus.OnlyRead bus (Bus.readWord bus p.cpu.registers.pc).2 := .readWord .refl _
  unfold advance at h
  split at h
  · exact onlyRead_of_run h
  · dsimp only at h
    split at h
    · cases h
      exact hfetch
    · obtain ⟨begun, -, h⟩ := exists_of_bind h
      exact hfetch.trans (onlyRead_of_run h)

theorem onlyRead_of_tick {result : Except Break Unit} (h : p.tick bus = .ok (result, p', bus')) :
    Bus.OnlyRead bus bus' := by
  obtain ⟨⟨done, q, bus₁⟩, hadvance, h⟩ := exists_of_bind h
  cases h
  exact onlyRead_of_advance hadvance

theorem onlyRead_of_stepFrom {result : Except Break Report} {n : Nat}
    (h : p.stepFrom n bus = .ok (result, p', bus')) : Bus.OnlyRead bus bus' := by
  fun_induction Processor.stepFrom n p bus with
  | case1 n p bus f hf => cases h
  | case2 n p bus b q bus₁ hb =>
    cases h
    exact onlyRead_of_advance hb
  | case3 n p bus i q bus₁ hi =>
    cases h
    exact onlyRead_of_advance hi
  | case4 n p bus q bus₁ hn ih => exact (onlyRead_of_advance hn).trans (ih h)

end Processor

end Compare68k
