import Compare68k.Proofs.Bus.Logged
import Compare68k.Proofs.Processor.Operation
import Compare68k.Proofs.Script.Run
/-!
# Illegal opcodes

A processor refuses a word that stands for no instruction, which it can only meet between
instructions.  Main statement: a refusal is the one way in which a reachable processor fails, it
costs one word read and changes nothing, and a script that it breaks off has run up to the refused
instruction and no further.
-/

namespace Compare68k

namespace Processor

variable {β : Type} [Bus β] {t : Table} {p p' : Processor} {bus bus' : β}

/-- An instruction is to begin, and the word at the program counter stands for none. -/
structure Refuses (p : Processor) (bus : β) : Prop where
  between : p.isMidInstruction = false
  lookup : p.table.lookup (Bus.readWord bus p.registers.pc).1 = none

def refusal (p : Processor) (bus : β) : Break :=
  .illegalOpcode p.registers.pc (Bus.readWord bus p.registers.pc).1

theorem Refuses.current (h : p.Refuses bus) : p.current = none :=
  Option.not_isSome_iff_eq_none.mp (Bool.eq_false_iff.mp h.between)

theorem Refuses.tick (h : p.Refuses bus) :
    p.tick bus = .ok (.error (p.refusal bus), p, (Bus.readWord bus p.registers.pc).2) := by
  rw [Processor.tick, advance_of_illegal h.current bus h.lookup]
  rfl

theorem Refuses.step (h : p.Refuses bus) :
    p.step bus = .ok (.error (p.refusal bus), p, (Bus.readWord bus p.registers.pc).2) :=
  step_of_illegal h.current bus h.lookup

theorem Reachable.between_or_flying (hp : Reachable t p) (h : ¬p.Refuses bus) :
    (p.Between ∧ ∃ i, p.table.lookup (Bus.readWord bus p.registers.pc).1 = some i) ∨
      ∃ f i k, p.Flying t f i k := by
  rcases hp.consistent.control with hbetween | hflying
  · cases hlookup : p.table.lookup (Bus.readWord bus p.registers.pc).1 with
    | none =>
      have hmid : p.isMidInstruction = false := by
        rw [isMidInstruction, hbetween.current]
        rfl
      exact absurd ⟨hmid, hlookup⟩ h
    | some i => exact .inl ⟨hbetween, i, rfl⟩
  · exact .inr hflying

theorem Reachable.tick_of_not_refuses (hp : Reachable t p) (h : ¬p.Refuses bus) :
    ∃ p' bus', p.tick bus = .ok (.ok (), p', bus') := by
  suffices hadvance : ∃ p' bus' done, p.advance bus = .ok (.ok done, p', bus') by
    obtain ⟨p', bus', done, hadvance⟩ := hadvance
    refine ⟨p', bus', ?_⟩
    rw [Processor.tick, hadvance]
    rfl
  rcases hp.between_or_flying h with ⟨hbetween, i, hlookup⟩ | ⟨f, i, k, hflying⟩
  · obtain ⟨p', bus', done, hadvance, -⟩ := advance_of_between hbetween bus hlookup
    exact ⟨p', bus', done, hadvance⟩
  · obtain ⟨p', bus', done, hadvance, -⟩ := advance_of_flying hflying bus
    exact ⟨p', bus', done, hadvance⟩

theorem Reachable.step_of_not_refuses (hp : Reachable t p) (h : ¬p.Refuses bus) :
    ∃ report p' bus', p.step bus = .ok (.ok report, p', bus') := by
  rcases hp.between_or_flying h with ⟨hbetween, i, hlookup⟩ | ⟨f, i, k, hflying⟩
  · obtain ⟨regs, last, -, hstep⟩ := step_of_between hbetween bus hlookup
    exact ⟨_, _, _, hstep⟩
  · obtain ⟨regs, last, -, hstep⟩ := stepFrom_of_flying hflying 0 bus
    exact ⟨_, _, _, hstep⟩

theorem Reachable.refuses_of_step {b : Break} (hp : Reachable t p)
    (h : p.step bus = .ok (.error b, p', bus')) :
    p.Refuses bus ∧ b = p.refusal bus ∧ p' = p ∧
      bus' = (Bus.readWord bus p.registers.pc).2 := by
  by_cases hrefuses : p.Refuses bus
  · rw [hrefuses.step] at h
    cases h
    exact ⟨hrefuses, rfl, rfl, rfl⟩
  · obtain ⟨report, p₁, bus₁, hstep⟩ := hp.step_of_not_refuses hrefuses
    cases hstep.symm.trans h

/-! ## Scripts -/

theorem Reachable.within {start r : Script.Run β} {list : List Script.Statement}
    (hp : Reachable t start.processor) (h : start.Within list r) : Reachable t r.processor := by
  cases h with
  | intro before after action ran going lt stepped going' =>
    obtain ⟨r₁, hran, hr₁⟩ := hp.exists_statements _
    cases hran.symm.trans ran
    obtain ⟨r₂, hsteps, hr₂⟩ := hr₁.exists_steps _
    cases hsteps.symm.trans stepped
    exact hr₂

/-- A script that has been broken off: where it had got to, and what it was broken off by. -/
structure Broken (p : Processor) (bus : β) (source : String) (b : Break) (last : Script.Run β) :
    Prop where
  within : ∃ list, Script.parse source = .ok list ∧
    ({ processor := p, bus } : Script.Run β).Within list last
  refuses : last.processor.Refuses last.bus
  cause : b = last.processor.refusal last.bus

theorem Reachable.exists_broken {b : Break} {source : String} (hp : Reachable t p)
    (h : Script.run source p bus = .ok (.error (.stopped b), p', bus')) :
    ∃ last, p.Broken bus source b last ∧ p' = last.processor ∧
      bus' = (Bus.readWord last.bus last.processor.registers.pc).2 := by
  rw [Script.run] at h
  cases hparse : Script.parse source with
  | error es =>
    rw [hparse] at h
    cases h
  | ok list =>
    rw [hparse] at h
    obtain ⟨r, hrun, hresult⟩ := exists_of_bind h
    cases hstopped : r.stopped with
    | none =>
      rw [Script.Run.result, hstopped] at hresult
      cases hresult
    | some cause =>
      rw [Script.Run.result, hstopped] at hresult
      cases hresult
      obtain ⟨last, hwithin, hstep⟩ := Script.Run.exists_within_of_stopped rfl hrun hstopped
      obtain ⟨hrefuses, hcause, hprocessor, hbus⟩ := (hp.within hwithin).refuses_of_step hstep
      exact ⟨last, ⟨⟨list, hparse, hwithin⟩, hrefuses, hcause⟩, hprocessor, hbus⟩

/-- A tick or a step fails on an illegal opcode between instructions and on nothing else, and all
it does is to read that word.  A script that breaks off has run all the statements before a step
statement and those instructions of the statement that come before the refused one. -/
theorem fails_iff_refuses (hp : Reachable t p) (bus : β) :
    (p.Refuses bus →
      p.tick bus = .ok (.error (p.refusal bus), p, (Bus.readWord bus p.registers.pc).2) ∧
      p.step bus = .ok (.error (p.refusal bus), p, (Bus.readWord bus p.registers.pc).2) ∧
      ∀ calls, ∃ log : Logged β,
        p.tick (⟨bus, calls⟩ : Logged β) = .ok (.error (p.refusal bus), p, log) ∧
        p.step (⟨bus, calls⟩ : Logged β) = .ok (.error (p.refusal bus), p, log) ∧
        log.calls = calls ++ [.readWord p.registers.pc (Bus.readWord bus p.registers.pc).1]) ∧
    (¬p.Refuses bus →
      (∃ p' bus', p.tick bus = .ok (.ok (), p', bus')) ∧
      ∃ report p' bus', p.step bus = .ok (.ok report, p', bus')) ∧
    (p.isMidInstruction = true → ¬p.Refuses bus) ∧
    (∀ source b p' bus', Script.run source p bus = .ok (.error (.stopped b), p', bus') →
      ∃ last, p.Broken bus source b last ∧ p' = last.processor ∧
        bus' = (Bus.readWord last.bus last.processor.registers.pc).2) ∧
    ∀ source b p' (ram ram' : Ram),
      Script.run source p ram = .ok (.error (.stopped b), p', ram') →
      ∃ last, p.Broken ram source b last ∧ p' = last.processor ∧ ram' = last.bus := by
  refine ⟨fun h => ⟨h.tick, h.step, fun calls => ?_⟩,
    fun h => ⟨hp.tick_of_not_refuses h, hp.step_of_not_refuses h⟩, fun hmid h => ?_,
    fun source b p' bus' h => hp.exists_broken h, fun source b p' ram ram' h => hp.exists_broken h⟩
  · have hlogged : p.Refuses (⟨bus, calls⟩ : Logged β) := ⟨h.between, h.lookup⟩
    exact ⟨_, hlogged.tick, hlogged.step, rfl⟩
  · cases hmid.symm.trans h.between

/-- A script that stores a word that is no opcode at the start of memory and runs onto it. -/
theorem fails_iff_refuses_stored :
    ∃ ram ram' : Ram, ∃ last,
      Script.run "mem 0 = $FFFF\nstep 2" (ofTable .standard) ram =
        .ok (.error (.stopped (.illegalOpcode 0 0xFFFF)), ofTable .standard, ram') ∧
      (ofTable .standard).Broken ram "mem 0 = $FFFF\nstep 2" (.illegalOpcode 0 0xFFFF) last ∧
      ofTable .standard = last.processor ∧ ram' = last.bus := by
  let ram := Ram.zeroed 4 (by decide)
  let stored := Bus.writeBytes ram 0 (Script.bytesOf [0xFFFF])
  let start : Script.Run Ram := { processor := ofTable .standard, bus := ram }
  let poked : Script.Run Ram := { start with bus := stored, journal := #[.poked 0 1] }
  have hrefuses : (ofTable .standard).Refuses stored := ⟨rfl, by decide⟩
  have hcause : (ofTable .standard).refusal stored = .illegalOpcode 0 0xFFFF := by decide
  have hpoke : start.act (.poke 0 [0xFFFF]) = .ok poked := rfl
  have hstep : poked.act (.step 2) =
      .ok { poked with stopped := some (.illegalOpcode 0 0xFFFF) } := by
    show poked.steps 2 = _
    rw [Script.Run.steps, Script.Run.stepOnce, hrefuses.step, hcause]
    rfl
  have hparse : Script.parse "mem 0 = $FFFF\nstep 2" =
      .ok [⟨⟨0, 13, by omega⟩, .poke 0 [0xFFFF]⟩, ⟨⟨14, 20, by omega⟩, .step 2⟩] := by
    decide +kernel
  have hrun : Script.run "mem 0 = $FFFF\nstep 2" (ofTable .standard) ram =
      .ok (.error (.stopped (.illegalOpcode 0 0xFFFF)), ofTable .standard, stored) := by
    rw [Script.run, hparse]
    dsimp only
    rw [Script.Run.statements_cons_of_act hpoke rfl,
      Script.Run.statements_cons_of_stopped [] hstep rfl]
    rfl
  obtain ⟨-, -, -, -, hscript⟩ := fails_iff_refuses .fresh ram
  obtain ⟨last, hbroken, hprocessor, hbus⟩ := hscript _ _ _ ram stored hrun
  exact ⟨ram, stored, last, hrun, hbroken, hprocessor, hbus⟩

end Processor

end Compare68k
