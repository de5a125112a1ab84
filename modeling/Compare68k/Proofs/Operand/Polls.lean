import Compare68k.Proofs.Bus.Logged
import Compare68k.Proofs.Operand.Resolve
import Compare68k.Proofs.Processor.Timing
/-!
# Polls with changes before them

`polls` asks for an operand again and again, and before each time something else may write to the
registers and to the memory.  What each poll finds, does and leaves is kept.  Main statement: the
polls of a sound resolution go through a course, which ends with the operand.  The course tells
when each activity is recorded, whatever the changes are.
-/

namespace Compare68k

/-- A poll: the registers and the bus that it finds, the activities that it records, its calls to
the bus, its answer, and the registers that it leaves. -/
structure Poll (β : Type) where
  found : Registers
  bus : β
  recorded : List Cycle
  calls : List Call
  answer : Option UInt32
  left : Registers

namespace Cpu

variable {β : Type} [Bus β]

def observe (cpu : Cpu) (bus : β) (change : Change β) : Except Fault (Poll β × Cpu × β) := do
  let (found, bus) := change (cpu.registers, bus)
  let (answer, after, logged) ← { cpu with registers := found }.poll (⟨bus, []⟩ : Logged β)
  let recorded := after.ledger.transactions.drop cpu.ledger.transactions.length
  return (⟨found, bus, recorded, logged.calls, answer, after.registers⟩, after, logged.inner)

def polls (cpu : Cpu) (bus : β) : List (Change β) → Except Fault (List (Poll β) × Cpu × β)
  | [] => .ok ([], cpu, bus)
  | change :: changes => do
    let (poll, cpu, bus) ← cpu.observe bus change
    let (others, cpu, bus) ← cpu.polls bus changes
    return (poll :: others, cpu, bus)

end Cpu

namespace Resolution

variable {β : Type} [Bus β] {r : Resolution} {polls : List (Poll β)} {value : UInt32}

/-- What the polls of a started resolution do, one after another, until one brings the operand. -/
inductive Course : Resolution → List (Poll β) → UInt32 → Prop where
  | wait {r : Resolution} {polls : List (Poll β)} {value : UInt32} (k : Nat) (regs : Registers)
      (bus : β) (hwait : r.wait = k + 1) (later : Course (r.withWait k) polls value) :
      Course r (⟨regs, bus, [], [], none, regs⟩ :: polls) value
  | activity {r : Resolution} {polls : List (Poll β)} {value : UInt32} (c : Cycle)
      (cs : List Cycle) (r' : Resolution) (regs regs' : Registers) (bus : β) (logged : Logged β)
      (hwait : r.wait = 0) (hpending : r.pending = c :: cs)
      (hperform : r.perform c regs (⟨bus, []⟩ : Logged β) = .ok (r', regs', logged))
      (later : Course (r'.next c cs) polls value) :
      Course r (⟨regs, bus, [c], logged.calls, none, regs'⟩ :: polls) value
  | operand {r : Resolution} {value : UInt32} (regs : Registers) (bus : β) (hwait : r.wait = 0)
      (hpending : r.pending = []) (hfinish : r.finish regs = .ok value) :
      Course r [⟨regs, bus, [], [], some value, regs⟩] value

theorem ticksLeft_next {r' : Resolution} {c : Cycle} {cs : List Cycle} (hwait : r.wait = 0)
    (hpending : r.pending = c :: cs) : r.ticksLeft = (r'.next c cs).ticksLeft + 1 := by
  have hpos := c.ticks_pos
  rw [ticksLeft, hwait, hpending, Cycle.totalTicks]
  show _ = c.ticks - 1 + Cycle.totalTicks cs + 1
  omega

theorem ticksLeft_withWait {k : Nat} (hwait : r.wait = k + 1) :
    r.ticksLeft = (r.withWait k).ticksLeft + 1 := by
  rw [ticksLeft, hwait, Nat.add_right_comm]
  rfl

theorem Course.answers (h : r.Course polls value) :
    polls.map Poll.answer = List.replicate r.ticksLeft none ++ [some value] := by
  induction h with
  | wait k regs bus hwait later ih =>
    rw [List.map_cons, ih, ticksLeft_withWait hwait]
    rfl
  | activity c cs r' regs regs' bus logged hwait hpending hperform later ih =>
    rw [List.map_cons, ih, ticksLeft_next hwait hpending]
    rfl
  | operand regs bus hwait hpending hfinish =>
    rw [ticksLeft, hwait, hpending]
    rfl

theorem Course.recorded (h : r.Course polls value) :
    polls.flatMap Poll.recorded = r.pending := by
  induction h with
  | wait k regs bus hwait later ih => exact ih
  | activity c cs r' regs regs' bus logged hwait hpending hperform later ih =>
    rw [hpending]
    exact congrArg (List.cons c) ih
  | operand regs bus hwait hpending hfinish => exact hpending.symm

theorem Course.begins (h : r.Course polls value) {j : Nat} {c : Cycle}
    (hc : r.pending[j]? = some c) :
    (polls.map Poll.recorded)[r.wait + Cycle.totalTicks (r.pending.take j)]? = some [c] := by
  induction h generalizing j with
  | wait k regs bus hwait later ih =>
    rw [hwait, Nat.add_right_comm]
    exact ih hc
  | activity d ds r' regs regs' bus logged hwait hpending hperform later ih =>
    rw [hpending] at hc ⊢
    rw [hwait, Nat.zero_add]
    cases j with
    | zero =>
      cases hc
      rfl
    | succ j =>
      have hpos := d.ticks_pos
      have hticks : Cycle.totalTicks ((d :: ds).take (j + 1)) =
          d.ticks - 1 + Cycle.totalTicks (ds.take j) + 1 := by
        rw [List.take_succ_cons, Cycle.totalTicks]
        omega
      rw [hticks]
      exact ih hc
  | operand regs bus hwait hpending hfinish =>
    rw [hpending] at hc
    cases hc

end Resolution

namespace Cpu

variable {β : Type} [Bus β] {cpu : Cpu} {r : Resolution} {bus : β}

/-! ## One poll -/

theorem pollStarted_of_wait {k : Nat} (hwait : r.wait = k + 1) :
    cpu.pollStarted r bus = .ok (none, { cpu with operand := some (r.withWait k) }, bus) := by
  unfold pollStarted
  rw [hwait]
  rfl

theorem pollStarted_of_activity {c : Cycle} {cs : List Cycle} {r' : Resolution}
    {regs : Registers} {bus' : β} (hwait : r.wait = 0) (hpending : r.pending = c :: cs)
    (hperform : r.perform c cpu.registers bus = .ok (r', regs, bus')) :
    cpu.pollStarted r bus =
      .ok (none,
        { cpu with
          registers := regs
          operand := some (r'.next c cs)
          ledger := cpu.ledger.record c },
        bus') := by
  unfold pollStarted
  rw [hwait, hpending]
  dsimp only
  rw [hperform]
  rfl

theorem pollStarted_of_operand {value : UInt32} (hwait : r.wait = 0) (hpending : r.pending = [])
    (hfinish : r.finish cpu.registers = .ok value) :
    cpu.pollStarted r bus = .ok (some value, { cpu with operand := none }, bus) := by
  unfold pollStarted
  rw [hwait, hpending]
  dsimp only
  rw [hfinish]
  rfl

theorem poll_of_prepare {prepared : Resolution} {found regs : Registers}
    (ho : cpu.operand = some r) (hprepare : r.prepare found = .ok (prepared, regs)) (bus : β) :
    { cpu with registers := found }.poll bus =
      { cpu with registers := regs }.pollStarted prepared bus := by
  rw [poll, ho]
  dsimp only
  rw [hprepare]
  rfl

theorem observe_of_poll {change : Change β} {found : Registers} {changed : β}
    {answer : Option UInt32} {after : Cpu} {logged : Logged β} {cs : List Cycle}
    (hchange : change (cpu.registers, bus) = (found, changed))
    (hpoll : { cpu with registers := found }.poll (⟨changed, []⟩ : Logged β) =
      .ok (answer, after, logged))
    (hrecorded : after.ledger.transactions = cpu.ledger.transactions ++ cs) :
    cpu.observe bus change =
      .ok (⟨found, changed, cs, logged.calls, answer, after.registers⟩, after, logged.inner) := by
  rw [observe, hchange]
  dsimp only
  rw [hpoll]
  dsimp only [bind, Except.bind]
  rw [hrecorded, List.drop_left]
  rfl

/-! ## All polls -/

theorem polls_cons {change : Change β} {changes : List (Change β)} {poll : Poll β}
    {polls : List (Poll β)} {after last : Cpu} {bus' bus'' : β}
    (hobserve : cpu.observe bus change = .ok (poll, after, bus'))
    (hpolls : after.polls bus' changes = .ok (polls, last, bus'')) :
    cpu.polls bus (change :: changes) = .ok (poll :: polls, last, bus'') := by
  rw [Cpu.polls, hobserve]
  dsimp only [bind, Except.bind]
  rw [hpolls]
  rfl

/-- With a change before each poll, a sound resolution runs a course from what its first poll
prepares to its operand. -/
theorem exists_course (ho : cpu.operand = some r) (hr : r.Sound) (bus : β)
    {changes : List (Change β)} (hlength : changes.length = r.ticksLeft + 1) :
    ∃ first later prepared regs value last bus',
      cpu.polls bus changes = .ok (first :: later, last, bus') ∧
      r.prepare first.found = .ok (prepared, regs) ∧
      prepared.Course ({ first with found := regs } :: later) value ∧ last.operand = none ∧
      last.ledger.transactions = cpu.ledger.transactions ++ r.pending := by
  induction changes generalizing cpu r bus with
  | nil => cases hlength
  | cons change changes ih =>
    obtain ⟨⟨found, changed⟩, hchange⟩ : ∃ result, change (cpu.registers, bus) = result := ⟨_, rfl⟩
    obtain ⟨prepared, regs, hprepare, hsound⟩ := Resolution.exists_prepare hr found
    obtain ⟨hextends, hstarted⟩ := Resolution.extends_of_prepare hprepare
    have hpoll := poll_of_prepare ho hprepare (⟨changed, []⟩ : Logged β)
    have hticks : changes.length = prepared.ticksLeft := by
      rw [Resolution.ticksLeft, hextends.wait, hextends.pending]
      exact Nat.succ.inj hlength
    -- the polls to come find a resolution that has been started, so they prepare nothing
    have hlater {after : Cpu} {r' : Resolution} {logged : Logged β}
        (_ : { cpu with registers := found }.poll (⟨changed, []⟩ : Logged β) =
          .ok (none, after, logged))
        (ho' : after.operand = some r') (hr' : r'.Sound) (hstarted' : r'.started = true)
        (hticks' : prepared.ticksLeft = r'.ticksLeft + 1) :
        ∃ polls value last bus', after.polls logged.inner changes = .ok (polls, last, bus') ∧
          r'.Course polls value ∧ last.operand = none ∧
          last.ledger.transactions = after.ledger.transactions ++ r'.pending := by
      obtain ⟨first, later, prepared', regs', value, last, bus', hpolls, hprepare', hcourse,
        hrest⟩ := ih ho' hr' logged.inner (hticks.trans hticks')
      rw [Resolution.prepare_of_started hstarted'] at hprepare'
      cases hprepare'
      exact ⟨first :: later, value, last, bus', hpolls, hcourse, hrest⟩
    rw [← hextends.pending]
    cases hwait : prepared.wait with
    | succ k =>
      have hle := hsound.wait_le
      rw [pollStarted_of_wait hwait] at hpoll
      obtain ⟨polls, value, last, bus', hpolls, hcourse, hoperand, hledger⟩ :=
        hlater hpoll rfl (hsound.withWait (by omega)) hstarted
          (Resolution.ticksLeft_withWait hwait)
      exact ⟨_, polls, prepared, regs, value, last, bus',
        polls_cons (observe_of_poll hchange hpoll (List.append_nil _).symm) hpolls, hprepare,
        .wait k regs changed hwait hcourse, hoperand, hledger⟩
    | zero =>
      cases hpending : prepared.pending with
      | cons c cs =>
        obtain ⟨r', regs', logged, hperform, hnext⟩ :=
          hsound.exists_perform hstarted hpending regs (⟨changed, []⟩ : Logged β)
        rw [pollStarted_of_activity hwait hpending hperform] at hpoll
        have hstarted' := (Resolution.extends_of_perform hperform).started hstarted
        obtain ⟨polls, value, last, bus', hpolls, hcourse, hoperand, hledger⟩ :=
          hlater hpoll rfl hnext hstarted' (Resolution.ticksLeft_next hwait hpending)
        refine ⟨_, polls, prepared, regs, value, last, bus',
          polls_cons (observe_of_poll hchange hpoll rfl) hpolls, hprepare,
          .activity c cs r' regs regs' changed logged hwait hpending hperform hcourse, hoperand,
          ?_⟩
        rw [hledger]
        exact List.append_assoc _ _ _
      | nil =>
        obtain ⟨value, hvalue⟩ := hsound.exists_finish regs
        rw [pollStarted_of_operand hwait hpending hvalue] at hpoll
        rw [Resolution.ticksLeft, hwait, hpending] at hticks
        obtain rfl := List.length_eq_zero_iff.mp hticks
        exact ⟨_, [], prepared, regs, value, _, changed,
          polls_cons (observe_of_poll hchange hpoll (List.append_nil _).symm) rfl, hprepare,
          .operand regs changed hwait hpending hvalue, rfl, (List.append_nil _).symm⟩

end Cpu

end Compare68k
