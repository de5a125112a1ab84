import Compare68k.Proofs.Operand.Calls
import Compare68k.Proofs.Processor.Carried
/-!
# The ledger and the bus

What the ledger says of an instruction, against the accesses that its ticks make.  The two are
shifted by one: the opcode is read and not recorded, and the prefetch of the next opcode is recorded
and not made.  Between them each recorded activity that is not idle is one access, made in the tick
that records it.  Main statement: after any number of ticks of an undisturbed instruction, the
accesses are the opcode's and those that the recorded activities ask for.
-/

namespace Compare68k

variable {β : Type} [Bus β]

namespace Instruction

/-- The calls that bring in the operands of an instruction, with the program counter behind its
opcode.  The extension words of the destination follow those of the source. -/
structure Calls (i : Instruction) (regs : Registers) (source destination : List Call) : Prop where
  sourceRequests : source.map Call.request =
    Cycle.requests i.size (i.source.address i.size (Call.wordsRead source) regs) regs.pc
      (i.source.pattern i.size)
  destinationRequests : destination.map Call.request =
    Cycle.requests i.width
      (i.destination.address i.width (Call.wordsRead destination) (i.source.after i.size regs))
      (regs.pc + 2 * UInt32.ofNat ((i.source.pattern i.size).count .prefetch))
      (i.destination.pattern i.width)
  isRead : ∀ call ∈ source ++ destination, call.request.isRead = true

/-- The accesses in the ledger that are for operands.  The prefetch of the next opcode and the
closing cycle come after all of these. -/
def operandAccesses (i : Instruction) (ledger : Ledger) : Nat :=
  Cycle.accesses (ledger.transactions.take i.operandPattern.length)

variable {i : Instruction} {op : Opcode} {k : Nat} {cpu : Cpu} {regs : Registers}
  {source destination : List Call} {bus last : Logged β}

theorem calls_of_operands (hsource : i.source.Calls i.size regs source)
    (hdestination : i.destination.Calls i.width (i.source.after i.size regs) destination) :
    i.Calls regs source destination := by
  refine ⟨hsource, ?_, fun call hcall => ?_⟩
  · rw [Mode.count_prefetch_pattern, ← Mode.pc_after]
    exact hdestination
  · rcases List.mem_append.mp hcall with hmem | hmem
    · exact hsource.isRead hmem
    · exact hdestination.isRead hmem

theorem fromSource_eq_read (hd : i.Decoded op) (regs : Registers) (bus : β) :
    ∃ regs', i.fromSource (.ofMode i.source i.size) regs bus =
      .ok (regs', (i.destination.read i.width (i.source.after i.size regs)
        (i.source.read i.size regs bus).2).2) := by
  rw [fromSource, Resolution.resolve_eq_read hd.source_wellFormed]
  dsimp only [bind, Except.bind]
  rw [fromDestination, Resolution.resolve_eq_read hd.destination_wellFormed]
  exact ⟨_, rfl⟩

theorem exists_calls (hd : i.Decoded op) (regs : Registers) (bus : Logged β) :
    ∃ source destination regs' last,
      i.fromSource (.ofMode i.source i.size) regs bus = .ok (regs', last) ∧
        last.calls = bus.calls ++ (source ++ destination) ∧ i.Calls regs source destination ∧
        (source ++ destination).length = Cycle.accesses i.operandPattern := by
  obtain ⟨regs', hfrom⟩ := fromSource_eq_read hd regs bus
  obtain ⟨source, hsource, hsourceCalls⟩ := i.source.exists_calls i.size regs bus
  obtain ⟨destination, hdestination, hdestinationCalls⟩ :=
    i.destination.exists_calls i.width (i.source.after i.size regs)
      (i.source.read i.size regs bus).2
  refine ⟨source, destination, regs', _, hfrom, ?_,
    calls_of_operands hsourceCalls hdestinationCalls, ?_⟩
  · rw [hdestination, hsource, List.append_assoc]
  · rw [List.length_append, hsourceCalls.length, hdestinationCalls.length, operandPattern_eq hd,
      Cycle.accesses_append]

/-! ## The accesses still to come -/

theorem grown_of_fromDestination {value : UInt32} {r : Resolution} {regs' : Registers}
    (hr : r.Sound) (h : i.fromDestination value r regs bus = .ok (regs', last)) :
    bus.Grown last (Cycle.accesses r.pending) := by
  obtain ⟨⟨v, regs₁, bus₁⟩, hresolve, h⟩ := exists_of_bind h
  cases h
  exact hr.grown_of_resolve hresolve

theorem operandAccesses_of_isPrefix {ledger : Ledger}
    (h : ledger.transactions <+: i.operandPattern) :
    i.operandAccesses ledger = Cycle.accesses ledger.transactions := by
  rw [operandAccesses, List.take_of_length_le h.length_le]

theorem operandAccesses_of_append {ledger : Ledger} {closing : List Cycle}
    (h : ledger.transactions = i.operandPattern ++ closing) :
    i.operandAccesses ledger = Cycle.accesses i.operandPattern := by
  rw [operandAccesses, h, List.take_left]

def Outstanding (i : Instruction) (cpu : Cpu) (bus last : Logged β) : Prop :=
  ∃ n, bus.Grown last n ∧ i.operandAccesses cpu.ledger + n = Cycle.accesses i.operandPattern

theorem Underway.outstanding (hd : i.Decoded op) (h : i.Underway k cpu)
    (hremaining : i.remaining cpu bus = .ok (regs, last)) : i.Outstanding cpu bus last := by
  have hall := operandPattern_eq hd
  cases h with
  | source r progress reads =>
    rw [remaining, progress, reads.operand] at hremaining
    obtain ⟨⟨v, regs₁, bus₁⟩, hresolve, hrest⟩ := exists_of_bind hremaining
    have hfirst := reads.sound.grown_of_resolve hresolve
    have hsecond := grown_of_fromDestination
      (Resolution.sound_ofMode i.width hd.destination_wellFormed) hrest
    have hlog := reads.transactions
    rw [List.nil_append] at hlog
    have hpattern : i.operandPattern =
        cpu.ledger.transactions ++ (r.pending ++ i.destination.pattern i.width) := by
      rw [hall, ← hlog, List.append_assoc]
    refine ⟨_, hfirst.trans hsecond, ?_⟩
    rw [operandAccesses_of_isPrefix ⟨_, hpattern.symm⟩, hpattern, Cycle.accesses_append,
      Cycle.accesses_append]
    rfl
  | destination value r progress reads =>
    rw [remaining, progress, reads.operand] at hremaining
    have hlog := reads.transactions
    rw [← hall] at hlog
    refine ⟨_, grown_of_fromDestination reads.sound hremaining, ?_⟩
    rw [operandAccesses_of_isPrefix ⟨_, hlog⟩, ← Cycle.accesses_append, hlog]
  | tail progress operand closes transactions =>
    rw [remaining, progress] at hremaining
    cases hremaining
    exact ⟨0, .refl _, operandAccesses_of_append transactions⟩

theorem Complete.outstanding (h : i.Complete k cpu)
    (hremaining : i.remaining cpu bus = .ok (regs, last)) : i.Outstanding cpu bus last := by
  rw [h.remaining] at hremaining
  cases hremaining
  exact ⟨0, .refl _, operandAccesses_of_append h.transactions⟩

theorem accesses_schedule (i : Instruction) :
    Cycle.accesses i.schedule = Cycle.accesses i.operandPattern + 1 := by
  rw [schedule, Cycle.accesses_append]
  cases i.closes <;> rfl

end Instruction

namespace Processor

variable {t : Table} {p : Processor} {f : InFlight} {i : Instruction} {k : Nat}

theorem Ticked.outstanding {done : Option InFlight} {regs : Registers} {bus last : Logged β}
    (hd : i.Decoded f.opcode) (h : Ticked t f i k p done)
    (hremaining : i.remaining p.cpu bus = .ok (regs, last)) : i.Outstanding p.cpu bus last := by
  cases h with
  | underway h => exact h.underway.outstanding hd hremaining
  | complete current h => exact h.outstanding hremaining

/-- Calls that lead to the same end, with so many of them left, are the first of them. -/
theorem calls_eq_take {before made left operands : List Call} {n : Nat}
    (h : made ++ left = before ++ operands) (hlength : n + left.length = operands.length) :
    made = before ++ operands.take n := by
  have hsplit : made ++ left = (before ++ operands.take n) ++ operands.drop n := by
    rw [h, List.append_assoc, List.take_append_drop]
  refine List.append_inj_left' hsplit ?_
  rw [List.length_drop]
  omega

/-- The ledger is faithful to the bus. -/
theorem calls_of_ticks (hp : Reachable t p) (hmid : p.isMidInstruction = false) (bus : Logged β)
    (hi : t.lookup (Bus.readWord bus.inner p.registers.pc).1 = some i) :
    ∃ opcode source destination,
      opcode = .readWord p.registers.pc (Bus.readWord bus.inner p.registers.pc).1 ∧
      i.Calls (p.registers.skip 1) source destination ∧ 0 < i.ticks ∧
      ∀ n, 0 < n → n ≤ i.ticks → ∃ q bus',
        p.ticks bus n = .ok (.ok (), q, bus') ∧
        p.ticks bus.inner n = .ok (.ok (), q, bus'.inner) ∧
        bus'.calls = bus.calls ++
          opcode :: (source ++ destination).take (i.operandAccesses q.cpu.ledger) ∧
        (q.isMidInstruction = false ↔ n = i.ticks) ∧
        (n = i.ticks →
          q.cpu.ledger.transactions =
            i.source.pattern i.size ++ i.destination.pattern i.width ++
              .prefetch :: (if i.closes then [.idle] else []) ∧
          bus'.calls = bus.calls ++ opcode :: (source ++ destination) ∧
          bus'.calls.length =
            bus.calls.length + Cycle.accesses q.cpu.ledger.transactions) := by
  have htable : p.table = t := hp.consistent.table
  obtain ⟨f, p₁, bus₁, done, htaking, hfrom⟩ := (hp.between hmid).taking bus (htable ▸ hi)
  have hd := htaking.decoded
  obtain ⟨source, destination, regs, last, hsource, hlast, hcalls, hlength⟩ :=
    Instruction.exists_calls hd (p.registers.skip 1) (Bus.readWord bus p.registers.pc).2
  refine ⟨_, source, destination, rfl, hcalls, (htaking.ticked.le hd).1, fun n hpos hn => ?_⟩
  obtain ⟨m, rfl⟩ := Nat.exists_eq_succ_of_ne_zero (Nat.ne_of_gt hpos)
  obtain ⟨q, bus', done', hticks, -, hticked, hremaining⟩ :=
    ticks_of_taking m htaking (by omega)
  rw [Nat.zero_add] at hticked
  obtain ⟨left, ⟨calls, hleft, rfl⟩, hsum⟩ :=
    hticked.outstanding hd (hremaining.trans (hfrom.trans hsource))
  have hmade : bus'.calls = (Bus.readWord bus p.registers.pc).2.calls ++
      (source ++ destination).take (i.operandAccesses q.cpu.ledger) := by
    refine calls_eq_take (hleft.symm.trans hlast) ?_
    rw [hsum, hlength]
  have hopened : bus'.calls = bus.calls ++
      .readWord p.registers.pc (Bus.readWord bus.inner p.registers.pc).1 ::
        (source ++ destination).take (i.operandAccesses q.cpu.ledger) := by
    rw [hmade]
    exact List.append_assoc _ _ _
  refine ⟨q, bus', hticks, ticks_inner hticks, hopened, (hticked.le hd).2.symm, fun heq => ?_⟩
  have htransactions := (hticked.complete_of_eq heq).2.transactions
  rw [Instruction.operandAccesses_of_append htransactions, ← hlength, List.take_length] at hopened
  refine ⟨?_, hopened, ?_⟩
  · rw [htransactions, Instruction.schedule, Instruction.operandPattern_eq hd]
  · rw [hopened, List.length_append, List.length_cons, hlength, htransactions,
      Instruction.accesses_schedule]

/-- CMPI.W #0,(A0) reads its opcode, its constant and the word at the start of memory. -/
theorem calls_of_ticks_constant :
    ∃ q bus', (ofTable .standard).ticks
        (⟨(Ram.zeroed 4 (by decide)).setWord 0 0x0C50, []⟩ : Logged Ram) 5 = .ok (.ok (), q, bus') ∧
      bus'.calls.map Call.request = [.readWord 0, .readWord 2, .readWord 0] ∧
      q.cpu.ledger.transactions = [.prefetch, .read, .prefetch] := by
  let ram := (Ram.zeroed 4 (by decide)).setWord 0 0x0C50
  have hi : Table.standard.lookup
      (Bus.readWord ram (ofTable .standard).registers.pc).1 =
        some ⟨.cmpi, .word, .immediate, .indirect 0⟩ := by decide
  obtain ⟨opcode, source, destination, rfl, hcalls, -, hticks⟩ :=
    calls_of_ticks .fresh rfl ⟨ram, []⟩ hi
  obtain ⟨q, bus', hrun, -, -, -, hend⟩ := hticks 5 (by decide) (by decide)
  obtain ⟨htransactions, hbus, -⟩ := hend rfl
  refine ⟨q, bus', hrun, ?_, htransactions⟩
  have hsource : source.map Call.request = [.readWord 2] := hcalls.sourceRequests
  have hdestination : destination.map Call.request = [.readWord 0] := hcalls.destinationRequests
  rw [hbus, List.nil_append, List.map_cons, List.map_append, hsource, hdestination]
  rfl

end Processor

end Compare68k
