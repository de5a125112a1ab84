import Compare68k.Proofs.Processor.ListedRun
import Compare68k.Proofs.Script.Run
/-!
# The moments of a run

A run to the end of a script executes as many instructions as its step statements ask for.  Main
statement: each of them has its moment in the run, in which the processor steps over the instruction
that memory holds just then at the program counter, and the journal has them in the order of the
statements, with their lines as they stood.
-/

namespace Compare68k.Script

def Action.instructions : Action → Nat
  | step count => count.toNat
  | set _ _ | poke _ _ => 0

def instructions (list : List Statement) : Nat :=
  (list.map fun s => s.action.instructions).sum

namespace Run

variable {β : Type}

/-- The instructions that were run, each with its line as it stood just then. -/
def executions (r : Run β) : List (Report × Line) :=
  r.journal.toList.filterMap fun
    | .executed report line => some (report, line)
    | .assigned _ _ | .poked _ _ => none

theorem reports_eq (r : Run β) : r.reports = r.executions.map Prod.fst := by
  rw [reports, executions, List.map_filterMap]
  congr 1
  funext e
  cases e <;> rfl

theorem executions_note (r : Run β) (e : Event) :
    (r.note e).executions = r.executions ++
      (match e with
        | .executed report line => [(report, line)]
        | .assigned _ _ | .poked _ _ => []) := by
  rw [executions, note, Array.toList_push, List.filterMap_append]
  cases e <;> rfl

/-- A processor between instructions and a memory that its address lines tell apart. -/
structure Ready (t : Table) (r : Run Ram) : Prop where
  table : r.processor.table = t
  between : r.processor.Between
  bits : r.bus.bits ≤ 24

/-- A run is about to step over an instruction. -/
structure Moment (t : Table) (r : Run Ram) (report : Report) (line : Line) : Prop where
  step : ∃ processor, r.processor.step r.bus = .ok (.ok report, processor, r.bus)
  address : report.address = r.processor.registers.pc
  opcode : report.opcode = Bus.peekWord r.bus report.address
  listed : line = t.disassemble (Bus.peekWord r.bus) report.address
  code : line.mnemonic ≠ "DC.W"

variable {t : Table} {r r' : Run Ram}

theorem Ready.standsAt (h : r.Ready t) : r.processor.StandsAt t r.processor.registers.pc :=
  ⟨h.table, h.between, rfl⟩

/-! ## Steps -/

theorem Ready.stepOnce (h : r.Ready t) (hstep : r.stepOnce = .ok r') (hr' : r'.stopped = none) :
    r'.Ready t ∧ ∃ report line, r.Moment t report line ∧
      r'.executions = r.executions ++ [(report, line)] := by
  obtain ⟨⟨result, p, bus⟩, hs, hrest⟩ := exists_of_bind hstep
  by_cases hcode : (t.disassemble (Bus.peekWord r.bus) r.processor.registers.pc).mnemonic = "DC.W"
  · cases (h.standsAt.step_of_data h.bits hcode).symm.trans hs
    cases hrest
    cases hr'
  · obtain ⟨report, q, hq, haddress, hopcode, hstands⟩ := h.standsAt.step h.bits hcode
    cases hq.symm.trans hs
    cases hrest
    have hline : p.disassemble r.bus report.address =
        t.disassemble (Bus.peekWord r.bus) report.address := by
      rw [Processor.disassemble, hstands.table]
    rw [← haddress] at hopcode hcode
    refine ⟨⟨hstands.table, hstands.between, h.bits⟩, report, _,
      ⟨⟨p, hs⟩, haddress, hopcode, rfl, hcode⟩, ?_⟩
    rw [executions_note, hline]
    rfl

theorem Ready.steps {n : Nat} (h : r.Ready t) (hr : r.stopped = none) (hsteps : r.steps n = .ok r')
    (hr' : r'.stopped = none) :
    r'.Ready t ∧ ∃ more, r'.executions = r.executions ++ more ∧ more.length = n ∧
      ∀ k < n, ∃ last report line, r.steps k = .ok last ∧ last.Moment t report line ∧
        more[k]? = some (report, line) := by
  induction n generalizing r with
  | zero =>
    cases hsteps
    exact ⟨h, [], (List.append_nil _).symm, rfl, fun k hk => absurd hk (Nat.not_lt_zero k)⟩
  | succ n ih =>
    obtain ⟨r₁, hstep, hrest⟩ := exists_of_bind hsteps
    cases hr₁ : r₁.stopped with
    | some cause =>
      rw [hr₁] at hrest
      cases hrest
      cases hr₁.symm.trans hr'
    | none =>
      rw [hr₁] at hrest
      obtain ⟨hready, report, line, hmoment, hfirst⟩ := h.stepOnce hstep hr₁
      obtain ⟨hready', more, hmore, hlength, hlater⟩ := ih hready hr₁ hrest
      refine ⟨hready', (report, line) :: more, ?_, congrArg (· + 1) hlength, fun k hk => ?_⟩
      · rw [hmore, hfirst, List.append_assoc]
        rfl
      · cases k with
        | zero => exact ⟨r, report, line, rfl, hmoment, rfl⟩
        | succ k =>
          obtain ⟨last, report', line', hlast, hmoment', hget⟩ :=
            hlater k (Nat.lt_of_succ_lt_succ hk)
          exact ⟨last, report', line', (steps_succ_of_stepOnce hstep hr₁).trans hlast, hmoment',
            hget⟩

/-! ## Statements -/

theorem between_setRegister {p : Processor} (h : p.Between) (register : Register)
    (value : UInt32) : (p.setRegister register value).Between := by
  cases register with
  | pc => exact ⟨rfl, rfl, rfl⟩
  | data n | address n | sr | ccr => exact ⟨h.current, h.progress, h.operand⟩

theorem bits_writeBytes (ram : Ram) (a : Address) (bytes : List UInt8) :
    (Bus.writeBytes ram a bytes).bits = ram.bits := by
  induction bytes generalizing ram a with
  | nil => rfl
  | cons b bytes ih =>
    rw [Bus.writeBytes, ih]
    rfl

theorem Ready.act {a : Action} (h : r.Ready t) (hr : r.stopped = none) (hact : r.act a = .ok r')
    (hr' : r'.stopped = none) :
    r'.Ready t ∧ ∃ more, r'.executions = r.executions ++ more ∧ more.length = a.instructions ∧
      ∀ count, a = .step count → ∀ k < count.toNat, ∃ last report line, r.steps k = .ok last ∧
        last.Moment t report line ∧ more[k]? = some (report, line) := by
  cases a with
  | set register value =>
    cases hact
    refine ⟨⟨?_, between_setRegister h.between register value, h.bits⟩, [], ?_, rfl,
      fun count hcount => nomatch hcount⟩
    · rw [← h.table]
      cases register <;> rfl
    · exact executions_note _ _
  | poke a words =>
    cases hact
    refine ⟨⟨h.table, h.between, ?_⟩, [], executions_note _ _, rfl,
      fun count hcount => nomatch hcount⟩
    exact (bits_writeBytes r.bus a (bytesOf words)).trans_le h.bits
  | step count =>
    obtain ⟨hready, more, hmore, hlength, hmoments⟩ := h.steps hr hact hr'
    refine ⟨hready, more, hmore, hlength, fun count' heq => ?_⟩
    cases heq
    exact hmoments

/-- Every instruction that the statements ask for has its moment. -/
theorem Ready.statements {list : List Statement} (h : r.Ready t) (hr : r.stopped = none)
    (hrun : statements list r = .ok r') (hr' : r'.stopped = none) :
    r'.Ready t ∧ ∃ more, r'.executions = r.executions ++ more ∧
      more.length = instructions list ∧
      ∀ before s after count, list = before ++ s :: after → s.action = .step count →
        ∀ k < count.toNat, ∃ r₁ last report line, Run.statements before r = .ok r₁ ∧
          r₁.steps k = .ok last ∧ last.Moment t report line ∧
          more[instructions before + k]? = some (report, line) := by
  -- on the statements: what the first executes stands before what the others execute
  induction list generalizing r with
  | nil =>
    cases hrun
    refine ⟨h, [], (List.append_nil _).symm, rfl, fun before s after count hlist => ?_⟩
    cases before <;> cases hlist
  | cons s list ih =>
    obtain ⟨r₁, hact, hrest⟩ := exists_of_bind hrun
    cases hr₁ : r₁.stopped with
    | some cause =>
      rw [hr₁] at hrest
      cases hrest
      cases hr₁.symm.trans hr'
    | none =>
      rw [hr₁] at hrest
      obtain ⟨hready, first, hfirst, hlength, hmoments⟩ := h.act hr hact hr₁
      obtain ⟨hready', more, hmore, hlength', hmoments'⟩ := ih hready hr₁ hrest
      have hall : (first ++ more).length = instructions (s :: list) := by
        rw [List.length_append, hlength, hlength']
        rfl
      refine ⟨hready', first ++ more, ?_, hall, fun before s' after count hlist haction k hk => ?_⟩
      · rw [hmore, hfirst, List.append_assoc]
      · cases before with
        | nil =>
          obtain ⟨rfl, rfl⟩ := List.cons.inj hlist
          obtain ⟨last, report, line, hlast, hmoment, hget⟩ := hmoments count haction k hk
          refine ⟨r, last, report, line, rfl, hlast, hmoment, ?_⟩
          have hlt : k < first.length := by
            rw [hlength, haction]
            exact hk
          have hzero : instructions [] + k = k := Nat.zero_add k
          rw [hzero, List.getElem?_append_left hlt, hget]
        | cons s'' before =>
          obtain ⟨rfl, rfl⟩ := List.cons.inj hlist
          obtain ⟨r₂, last, report, line, hr₂, hlast, hmoment, hget⟩ :=
            hmoments' before s' after count rfl haction k hk
          refine ⟨r₂, last, report, line, (statements_cons_of_act hact hr₁).trans hr₂, hlast,
            hmoment, ?_⟩
          have hindex : instructions (s :: before) + k =
              first.length + (instructions before + k) := by
            rw [hlength, ← Nat.add_assoc]
            rfl
          rw [hindex, List.getElem?_append_right (Nat.le_add_right _ _), Nat.add_sub_cancel_left,
            hget]

end Run

end Compare68k.Script
