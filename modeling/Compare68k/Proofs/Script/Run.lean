import Compare68k.Script.Run
/-!
# Runs of statements

How a run of statements is put together from runs of parts of them.  A list of statements runs as
its first part and then, unless the processor has stopped, as its second part.  A run in which the
processor stops has gone through all the statements before some step statement and through some of
its instructions, and the next instruction is the one that stopped it.
-/

namespace Compare68k.Script.Run

variable {β : Type} {r r' : Run β} {b : Break}

def after (before : Array Event) (r : Run β) : Run β :=
  { r with journal := before ++ r.journal }

theorem eq_after (hr : r.stopped = none) :
    r = after r.journal { processor := r.processor, bus := r.bus } := by
  obtain ⟨p, bus, journal, stopped⟩ := r
  cases hr
  rw [after, Array.append_empty]

theorem note_after (before : Array Event) (r : Run β) (e : Event) :
    (r.after before).note e = (r.note e).after before := by
  rw [note, after, note, after, Array.append_push]

theorem result_after (before r : Run β) :
    (r.after before.journal).result = r.result.map (before.reports ++ ·) := by
  rw [result, result, show (r.after before.journal).stopped = r.stopped from rfl]
  cases r.stopped with
  | some cause => rfl
  | none =>
    show Except.ok _ = Except.ok _
    rw [reports, after, Array.toList_append, List.filterMap_append]
    rfl

variable [Bus β]

/-! ## Parts of a run -/

theorem statements_cons_of_act {s : Statement} {list : List Statement}
    (hact : r.act s.action = .ok r') (hr' : r'.stopped = none) :
    statements (s :: list) r = statements list r' := by
  rw [statements, hact]
  dsimp only [bind, Except.bind]
  rw [hr']
  rfl

theorem statements_cons_of_stopped {s : Statement} (list : List Statement)
    (hact : r.act s.action = .ok r') (hr' : r'.stopped = some b) :
    statements (s :: list) r = .ok r' := by
  rw [statements, hact]
  dsimp only [bind, Except.bind]
  rw [hr']
  rfl

theorem steps_succ_of_stepOnce {n : Nat} (hstep : r.stepOnce = .ok r') (hr' : r'.stopped = none) :
    r.steps (n + 1) = r'.steps n := by
  rw [steps, hstep]
  dsimp only [bind, Except.bind]
  rw [hr']
  rfl

theorem statements_append (before after : List Statement) (hr : r.stopped = none) :
    statements (before ++ after) r =
      (statements before r).bind fun r' =>
        if r'.stopped.isSome then .ok r' else statements after r' := by
  induction before generalizing r with
  | nil =>
    show statements after r = if r.stopped.isSome then _ else _
    rw [hr]
    rfl
  | cons s before ih =>
    rw [List.cons_append]
    cases hact : r.act s.action with
    | error fault =>
      rw [statements, statements, hact]
      rfl
    | ok r' =>
      cases hr' : r'.stopped with
      | some b =>
        rw [statements_cons_of_stopped _ hact hr', statements_cons_of_stopped _ hact hr']
        show _ = if r'.stopped.isSome then Except.ok r' else _
        rw [hr']
        rfl
      | none =>
        rw [statements_cons_of_act hact hr', statements_cons_of_act hact hr']
        exact ih hr'

/-! ## Runs after other runs -/

theorem stepOnce_after (before : Array Event) (r : Run β) :
    (r.after before).stepOnce = r.stepOnce.map (after before) := by
  rw [stepOnce, stepOnce, show (r.after before).processor = r.processor from rfl,
    show (r.after before).bus = r.bus from rfl]
  cases r.processor.step r.bus with
  | error fault => rfl
  | ok stepped =>
    obtain ⟨result, p, bus⟩ := stepped
    cases result with
    | error cause => rfl
    | ok report =>
      exact congrArg Except.ok (note_after before { r with processor := p, bus } _)

theorem steps_after (before : Array Event) (n : Nat) (r : Run β) :
    (r.after before).steps n = (r.steps n).map (after before) := by
  induction n generalizing r with
  | zero => rfl
  | succ n ih =>
    rw [steps, steps, stepOnce_after]
    cases r.stepOnce with
    | error fault => rfl
    | ok r' =>
      show (if r'.stopped.isSome then Except.ok (r'.after before) else (r'.after before).steps n) =
        Except.map (after before) (if r'.stopped.isSome then Except.ok r' else r'.steps n)
      split
      · rfl
      · exact ih r'

theorem act_after (before : Array Event) (r : Run β) (a : Action) :
    (r.after before).act a = (r.act a).map (after before) := by
  cases a with
  | set register value =>
    exact congrArg Except.ok
      (note_after before { r with processor := r.processor.setRegister register value } _)
  | poke a words =>
    exact congrArg Except.ok
      (note_after before { r with bus := Bus.writeBytes r.bus a (bytesOf words) } _)
  | step count => exact steps_after before count.toNat r

theorem statements_after (before : Array Event) (list : List Statement) (r : Run β) :
    statements list (r.after before) = (statements list r).map (after before) := by
  induction list generalizing r with
  | nil => rfl
  | cons s list ih =>
    rw [statements, statements, act_after]
    cases r.act s.action with
    | error fault => rfl
    | ok r' =>
      show (if r'.stopped.isSome then Except.ok (r'.after before)
          else statements list (r'.after before)) =
        Except.map (after before) (if r'.stopped.isSome then Except.ok r' else statements list r')
      split
      · rfl
      · exact ih r'

/-! ## Runs that break off -/

/-- A run that has got into a step statement: the statements before it and some of its
instructions have run, and there are more to come. -/
inductive Within (start : Run β) : List Statement → Run β → Prop where
  | intro (before after : List Statement) {s : Statement} {count : UInt32} {r r' : Run β} {k : Nat}
      (action : s.action = .step count) (ran : statements before start = .ok r)
      (going : r.stopped = none) (lt : k < count.toNat) (stepped : r.steps k = .ok r')
      (going' : r'.stopped = none) : Within start (before ++ s :: after) r'

theorem step_of_stepOnce (hr : r.stopped = none) (h : r.stepOnce = .ok r')
    (hr' : r'.stopped = some b) :
    r.processor.step r.bus = .ok (.error b, r'.processor, r'.bus) := by
  obtain ⟨⟨result, p, bus⟩, hstep, h⟩ := exists_of_bind h
  cases result with
  | error cause =>
    cases h
    cases hr'
    exact hstep
  | ok report =>
    cases h
    cases hr.symm.trans hr'

theorem exists_steps_of_stopped {n : Nat} (hr : r.stopped = none) (h : r.steps n = .ok r')
    (hr' : r'.stopped = some b) :
    ∃ k last, k < n ∧ r.steps k = .ok last ∧ last.stopped = none ∧
      last.processor.step last.bus = .ok (.error b, r'.processor, r'.bus) := by
  induction n generalizing r with
  | zero =>
    cases h
    cases hr.symm.trans hr'
  | succ n ih =>
    obtain ⟨r₁, hstep, hrest⟩ := exists_of_bind h
    cases hr₁ : r₁.stopped with
    | some cause =>
      rw [hr₁] at hrest
      cases hrest
      exact ⟨0, r, by omega, rfl, hr, step_of_stepOnce hr hstep hr'⟩
    | none =>
      rw [hr₁] at hrest
      obtain ⟨k, last, hk, hsteps, hlast, hbreak⟩ := ih hr₁ hrest
      refine ⟨k + 1, last, by omega, ?_, hlast, hbreak⟩
      rw [steps_succ_of_stepOnce hstep hr₁, hsteps]

theorem exists_step_of_act {a : Action} (hr : r.stopped = none) (h : r.act a = .ok r')
    (hr' : r'.stopped = some b) : ∃ count, a = .step count := by
  cases a with
  | set register value =>
    cases h
    cases hr.symm.trans hr'
  | poke a words =>
    cases h
    cases hr.symm.trans hr'
  | step count => exact ⟨count, rfl⟩

theorem exists_within_of_stopped {list : List Statement} (hr : r.stopped = none)
    (h : statements list r = .ok r') (hr' : r'.stopped = some b) :
    ∃ last, Within r list last ∧
      last.processor.step last.bus = .ok (.error b, r'.processor, r'.bus) := by
  induction list generalizing r with
  | nil =>
    cases h
    cases hr.symm.trans hr'
  | cons s list ih =>
    obtain ⟨r₁, hact, hrest⟩ := exists_of_bind h
    cases hr₁ : r₁.stopped with
    | some cause =>
      rw [hr₁] at hrest
      cases hrest
      obtain ⟨count, hstep⟩ := exists_step_of_act hr hact hr'
      rw [hstep] at hact
      obtain ⟨k, last, hk, hsteps, hlast, hbreak⟩ := exists_steps_of_stopped hr hact hr'
      exact ⟨last, .intro [] list hstep rfl hr hk hsteps hlast, hbreak⟩
    | none =>
      rw [hr₁] at hrest
      obtain ⟨last, hwithin, hbreak⟩ := ih hr₁ hrest
      cases hwithin with
      | intro before after action ran going lt stepped going' =>
        have hran := (statements_cons_of_act hact hr₁).trans ran
        exact ⟨last, .intro (s :: before) after action hran going lt stepped going', hbreak⟩

end Compare68k.Script.Run
