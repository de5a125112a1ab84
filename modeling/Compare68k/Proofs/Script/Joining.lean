import Compare68k.Bus.Ram
import Compare68k.Proofs.Script.Relocation
import Compare68k.Proofs.Script.Run
import Mathlib.Control.Monad.Basic
/-!
# Two scripts with a line break between them

Main statement: two texts with a line break between them are read as the first and then the
second, which is only further down, and are run as the first and then, unless it stopped the
processor, the second.
-/

namespace Compare68k.Script

/-! ## Lines -/

def clauses? (stop : Span) (ts : List Token) : Option (List Clause) :=
  (clauses (linesFrom stop [] ts)).toOption

/-- The clause of a line, which an empty line does without. -/
def lineClauses? (line : List Token) : Option (List Clause) :=
  if line.isEmpty then some [] else (clause line).toOption.map fun c => [c]

theorem toOption_clause_sourceLine (line : List Token) (place : Span) :
    (SourceLine.clause ⟨line, place⟩).toOption = (clause line).toOption := by
  rw [SourceLine.clause]
  dsimp only
  split <;> rename_i hclause <;> rw [hclause] <;> rfl

theorem toOption_clauses_cons (line : List Token) (place : Span) (ls : List SourceLine) :
    (clauses (⟨line, place⟩ :: ls)).toOption =
      (lineClauses? line).bind fun cs => (clauses ls).toOption.map (cs ++ ·) := by
  cases line with
  | nil =>
    rw [clauses_cons_empty]
    cases clauses ls <;> rfl
  | cons t line =>
    rw [clauses_cons_of_ne_nil (List.cons_ne_nil t line), lineClauses?,
      if_neg (by simp), ← toOption_clause_sourceLine (t :: line) place]
    cases SourceLine.clause ⟨t :: line, place⟩ with
    | error e => rfl
    | ok c => cases clauses ls <;> rfl

theorem clauses?_of_line {line : List Token} (hline : Unbroken line) (stop : Span) :
    clauses? stop line = lineClauses? line := by
  rw [clauses?, linesFrom_of_line hline]
  cases line with
  | nil => rfl
  | cons t line =>
    rw [if_neg (by simp), toOption_clauses_cons]
    cases lineClauses? (t :: line) with
    | none => rfl
    | some cs => exact congrArg some (List.append_nil cs)

theorem clauses?_append_break {line : List Token} (hline : Unbroken line) (stop place : Span)
    (ts : List Token) :
    clauses? stop (line ++ ⟨place, .linebreak⟩ :: ts) =
      (lineClauses? line).bind fun cs => (clauses? stop ts).map (cs ++ ·) := by
  rw [clauses?, linesFrom_append hline, List.nil_append, linesFrom_break, toOption_clauses_cons]
  rfl

theorem clauses?_congr (stop stop' : Span) (ts : List Token) :
    clauses? stop ts = clauses? stop' ts := by
  induction ts using lines_induction with
  | last line hline => rw [clauses?_of_line hline, clauses?_of_line hline]
  | more line place ts hline ih =>
    rw [clauses?_append_break hline, clauses?_append_break hline, ih]

theorem clauses?_append (stop stop₁ stop₂ place : Span) (ts₁ ts₂ : List Token) :
    clauses? stop (ts₁ ++ ⟨place, .linebreak⟩ :: ts₂) =
      (clauses? stop₁ ts₁).bind fun cs₁ => (clauses? stop₂ ts₂).map (cs₁ ++ ·) := by
  induction ts₁ using lines_induction with
  | last line hline =>
    rw [clauses?_append_break hline, clauses?_of_line hline, clauses?_congr stop stop₂]
  | more line place' ts hline ih =>
    rw [List.append_assoc, List.cons_append, clauses?_append_break hline,
      clauses?_append_break hline, ih]
    cases lineClauses? line with
    | none => rfl
    | some cs =>
      cases clauses? stop₁ ts with
      | none => rfl
      | some cs₁ =>
        cases clauses? stop₂ ts₂ with
        | none => rfl
        | some cs₂ => exact congrArg some (List.append_assoc cs cs₁ cs₂).symm

theorem lineClauses?_relocate {f g : Span → Span} (hg : ∀ s, g (f s) = s) (line : List Token) :
    lineClauses? (line.map (·.relocate f)) =
      (lineClauses? line).map fun cs => cs.map (·.relocate f) := by
  cases line with
  | nil => rfl
  | cons t line =>
    rw [lineClauses?, lineClauses?, if_neg (by simp), if_neg (by simp),
      toOption_clause_relocate hg]
    cases (clause (t :: line)).toOption <;> rfl

theorem Unbroken.relocate {line : List Token} (hline : Unbroken line) (f : Span → Span) :
    Unbroken (line.map (·.relocate f)) := by
  intro t ht
  obtain ⟨u, hu, rfl⟩ := List.mem_map.mp ht
  exact hline u hu

theorem clauses?_relocate {f g : Span → Span} (hg : ∀ s, g (f s) = s) (stop stop' : Span)
    (ts : List Token) :
    clauses? stop (ts.map (·.relocate f)) =
      (clauses? stop' ts).map fun cs => cs.map (·.relocate f) := by
  induction ts using lines_induction with
  | last line hline =>
    rw [clauses?_of_line (hline.relocate f), clauses?_of_line hline,
      lineClauses?_relocate hg]
  | more line place ts hline ih =>
    rw [List.map_append, List.map_cons,
      show Token.relocate f ⟨place, .linebreak⟩ = ⟨f place, .linebreak⟩ from rfl,
      clauses?_append_break (hline.relocate f), clauses?_append_break hline,
      lineClauses?_relocate hg, ih]
    cases lineClauses? line with
    | none => rfl
    | some cs =>
      cases clauses? stop' ts with
      | none => rfl
      | some cs' => exact congrArg some List.map_append.symm

/-! ## Reading -/

def joined (s₁ s₂ : String) : String :=
  s₁ ++ "\n" ++ s₂

/-- Where the places of a second text are behind a first one and a line break. -/
def further (s₁ : String) : Span → Span :=
  Span.shift (s₁.utf8ByteSize + 1)

def Span.unshift (k : Nat) (s : Span) : Span :=
  ⟨s.start - k, s.stop - k, Nat.sub_le_sub_right s.start_le_stop k⟩

theorem unshift_shift (k : Nat) (s : Span) : (s.shift k).unshift k = s := by
  simp only [Span.shift, Span.unshift, Nat.add_sub_cancel]

theorem reads_iff_clauses? {source : String} {cs : List Clause} (stop : Span) :
    Reads source cs ↔
      complaints (lex source) = [] ∧ clauses? stop (values (lex source)) = some cs := by
  rw [clauses?_congr stop (.point source.utf8ByteSize), clauses?]
  constructor
  · intro h
    have hcs : clauses (linesFrom (.point source.utf8ByteSize) [] (values (lex source))) = .ok cs :=
      h.clauses
    rw [hcs]
    exact ⟨h.lexed, rfl⟩
  · rintro ⟨hlex, hcs⟩
    refine ⟨hlex, ?_⟩
    rw [sourceLines]
    cases hclauses : clauses (linesFrom (.point source.utf8ByteSize) [] (values (lex source))) with
    | error e =>
      rw [hclauses] at hcs
      cases hcs
    | ok cs' =>
      rw [hclauses] at hcs
      cases hcs
      rfl

theorem reads_joined_iff {s₁ s₂ : String} {cs : List Clause} :
    Reads (joined s₁ s₂) cs ↔
      ∃ cs₁ cs₂, Reads s₁ cs₁ ∧ Reads s₂ cs₂ ∧ cs = cs₁ ++ cs₂.map (·.relocate (further s₁)) := by
  -- The three texts end in different places, which only complaints depend on.
  let stop := Span.point 0
  have hcomplaints : complaints (lex (joined s₁ s₂)) =
      complaints (lex s₁) ++ (complaints (lex s₂)).map (·.relocate (further s₁)) := by
    rw [joined, lex_append_newline, complaints_append]
    exact congrArg _ (complaints_relocate _ _ _)
  have hvalues : values (lex (joined s₁ s₂)) =
      values (lex s₁) ++
        ⟨⟨s₁.utf8ByteSize, s₁.utf8ByteSize + 1, Nat.le_succ _⟩, .linebreak⟩ ::
          (values (lex s₂)).map (·.relocate (further s₁)) := by
    rw [joined, lex_append_newline, values_append]
    exact congrArg (values (lex s₁) ++ _ :: ·) (values_relocate _ _ _)
  have hclauses : clauses? stop (values (lex (joined s₁ s₂))) =
      (clauses? stop (values (lex s₁))).bind fun cs₁ =>
        (clauses? stop (values (lex s₂))).map fun cs₂ =>
          cs₁ ++ cs₂.map (·.relocate (further s₁)) := by
    rw [hvalues, clauses?_append stop stop stop,
      clauses?_relocate (f := further s₁) (unshift_shift _) stop stop]
    cases clauses? stop (values (lex s₁)) with
    | none => rfl
    | some cs₁ => cases clauses? stop (values (lex s₂)) <;> rfl
  simp only [reads_iff_clauses? stop, hcomplaints, hclauses, List.append_eq_nil_iff,
    List.map_eq_nil_iff, Option.bind_eq_some_iff, Option.map_eq_some_iff]
  constructor
  · rintro ⟨⟨hlex₁, hlex₂⟩, cs₁, hcs₁, cs₂, hcs₂, rfl⟩
    exact ⟨cs₁, cs₂, ⟨hlex₁, hcs₁⟩, ⟨hlex₂, hcs₂⟩, rfl⟩
  · rintro ⟨cs₁, cs₂, ⟨hlex₁, hcs₁⟩, ⟨hlex₂, hcs₂⟩, rfl⟩
    exact ⟨⟨hlex₁, hlex₂⟩, cs₁, hcs₁, cs₂, hcs₂, rfl⟩

theorem map_check_joined (s₁ : String) (cs₁ cs₂ : List Clause) :
    (cs₁ ++ cs₂.map (·.relocate (further s₁))).map Clause.check =
      cs₁.map Clause.check ++
        (cs₂.map Clause.check).map (relocateResult Statement.relocate (further s₁)) := by
  rw [List.map_append, List.map_map, List.map_map]
  congr 1
  refine List.map_congr_left fun c _ => ?_
  exact check_relocate (merge_shift (s₁.utf8ByteSize + 1)) c

def mistakes : Except (List Complaint) (List Statement) → List Complaint
  | .ok _ => []
  | .error es => es

theorem Reads.mistakes {source : String} {cs : List Clause} (h : Reads source cs) :
    mistakes (Script.parse source) = complaints (cs.map Clause.check) := by
  rw [h.parse]
  split
  · rename_i hnil
    exact hnil.symm
  · rfl

theorem Reads.parse_eq_ok_iff {source : String} {cs : List Clause} (h : Reads source cs)
    {list : List Statement} :
    Script.parse source = .ok list ↔
      complaints (cs.map Clause.check) = [] ∧ list = values (cs.map Clause.check) := by
  rw [h.parse]
  split
  · rename_i hnil
    simp [hnil, eq_comm]
  · rename_i hne
    simp [hne]

theorem parse_joined_of_parse {s₁ s₂ : String} {list₁ list₂ : List Statement}
    (h₁ : parse s₁ = .ok list₁) (h₂ : parse s₂ = .ok list₂) :
    parse (joined s₁ s₂) = .ok (list₁ ++ list₂.map (·.relocate (further s₁))) := by
  obtain ⟨cs₁, hreads₁⟩ := exists_reads_of_parse h₁
  obtain ⟨cs₂, hreads₂⟩ := exists_reads_of_parse h₂
  obtain ⟨hnil₁, rfl⟩ := hreads₁.parse_eq_ok_iff.mp h₁
  obtain ⟨hnil₂, rfl⟩ := hreads₂.parse_eq_ok_iff.mp h₂
  have hreads := reads_joined_iff.mpr ⟨cs₁, cs₂, hreads₁, hreads₂, rfl⟩
  rw [hreads.parse_eq_ok_iff, map_check_joined, complaints_append, complaints_relocate,
    values_append, values_relocate, hnil₁, hnil₂]
  exact ⟨rfl, rfl⟩

theorem parse_of_parse_joined {s₁ s₂ : String} {list : List Statement}
    (h : parse (joined s₁ s₂) = .ok list) :
    (∃ list₁, parse s₁ = .ok list₁) ∧ ∃ list₂, parse s₂ = .ok list₂ := by
  obtain ⟨cs, hreads⟩ := exists_reads_of_parse h
  obtain ⟨cs₁, cs₂, h₁, h₂, rfl⟩ := reads_joined_iff.mp hreads
  obtain ⟨hnil, -⟩ := hreads.parse_eq_ok_iff.mp h
  rw [map_check_joined, complaints_append, complaints_relocate, List.append_eq_nil_iff,
    List.map_eq_nil_iff] at hnil
  exact ⟨⟨_, h₁.parse_eq_ok_iff.mpr ⟨hnil.1, rfl⟩⟩, _, h₂.parse_eq_ok_iff.mpr ⟨hnil.2, rfl⟩⟩

theorem parse_joined_of_mistakes {s₁ s₂ : String} {cs₁ cs₂ : List Clause} (h₁ : Reads s₁ cs₁)
    (h₂ : Reads s₂ cs₂) (h : mistakes (parse s₁) ++ mistakes (parse s₂) ≠ []) :
    parse (joined s₁ s₂) =
      .error (mistakes (parse s₁) ++ (mistakes (parse s₂)).map (·.relocate (further s₁))) := by
  have hreads := reads_joined_iff.mpr ⟨cs₁, cs₂, h₁, h₂, rfl⟩
  rw [h₁.mistakes, h₂.mistakes] at h ⊢
  rw [hreads.parse, map_check_joined, complaints_append, complaints_relocate, if_neg]
  simpa using h

/-! ## Running -/

/-- Runs a script and then, if that has not stopped the processor, another. -/
def runBoth {β : Type} [Bus β] (s₁ s₂ : String) (p : Processor) (bus : β) :
    Except Fault (Except Failure (List Report) × Processor × β) := do
  let (result, p, bus) ← run s₁ p bus
  match result with
  | .error failure => return (.error failure, p, bus)
  | .ok reports =>
    let (result, p, bus) ← run s₂ p bus
    return (result.map (reports ++ ·), p, bus)

section

variable {β : Type} [Bus β]

theorem statements_relocate (f : Span → Span) (list : List Statement) (r : Run β) :
    Run.statements (list.map (·.relocate f)) r = Run.statements list r := by
  induction list generalizing r with
  | nil => rfl
  | cons s list ih =>
    rw [List.map_cons, Run.statements, Run.statements]
    simp only [ih]
    rfl

theorem run_of_parse {source : String} {list : List Statement} (h : parse source = .ok list)
    (p : Processor) (bus : β) :
    run source p bus =
      (Run.statements list { processor := p, bus }).map
        fun r => (r.result, r.processor, r.bus) := by
  rw [run, h]
  dsimp only
  cases Run.statements list { processor := p, bus } <;> rfl

theorem run_joined {s₁ s₂ : String} {list₁ list₂ : List Statement} {f : Span → Span}
    (h₁ : parse s₁ = .ok list₁) (h₂ : parse s₂ = .ok list₂)
    (h : parse (joined s₁ s₂) = .ok (list₁ ++ list₂.map (·.relocate f)))
    (p : Processor) (bus : β) :
    run (joined s₁ s₂) p bus = runBoth s₁ s₂ p bus := by
  rw [run_of_parse h, Run.statements_append _ _ rfl, runBoth, run_of_parse h₁]
  cases Run.statements list₁ { processor := p, bus } with
  | error fault => rfl
  | ok r =>
    dsimp only [Except.bind, Except.map, bind]
    cases hstopped : r.stopped with
    | some cause =>
      have hresult : r.result = .error (.stopped cause) := by
        rw [Run.result, hstopped]
      rw [hresult, Option.isSome_some, if_pos rfl]
      dsimp only
      rw [hresult]
      rfl
    | none =>
      have hresult : r.result = .ok r.reports := by
        rw [Run.result, hstopped]
      rw [hresult]
      dsimp only
      rw [run_of_parse h₂, Option.isSome_none, if_neg Bool.false_ne_true, statements_relocate]
      conv => lhs; rw [Run.eq_after hstopped, Run.statements_after]
      cases Run.statements list₂ { processor := r.processor, bus := r.bus } with
      | error fault => rfl
      | ok last =>
        show Except.ok ((last.after r.journal).result, _, _) = Except.ok _
        rw [Run.result_after]
        rfl

end

/-- Two scripts with a line break between them are accepted if both are, and then they are read
and run one after the other.  If the lines of both make up clauses, then what is wrong with the
two is what is wrong with the first and what is wrong with the second. -/
theorem parse_joined (s₁ s₂ : String) :
    ((∃ list, parse (joined s₁ s₂) = .ok list) ↔
      (∃ list₁, parse s₁ = .ok list₁) ∧ ∃ list₂, parse s₂ = .ok list₂) ∧
    (∀ list₁ list₂, parse s₁ = .ok list₁ → parse s₂ = .ok list₂ →
      parse (joined s₁ s₂) = .ok (list₁ ++ list₂.map (·.relocate (further s₁))) ∧
      ∀ (β : Type) [Bus β] (p : Processor) (bus : β),
        run (joined s₁ s₂) p bus = runBoth s₁ s₂ p bus) ∧
    (complaints (lex s₁) = [] → (∃ ss₁, Grammatical (terminated s₁) ss₁) →
      complaints (lex s₂) = [] → (∃ ss₂, Grammatical (terminated s₂) ss₂) →
      mistakes (parse s₁) ++ mistakes (parse s₂) ≠ [] →
      parse (joined s₁ s₂) =
        .error (mistakes (parse s₁) ++
          (mistakes (parse s₂)).map (·.relocate (further s₁)))) := by
  refine ⟨⟨fun ⟨list, h⟩ => parse_of_parse_joined h, ?_⟩, fun list₁ list₂ h₁ h₂ => ?_, ?_⟩
  · rintro ⟨⟨list₁, h₁⟩, list₂, h₂⟩
    exact ⟨_, parse_joined_of_parse h₁ h₂⟩
  · have hparse := parse_joined_of_parse h₁ h₂
    exact ⟨hparse, fun β _ p bus => run_joined h₁ h₂ hparse p bus⟩
  · rintro hlex₁ ⟨ss₁, hss₁⟩ hlex₂ ⟨ss₂, hss₂⟩ hmistakes
    have hreads₁ := reads_iff.mpr ⟨hlex₁, ss₁, hss₁, rfl⟩
    have hreads₂ := reads_iff.mpr ⟨hlex₂, ss₂, hss₂, rfl⟩
    exact parse_joined_of_mistakes hreads₁ hreads₂ hmistakes

/-- A script that ends in a comment before another, and two scripts with a mistake in each. -/
theorem parse_joined_comment :
    parse (joined "d0 = 1 ; one" "step") =
      .ok [⟨⟨0, 6, by omega⟩, .set (.data 0) 1⟩, ⟨⟨13, 17, by omega⟩, .step 1⟩] ∧
    (∀ (p : Processor) (ram : Ram),
      run (joined "d0 = 1 ; one" "step") p ram = runBoth "d0 = 1 ; one" "step" p ram) ∧
    parse (joined "x = 1" "step 0") =
      .error [⟨⟨0, 1, by omega⟩, .unknownRegister "x"⟩, ⟨⟨11, 12, by omega⟩, .zeroCount⟩] := by
  have hset : parse "d0 = 1 ; one" = .ok [⟨⟨0, 6, by omega⟩, .set (.data 0) 1⟩] := by
    decide +kernel
  have hstep : parse "step" = .ok [⟨⟨0, 4, by omega⟩, .step 1⟩] := by
    decide +kernel
  have hname : parse "x = 1" = .error [⟨⟨0, 1, by omega⟩, .unknownRegister "x"⟩] := by
    decide +kernel
  have hcount : parse "step 0" = .error [⟨⟨5, 6, by omega⟩, .zeroCount⟩] := by
    decide +kernel
  let x : Sentence := ⟨_, _, .assign ⟨0, 1, by omega⟩ "x" ⟨2, 3, by omega⟩ ⟨4, 5, by omega⟩ 1
    (by decide)⟩
  let step : Sentence := ⟨_, _, .stepCount ⟨0, 4, by omega⟩ "step" ⟨5, 6, by omega⟩ 0 (by decide)⟩
  have hx : Grammatical (terminated "x = 1") [x] := by
    have htokens : terminated "x = 1" = x.tokens ++ [⟨.point 5, .linebreak⟩] := by
      decide +kernel
    rw [htokens]
    exact .sentence x rfl .nil
  have hzero : Grammatical (terminated "step 0") [step] := by
    have htokens : terminated "step 0" = step.tokens ++ [⟨.point 6, .linebreak⟩] := by
      decide +kernel
    rw [htokens]
    exact .sentence step rfl .nil
  obtain ⟨-, haccepted, -⟩ := parse_joined "d0 = 1 ; one" "step"
  obtain ⟨hparse, hrun⟩ := haccepted _ _ hset hstep
  obtain ⟨-, -, hmistakes⟩ := parse_joined "x = 1" "step 0"
  have herror := hmistakes (by decide +kernel) ⟨_, hx⟩ (by decide +kernel) ⟨_, hzero⟩
  rw [hname, hcount] at herror
  exact ⟨hparse, hrun Ram, herror (List.cons_ne_nil _ _)⟩

end Compare68k.Script
