import Compare68k.Proofs.Script.Grammar
/-!
# Where a script goes wrong

The place that is given for a text whose tokens are no script.  Main statement: it is that of the
first token with which the text stops being the beginning of any script.
-/

namespace Compare68k.Script

/-- The tokens `front` can be gone on with, but not by the first of the tokens `rest`. -/
structure Stuck (reader : List Token → Except (List Token) Clause) (front rest : List Token) :
    Prop where
  goesOn : ∃ more c, reader (front ++ more) = .ok c
  refused : ∀ t ∈ rest.head?, ∀ more c, reader (front ++ t :: more) ≠ .ok c

variable {ts rest : List Token}

theorem Stuck.of_lexeme {reader : List Token → Except (List Token) Clause} {front : List Token}
    (hgoesOn : ∃ more c, reader (front ++ more) = .ok c)
    (hrefused : ∀ place lexeme tail, rest = ⟨place, lexeme⟩ :: tail →
      ∀ more c, reader (front ++ ⟨place, lexeme⟩ :: more) ≠ .ok c) :
    Stuck reader front rest := by
  refine ⟨hgoesOn, ?_⟩
  rintro ⟨place, lexeme⟩ ht
  obtain ⟨tail, htail⟩ := List.head?_eq_some_iff.mp ht
  exact hrefused place lexeme tail htail

theorem Stuck.cons {reader next : List Token → Except (List Token) Clause} {t : Token}
    {front : List Token} (hnext : ∀ ts, reader (t :: ts) = next ts) (h : Stuck next front rest) :
    Stuck reader (t :: front) rest := by
  obtain ⟨⟨more, c, hmore⟩, hrefused⟩ := h
  refine ⟨⟨more, c, (hnext _).trans hmore⟩, fun u hu more c hc => ?_⟩
  exact hrefused u hu more c ((hnext _).symm.trans hc)

theorem stuck_memWords {keyword : Span} {address : Located UInt32}
    {words : List (Located UInt32)} {last : Located UInt32}
    (h : memWords keyword address words last ts = .error rest) :
    ∃ front, ts = front ++ rest ∧ Stuck (memWords keyword address words last) front rest := by
  fun_induction memWords keyword address words last ts with
  | case1 words last => cases h
  | case2 words last comma span value ts ih =>
    obtain ⟨front, rfl, hstuck⟩ := ih h
    exact ⟨_, rfl, (hstuck.cons fun _ => rfl).cons fun _ => rfl⟩
  | case3 words last comma ts hts =>
    cases h
    refine ⟨[_], rfl, .of_lexeme ⟨[⟨comma, .literal 0⟩], _, rfl⟩ ?_⟩
    rintro place lexeme tail rfl more c hc
    cases lexeme with
    | literal value => exact hts _ _ _ rfl
    | _ => cases hc
  | case4 words last ts hnil hliteral hcomma =>
    cases h
    refine ⟨[], rfl, .of_lexeme ⟨[], _, rfl⟩ ?_⟩
    rintro place lexeme tail rfl more c hc
    cases lexeme with
    | comma => exact hcomma _ _ rfl
    | _ => cases hc

theorem stuck_memClause {keyword : Span} {address : Located UInt32}
    (h : memClause keyword address ts = .error rest) :
    ∃ front, ts = front ++ rest ∧ Stuck (memClause keyword address) front rest := by
  unfold memClause at h
  split at h
  · rename_i equals place value ts
    obtain ⟨front, rfl, hstuck⟩ := stuck_memWords h
    have hnumber : Stuck (fun ts => memClause keyword address (⟨equals, .equals⟩ :: ts))
        (⟨place, .literal value⟩ :: front) rest := hstuck.cons fun _ => rfl
    exact ⟨_, rfl, hnumber.cons fun _ => rfl⟩
  · rename_i equals ts hts
    cases h
    refine ⟨[_], rfl, .of_lexeme ⟨[⟨equals, .literal 0⟩], _, rfl⟩ ?_⟩
    rintro place lexeme tail rfl more c hc
    cases lexeme with
    | literal value => exact hts _ _ _ rfl
    | _ => cases hc
  · rename_i hequals
    cases h
    refine ⟨[], rfl, .of_lexeme ⟨[⟨.point 0, .equals⟩, ⟨.point 0, .literal 0⟩], _, rfl⟩ ?_⟩
    rintro place lexeme tail rfl more c hc
    cases lexeme with
    | equals => exact hequals _ _ rfl
    | _ => cases hc

theorem stuck_assignClause {name : Located String} (h : assignClause name ts = .error rest) :
    ∃ front, ts = front ++ rest ∧ Stuck (assignClause name) front rest := by
  unfold assignClause at h
  split at h
  · rename_i equals place value ts
    split at h
    · cases h
    · cases h
      refine ⟨[_, _], rfl, ⟨[], _, rfl⟩, ?_⟩
      intro t ht more c hc
      cases hc
  · rename_i equals ts hts
    cases h
    refine ⟨[_], rfl, .of_lexeme ⟨[⟨equals, .literal 0⟩], _, rfl⟩ ?_⟩
    rintro place lexeme tail rfl more c hc
    cases lexeme with
    | literal value => exact hts _ _ _ rfl
    | _ => cases hc
  · rename_i hequals
    cases h
    refine ⟨[], rfl, .of_lexeme ⟨[⟨.point 0, .equals⟩, ⟨.point 0, .literal 0⟩], _, rfl⟩ ?_⟩
    rintro place lexeme tail rfl more c hc
    cases lexeme with
    | equals => exact hequals _ _ rfl
    | _ => cases hc

theorem stuck_stepClause {keyword : Span} (h : stepClause keyword ts = .error rest) :
    ∃ front, ts = front ++ rest ∧ Stuck (stepClause keyword) front rest := by
  unfold stepClause at h
  split at h
  · cases h
  · rename_i place value ts
    split at h
    · cases h
    · cases h
      refine ⟨[_], rfl, ⟨[], _, rfl⟩, ?_⟩
      intro t ht more c hc
      cases hc
  · rename_i hnil hts
    cases h
    refine ⟨[], rfl, .of_lexeme ⟨[], _, rfl⟩ ?_⟩
    rintro place lexeme tail rfl more c hc
    cases lexeme with
    | literal value => exact hts _ _ _ rfl
    | _ => cases hc

section

variable {span : Span} {name : String}

theorem clause_eq_stepClause (hstep : isKeyword "step" name = true) (ts : List Token) :
    clause (⟨span, .identifier name⟩ :: ts) = stepClause span ts :=
  if_pos hstep

theorem clause_eq_memClause (hmem : isKeyword "mem" name = true) (place : Span) (value : UInt32)
    (ts : List Token) :
    clause (⟨span, .identifier name⟩ :: ⟨place, .literal value⟩ :: ts) =
      memClause span ⟨place, value⟩ ts := by
  unfold clause
  dsimp only
  rw [isKeyword_step_of_mem hmem, hmem]
  rfl

theorem clause_eq_assignClause (hstep : isKeyword "step" name = false)
    (hmem : isKeyword "mem" name = false ∨
      ∀ place value tail, ts ≠ ⟨place, .literal value⟩ :: tail) :
    clause (⟨span, .identifier name⟩ :: ts) = assignClause ⟨span, name⟩ ts := by
  unfold clause
  dsimp only
  rw [hstep]
  simp only [Bool.false_eq_true, if_false]
  split
  · rcases hmem with hmem | hts
    · rw [hmem]
      rfl
    · exact absurd rfl (hts _ _ _)
  · rfl

end

theorem stuck_clause (h : clause ts = .error rest) :
    ∃ front, ts = front ++ rest ∧ Stuck clause front rest := by
  unfold clause at h
  split at h
  · rename_i span name ts
    cases hstep : isKeyword "step" name with
    | true =>
      rw [hstep] at h
      obtain ⟨front, rfl, hstuck⟩ := stuck_stepClause h
      exact ⟨_, rfl, hstuck.cons (clause_eq_stepClause hstep)⟩
    | false =>
      rw [hstep] at h
      simp only [Bool.false_eq_true, if_false] at h
      split at h
      · rename_i place value tail
        split at h
        · rename_i hmem
          obtain ⟨front, rfl, hstuck⟩ := stuck_memClause h
          have haddress : Stuck (fun ts => clause (⟨span, .identifier name⟩ :: ts))
              (⟨place, .literal value⟩ :: front) rest :=
            hstuck.cons (clause_eq_memClause hmem place value)
          exact ⟨_, rfl, haddress.cons fun _ => rfl⟩
        · rename_i hmem
          obtain ⟨front, hfront, hstuck⟩ := stuck_assignClause h
          refine ⟨⟨span, .identifier name⟩ :: front, by rw [hfront]; rfl, hstuck.cons fun ts => ?_⟩
          exact clause_eq_assignClause hstep (.inl (Bool.eq_false_iff.mpr hmem))
      · rename_i hts
        -- The name may be that of the memory statement: then it is an assignment only as long as no
        -- number comes next.
        obtain ⟨front, rfl, ⟨more, c, hmore⟩, hrefused⟩ := stuck_assignClause h
        refine ⟨⟨span, .identifier name⟩ :: front, rfl, ⟨more, c, ?_⟩, ?_⟩
        · exact clause_of_phrase (phrase_of_assignClause hstep hmore)
        · intro t ht more c hc
          obtain ⟨tail, rfl⟩ := List.head?_eq_some_iff.mp ht
          have hmore : ∀ place value rest,
              front ++ t :: more ≠ ⟨place, .literal value⟩ :: rest := by
            intro place value rest heq
            cases front with
            | nil =>
              cases heq
              exact hts _ _ _ rfl
            | cons u front =>
              cases heq
              exact hts _ _ _ rfl
          exact hrefused t ht more c ((clause_eq_assignClause hstep (.inr hmore)).symm.trans hc)
  · rename_i hname
    cases h
    refine ⟨[], rfl, .of_lexeme ⟨[⟨.point 0, .identifier "step"⟩], _, rfl⟩ ?_⟩
    rintro place lexeme tail rfl more c hc
    cases lexeme with
    | identifier name => exact hname _ _ _ rfl
    | _ => cases hc

/-! ## Scripts -/

/-- The tokens `before` begin a script, and no text with the token `t` behind them has clauses. -/
structure Mistaken (before : List Token) (t : Token) : Prop where
  goesOn : ∃ more ss, Grammatical (before ++ more) ss
  refused : ∀ stop more cs, clauses (linesFrom stop [] (before ++ t :: more)) ≠ .ok cs

theorem exists_linesFrom {line : List Token} (hline : Unbroken line) (hne : line ≠ [])
    (stop : Span) (ts : List Token) :
    ∃ more place ls, linesFrom stop [] (line ++ ts) = ⟨line ++ more, place⟩ :: ls := by
  induction ts using lines_induction with
  | last more hmore =>
    refine ⟨more, stop, [], ?_⟩
    rw [linesFrom_of_line (hline.append hmore), if_neg (by simp [hne])]
  | more more place ts hmore _ =>
    refine ⟨more, place, linesFrom stop [] ts, ?_⟩
    rw [linesFrom_append hline, linesFrom_append hmore, linesFrom_break, List.nil_append]

theorem exists_rest_of_clause {line : List Token} {place : Span} {e : Complaint}
    (h : SourceLine.clause ⟨line, place⟩ = .error e) :
    ∃ rest, clause line = .error rest ∧
      e = ⟨(rest.head?.map Token.span).getD place, .unexpected none⟩ := by
  rw [SourceLine.clause] at h
  dsimp only at h
  split at h <;> cases h <;> rename_i hclause <;> exact ⟨_, hclause, rfl⟩

theorem mistaken_of_clause {line : List Token} {place : Span} {e : Complaint}
    (hline : Unbroken line) (hne : line ≠ [])
    (h : SourceLine.clause ⟨line, place⟩ = .error e) :
    ∃ before t after, line ++ [⟨place, .linebreak⟩] = before ++ t :: after ∧
      e = ⟨t.span, .unexpected none⟩ ∧ Mistaken before t := by
  obtain ⟨rest, hrest, rfl⟩ := exists_rest_of_clause h
  obtain ⟨front, rfl, hstuck⟩ := stuck_clause hrest
  have hgoesOn : ∃ more ss, Grammatical (front ++ more) ss := by
    obtain ⟨more, c, hmore⟩ := hstuck.goesOn
    let s : Sentence := ⟨front ++ more, c, phrase_of_clause hmore⟩
    have hscript : Grammatical (s.tokens ++ [⟨place, .linebreak⟩]) [s] := .sentence s rfl .nil
    rw [List.append_assoc] at hscript
    exact ⟨_, _, hscript⟩
  -- A line that is only the beginning of a phrase goes wrong at the line break.
  cases rest with
  | nil =>
    rw [List.append_nil] at hline hne hrest ⊢
    refine ⟨front, _, [], rfl, rfl, hgoesOn, fun stop more cs hcs => ?_⟩
    rw [linesFrom_append hline, linesFrom_break] at hcs
    obtain ⟨c, -, hphrase, -⟩ := exists_phrase_of_clauses hne hcs
    cases hrest.symm.trans (clause_of_phrase hphrase)
  | cons t rest =>
    refine ⟨front, t, rest ++ [⟨place, .linebreak⟩], ?_, rfl, hgoesOn, fun stop more cs hcs => ?_⟩
    · rw [List.append_assoc]
      rfl
    · have hpart : Unbroken (front ++ [t]) := by
        rw [List.append_cons] at hline
        exact (List.forall_mem_append.mp hline).1
      obtain ⟨tail, place, ls, hlines⟩ :=
        exists_linesFrom hpart (by simp) stop more
      rw [List.append_assoc, List.singleton_append] at hlines
      rw [hlines] at hcs
      obtain ⟨c, -, hphrase, -⟩ := exists_phrase_of_clauses (by simp) hcs
      rw [List.append_assoc] at hphrase
      exact hstuck.refused t rfl tail c (clause_of_phrase hphrase)

theorem Mistaken.line {before line : List Token} {t : Token} (h : Mistaken before t)
    (hline : line = [] ∨ ∃ c, Phrase line c) (place : Span) :
    Mistaken (line ++ ⟨place, .linebreak⟩ :: before) t := by
  obtain ⟨⟨more, ss, hmore⟩, hrefused⟩ := h
  rcases hline with rfl | ⟨c, hphrase⟩
  · exact ⟨⟨more, ss, hmore.skip rfl⟩, hrefused⟩
  · refine ⟨⟨more, ⟨line, c, hphrase⟩ :: ss, ?_⟩, fun stop more cs hcs => ?_⟩
    · rw [List.append_assoc]
      exact hmore.sentence ⟨line, c, hphrase⟩ rfl
    · rw [List.append_assoc, List.cons_append, linesFrom_append hphrase.unbroken,
        linesFrom_break] at hcs
      obtain ⟨-, rest, -, hrest, -⟩ := exists_phrase_of_clauses hphrase.ne_nil hcs
      exact hrefused stop more rest hrest

/-- What is wrong with a text is the first token with which it stops being the beginning of a
script. -/
theorem mistaken_of_clauses {stop : Span} {e : Complaint}
    (h : clauses (linesFrom stop [] ts) = .error e) :
    ∃ before t after, terminate stop ts = before ++ t :: after ∧ e = ⟨t.span, .unexpected none⟩ ∧
      Mistaken before t := by
  induction ts using lines_induction with
  | last line hline =>
    cases line with
    | nil => cases h
    | cons t line =>
      have hne : t :: line ≠ [] := List.cons_ne_nil t line
      rw [linesFrom_of_line hline] at h
      rw [terminate_of_line stop hline hne]
      rcases error_of_clauses hne h with hclause | ⟨-, hnil⟩
      · exact mistaken_of_clause hline hne hclause
      · cases hnil
  | more line place ts hline ih =>
    rw [linesFrom_append hline, List.nil_append, linesFrom_break] at h
    rw [terminate_append_break]
    have hlater : (line = [] ∨ ∃ c, Phrase line c) → clauses (linesFrom stop [] ts) = .error e →
        ∃ before t after, line ++ ⟨place, .linebreak⟩ :: terminate stop ts = before ++ t :: after ∧
          e = ⟨t.span, .unexpected none⟩ ∧ Mistaken before t := by
      intro hline hrest
      obtain ⟨before, t, after, hbefore, he, hmistaken⟩ := ih hrest
      refine ⟨line ++ ⟨place, .linebreak⟩ :: before, t, after, ?_, he, hmistaken.line hline place⟩
      rw [hbefore, List.append_assoc, List.cons_append]
    by_cases hne : line = []
    · subst hne
      exact hlater (.inl rfl) h
    · rcases error_of_clauses hne h with hclause | ⟨hphrase, hrest⟩
      · obtain ⟨before, t, after, hbefore, he, hmistaken⟩ :=
          mistaken_of_clause hline hne hclause
        refine ⟨before, t, after ++ terminate stop ts, ?_, he, hmistaken⟩
        rw [List.append_cons, hbefore, List.append_assoc, List.cons_append]
      · exact hlater (.inr hphrase) hrest

end Compare68k.Script
