import Compare68k.Proofs.Script.Backtracking
/-!
# The grammar of scripts

Which sequences of tokens are scripts.  A phrase is what a statement is made of, a sentence is a
phrase with its clause, and a script is sentences with line breaks after each of them and as many
as one likes before the first.  Main statement: the clauses of the lines of a text are there
exactly if its tokens are a script, and they are those of its sentences.
-/

namespace Compare68k.Script

/-- Numbers with commas between them, given as all but the last and the last. -/
inductive WordList : List Token → List (Located UInt32) → Located UInt32 → Prop where
  | last (place : Span) (value : UInt32) :
      WordList [⟨place, .literal value⟩] [] ⟨place, value⟩
  | more (place : Span) (value : UInt32) (comma : Span) {ts : List Token}
      {words : List (Located UInt32)} {last : Located UInt32} (h : WordList ts words last) :
      WordList (⟨place, .literal value⟩ :: ⟨comma, .comma⟩ :: ts) (⟨place, value⟩ :: words) last

/-- The tokens of one statement, with the clause that they write. -/
inductive Phrase : List Token → Clause → Prop where
  | assign (start : Span) (name : String) (equals place : Span) (value : UInt32)
      (h : isKeyword "step" name = false) :
      Phrase [⟨start, .identifier name⟩, ⟨equals, .equals⟩, ⟨place, .literal value⟩]
        (.assign ⟨start, name⟩ ⟨place, value⟩)
  | mem (start : Span) (name : String) (place : Span) (address : UInt32) (equals : Span)
      {ts : List Token} {words : List (Located UInt32)} {last : Located UInt32}
      (h : isKeyword "mem" name = true) (hwords : WordList ts words last) :
      Phrase
        (⟨start, .identifier name⟩ :: ⟨place, .literal address⟩ :: ⟨equals, .equals⟩ :: ts)
        (.mem start ⟨place, address⟩ words last)
  | step (start : Span) (name : String) (h : isKeyword "step" name = true) :
      Phrase [⟨start, .identifier name⟩] (.step start none)
  | stepCount (start : Span) (name : String) (place : Span) (count : UInt32)
      (h : isKeyword "step" name = true) :
      Phrase [⟨start, .identifier name⟩, ⟨place, .literal count⟩]
        (.step start (some ⟨place, count⟩))

/-! ## Clauses -/

theorem WordList.exists_cons {ts : List Token} {words : List (Located UInt32)}
    {last : Located UInt32} (h : WordList ts words last) :
    ∃ place value rest, ts = ⟨place, .literal value⟩ :: rest := by
  cases h with
  | last place value => exact ⟨place, value, [], rfl⟩
  | more place value comma h => exact ⟨place, value, _, rfl⟩

theorem memWords_of_wordList {keyword : Span} {address : Located UInt32} {ts : List Token}
    {words : List (Located UInt32)} {last : Located UInt32} (h : WordList ts words last) :
    ∀ (before : List (Located UInt32)) (place : Span) (value : UInt32) (rest : List Token),
      ts = ⟨place, .literal value⟩ :: rest →
      memWords keyword address before ⟨place, value⟩ rest =
        .ok (.mem keyword address (before ++ words) last) := by
  induction h with
  | last place value =>
    intro before place value rest h
    cases h
    rw [memWords, List.append_nil]
  | more place value comma h ih =>
    intro before place value rest hts
    cases hts
    obtain ⟨next, number, tail, rfl⟩ := h.exists_cons
    rw [memWords, ih _ next number tail rfl, List.append_assoc]
    rfl

theorem wordList_of_memWords {keyword : Span} {address : Located UInt32}
    {words : List (Located UInt32)} {last : Located UInt32} {ts : List Token} {c : Clause}
    (h : memWords keyword address words last ts = .ok c) :
    ∃ more final, c = .mem keyword address (words ++ more) final ∧
      WordList (⟨last.span, .literal last.value⟩ :: ts) more final := by
  fun_induction memWords keyword address words last ts with
  | case1 words last =>
    cases h
    exact ⟨[], last, by rw [List.append_nil], .last last.span last.value⟩
  | case2 words last comma span value rest ih =>
    obtain ⟨more, final, rfl, hwords⟩ := ih h
    refine ⟨last :: more, final, ?_, .more last.span last.value comma hwords⟩
    rw [List.append_assoc]
    rfl
  | case3 | case4 => cases h

theorem phrase_of_assignClause {name : Located String} {ts : List Token} {c : Clause}
    (hname : isKeyword "step" name.value = false) (h : assignClause name ts = .ok c) :
    Phrase (⟨name.span, .identifier name.value⟩ :: ts) c := by
  unfold assignClause at h
  split at h
  · split at h
    · rename_i hrest
      cases h
      rw [List.isEmpty_iff.mp hrest]
      exact .assign name.span name.value _ _ _ hname
    · cases h
  · cases h
  · cases h

theorem phrase_of_memClause {keyword : Span} {name : String} {address : Located UInt32}
    {ts : List Token} {c : Clause} (hname : isKeyword "mem" name = true)
    (h : memClause keyword address ts = .ok c) :
    Phrase (⟨keyword, .identifier name⟩ :: ⟨address.span, .literal address.value⟩ :: ts) c := by
  unfold memClause at h
  split at h
  · obtain ⟨more, final, rfl, hwords⟩ := wordList_of_memWords h
    exact .mem keyword name address.span address.value _ hname hwords
  · cases h
  · cases h

theorem phrase_of_stepClause {keyword : Span} {name : String} {ts : List Token} {c : Clause}
    (hname : isKeyword "step" name = true) (h : stepClause keyword ts = .ok c) :
    Phrase (⟨keyword, .identifier name⟩ :: ts) c := by
  unfold stepClause at h
  split at h
  · cases h
    exact .step keyword name hname
  · split at h
    · rename_i hrest
      cases h
      rw [List.isEmpty_iff.mp hrest]
      exact .stepCount keyword name _ _ hname
    · cases h
  · cases h

theorem phrase_of_clause {ts : List Token} {c : Clause} (h : clause ts = .ok c) : Phrase ts c := by
  unfold clause at h
  split at h
  · rename_i span name rest
    cases hstep : isKeyword "step" name with
    | true =>
      rw [hstep] at h
      exact phrase_of_stepClause hstep h
    | false =>
      rw [hstep] at h
      simp only [Bool.false_eq_true, if_false] at h
      split at h
      · split at h
        · rename_i hmem
          exact phrase_of_memClause hmem h
        · exact phrase_of_assignClause hstep h
      · exact phrase_of_assignClause hstep h
  · cases h

theorem clause_of_phrase {ts : List Token} {c : Clause} (h : Phrase ts c) : clause ts = .ok c := by
  cases h with
  | assign start name equals place value h =>
    unfold clause
    dsimp only
    rw [h]
    rfl
  | mem start name place address equals h hwords =>
    obtain ⟨next, number, tail, rfl⟩ := hwords.exists_cons
    rw [clause, isKeyword_step_of_mem h, h]
    exact memWords_of_wordList hwords [] next number tail rfl
  | step start name h =>
    unfold clause
    dsimp only
    rw [h]
    rfl
  | stepCount start name place count h =>
    rw [clause, h]
    rfl

theorem clause_eq_ok_iff {ts : List Token} {c : Clause} : clause ts = .ok c ↔ Phrase ts c :=
  ⟨phrase_of_clause, clause_of_phrase⟩

theorem WordList.unbroken {ts : List Token} {words : List (Located UInt32)}
    {last : Located UInt32} (h : WordList ts words last) : Unbroken ts := by
  induction h with
  | last place value => simp [Unbroken, Token.isBreak]
  | more place value comma h ih => simpa [Unbroken, Token.isBreak] using ih

theorem Phrase.unbroken {ts : List Token} {c : Clause} (h : Phrase ts c) : Unbroken ts := by
  cases h with
  | mem start name place address equals h hwords =>
    simpa [Unbroken, Token.isBreak] using hwords.unbroken
  | assign | step | stepCount => simp [Unbroken, Token.isBreak]

theorem Phrase.ne_nil {ts : List Token} {c : Clause} (h : Phrase ts c) : ts ≠ [] := by
  cases h <;> exact List.cons_ne_nil _ _

/-! ## Scripts -/

structure Sentence where
  tokens : List Token
  clause : Clause
  phrase : Phrase tokens clause

inductive Sentences : List Token → List Sentence → Prop where
  | nil : Sentences [] []
  | cons (s : Sentence) {gap rest : List Token} {ss : List Sentence} (hgap : gap ≠ [])
      (hbreaks : ∀ t ∈ gap, t.isBreak = true) (h : Sentences rest ss) :
      Sentences (s.tokens ++ gap ++ rest) (s :: ss)

/-- The tokens of a script: any number of line breaks, and then sentences. -/
def Grammatical (ts : List Token) (ss : List Sentence) : Prop :=
  ∃ lead rest, ts = lead ++ rest ∧ (∀ t ∈ lead, t.isBreak = true) ∧ Sentences rest ss

def terminated (source : String) : List Token :=
  terminate (.point source.utf8ByteSize) (values (lex source))

namespace Grammatical

variable {ts : List Token} {ss : List Sentence}

theorem nil : Grammatical [] [] :=
  ⟨[], [], rfl, by simp, .nil⟩

theorem skip {t : Token} (ht : t.isBreak = true) (h : Grammatical ts ss) :
    Grammatical (t :: ts) ss := by
  obtain ⟨lead, rest, rfl, hlead, hrest⟩ := h
  exact ⟨t :: lead, rest, rfl, List.forall_mem_cons.mpr ⟨ht, hlead⟩, hrest⟩

theorem sentence (s : Sentence) {t : Token} (ht : t.isBreak = true) (h : Grammatical ts ss) :
    Grammatical (s.tokens ++ t :: ts) (s :: ss) := by
  obtain ⟨lead, rest, rfl, hlead, hrest⟩ := h
  have hgap : ∀ u ∈ t :: lead, u.isBreak = true := List.forall_mem_cons.mpr ⟨ht, hlead⟩
  refine ⟨[], s.tokens ++ (t :: lead) ++ rest, ?_, by simp,
    .cons s (List.cons_ne_nil _ _) hgap hrest⟩
  rw [List.nil_append, List.append_assoc]
  rfl

/-- A script line by line: it begins with an empty line, or with a sentence and the line break
after it. -/
theorem line_induction {P : List Token → List Sentence → Prop} (nil : P [] [])
    (skip : ∀ t ts ss, t.isBreak = true → P ts ss → P (t :: ts) ss)
    (sentence : ∀ (s : Sentence) t ts ss, t.isBreak = true → P ts ss →
      P (s.tokens ++ t :: ts) (s :: ss))
    (h : Grammatical ts ss) : P ts ss := by
  have hskip : ∀ (gap rest : List Token) (ss : List Sentence),
      (∀ t ∈ gap, t.isBreak = true) → P rest ss → P (gap ++ rest) ss := by
    intro gap rest ss hgap hrest
    induction gap with
    | nil => exact hrest
    | cons t gap ih =>
      exact skip t _ ss (hgap t List.mem_cons_self)
        (ih fun u hu => hgap u (List.mem_cons_of_mem _ hu))
  obtain ⟨lead, rest, rfl, hlead, hrest⟩ := h
  refine hskip lead rest ss hlead ?_
  induction hrest with
  | nil => exact nil
  | @cons s gap rest ss hgap hbreaks h ih =>
    obtain ⟨t, gap, rfl⟩ := List.exists_cons_of_ne_nil hgap
    rw [List.append_assoc]
    refine sentence s t (gap ++ rest) ss (hbreaks t List.mem_cons_self) ?_
    exact hskip gap rest ss (fun u hu => hbreaks u (List.mem_cons_of_mem _ hu)) ih

end Grammatical

/-! ## Clauses of scripts -/

theorem sourceLine_clause_eq_ok_iff {line : List Token} {place : Span} {c : Clause} :
    SourceLine.clause ⟨line, place⟩ = .ok c ↔ Phrase line c := by
  rw [← clause_eq_ok_iff, SourceLine.clause]
  dsimp only
  split <;> rename_i hclause <;> simp [hclause]

theorem clauses_cons_of_phrase {line : List Token} {c : Clause} (h : Phrase line c)
    (place : Span) (ls : List SourceLine) :
    clauses (⟨line, place⟩ :: ls) = (clauses ls).map (c :: ·) := by
  rw [clauses_cons_of_ne_nil h.ne_nil, sourceLine_clause_eq_ok_iff.mpr h]
  rfl

theorem clauses_cons_cases {line : List Token} (hline : line ≠ []) (place : Span)
    (ls : List SourceLine) :
    (∃ e, SourceLine.clause ⟨line, place⟩ = .error e ∧ clauses (⟨line, place⟩ :: ls) = .error e) ∨
      ∃ c, Phrase line c ∧ clauses (⟨line, place⟩ :: ls) = (clauses ls).map (c :: ·) := by
  cases hclause : SourceLine.clause ⟨line, place⟩ with
  | error e =>
    refine .inl ⟨e, rfl, ?_⟩
    rw [clauses_cons_of_ne_nil hline, hclause]
    rfl
  | ok c =>
    have hphrase := sourceLine_clause_eq_ok_iff.mp hclause
    exact .inr ⟨c, hphrase, clauses_cons_of_phrase hphrase place ls⟩

theorem exists_phrase_of_clauses {line : List Token} {place : Span} {ls : List SourceLine}
    {cs : List Clause} (hline : line ≠ []) (h : clauses (⟨line, place⟩ :: ls) = .ok cs) :
    ∃ c rest, Phrase line c ∧ clauses ls = .ok rest ∧ cs = c :: rest := by
  rcases clauses_cons_cases hline place ls with ⟨e, -, he⟩ | ⟨c, hphrase, hc⟩
  · cases he.symm.trans h
  · rw [hc] at h
    cases hrest : clauses ls with
    | error e =>
      rw [hrest] at h
      cases h
    | ok rest =>
      rw [hrest] at h
      cases h
      exact ⟨c, rest, hphrase, rfl, rfl⟩

theorem error_of_clauses {line : List Token} {place : Span} {ls : List SourceLine}
    {e : Complaint} (hline : line ≠ []) (h : clauses (⟨line, place⟩ :: ls) = .error e) :
    SourceLine.clause ⟨line, place⟩ = .error e ∨ (∃ c, Phrase line c) ∧ clauses ls = .error e := by
  rcases clauses_cons_cases hline place ls with ⟨e', hclause, he⟩ | ⟨c, hphrase, hc⟩
  · cases he.symm.trans h
    exact .inl hclause
  · rw [hc] at h
    cases hrest : clauses ls with
    | error e' =>
      rw [hrest] at h
      cases h
      exact .inr ⟨⟨c, hphrase⟩, rfl⟩
    | ok rest =>
      rw [hrest] at h
      cases h

theorem Grammatical.clauses_linesFrom {ts : List Token} {ss : List Sentence}
    (h : Grammatical ts ss) (stop : Span) :
    clauses (linesFrom stop [] ts) = .ok (ss.map Sentence.clause) := by
  refine h.line_induction (P := fun ts ss =>
    clauses (linesFrom stop [] ts) = .ok (ss.map Sentence.clause)) rfl ?_ ?_
  · intro t ts ss ht ih
    rw [t.eq_of_isBreak ht, linesFrom_break, clauses_cons_empty, ih]
  · intro s t ts ss ht ih
    rw [t.eq_of_isBreak ht, linesFrom_append s.phrase.unbroken, List.nil_append, linesFrom_break,
      clauses_cons_of_phrase s.phrase, ih]
    rfl

theorem exists_grammatical {stop : Span} {ts : List Token} {cs : List Clause}
    (h : clauses (linesFrom stop [] ts) = .ok cs) :
    ∃ ss, Grammatical (terminate stop ts) ss ∧ ss.map Sentence.clause = cs := by
  induction ts using lines_induction generalizing cs with
  | last line hline =>
    cases line with
    | nil =>
      cases h
      exact ⟨[], .nil, rfl⟩
    | cons t line =>
      have hne : t :: line ≠ [] := List.cons_ne_nil t line
      rw [linesFrom_of_line hline] at h
      obtain ⟨c, rest, hphrase, hrest, rfl⟩ := exists_phrase_of_clauses hne h
      cases hrest
      rw [terminate_of_line stop hline hne]
      exact ⟨[⟨_, c, hphrase⟩], .sentence ⟨_, c, hphrase⟩ rfl .nil, rfl⟩
  | more line place ts hline ih =>
    rw [linesFrom_append hline, List.nil_append, linesFrom_break] at h
    rw [terminate_append_break]
    cases line with
    | nil =>
      obtain ⟨ss, hss, hclauses⟩ := ih h
      exact ⟨ss, hss.skip rfl, hclauses⟩
    | cons t line =>
      obtain ⟨c, rest, hphrase, hrest, rfl⟩ :=
        exists_phrase_of_clauses (List.cons_ne_nil t line) h
      obtain ⟨ss, hss, rfl⟩ := ih hrest
      exact ⟨⟨_, c, hphrase⟩ :: ss, hss.sentence ⟨_, c, hphrase⟩ rfl, rfl⟩

theorem clauses_eq_ok_iff {stop : Span} {ts : List Token} {cs : List Clause} :
    clauses (linesFrom stop [] ts) = .ok cs ↔
      ∃ ss, Grammatical (terminate stop ts) ss ∧ ss.map Sentence.clause = cs := by
  refine ⟨exists_grammatical, ?_⟩
  rintro ⟨ss, hss, rfl⟩
  rw [← hss.clauses_linesFrom stop, linesFrom_terminate]

/-- A text is read as clauses: its characters make up tokens and its lines are these clauses. -/
structure Reads (source : String) (cs : List Clause) : Prop where
  lexed : complaints (lex source) = []
  clauses : clauses (sourceLines source (values (lex source))) = .ok cs

theorem Reads.parse {source : String} {cs : List Clause} (h : Reads source cs) :
    parse source =
      if complaints (cs.map Clause.check) = [] then .ok (values (cs.map Clause.check))
      else .error (complaints (cs.map Clause.check)) := by
  rw [parse_eq_lines, h.lexed]
  dsimp only
  rw [h.clauses]
  simp only [List.isEmpty_iff]

theorem exists_reads_of_parse {source : String} {statements : List Statement}
    (h : parse source = .ok statements) : ∃ cs, Reads source cs := by
  rw [parse_eq_lines] at h
  split at h
  · cases h
  · rename_i hlex
    split at h
    · cases h
    · rename_i cs hcs
      exact ⟨cs, hlex, hcs⟩

theorem reads_iff {source : String} {cs : List Clause} :
    Reads source cs ↔ complaints (lex source) = [] ∧
      ∃ ss, Grammatical (terminated source) ss ∧ ss.map Sentence.clause = cs :=
  ⟨fun h => ⟨h.lexed, clauses_eq_ok_iff.mp h.clauses⟩,
    fun h => ⟨h.1, clauses_eq_ok_iff.mpr h.2⟩⟩

end Compare68k.Script
