import Compare68k.Proofs.Script.Lines
import Compare68k.Proofs.Script.Parsers
/-!
# Reading with backtracking

What the parsers of a script come to, with all the alternatives that are tried and given up.  Main
statement: they read the clauses of the script's lines, and the furthest obstacle that they meet is
the first wrong token of the first line that is no clause.  Where the end of the script is expected
and not found, what is found would be told; but something is always in the way there or further
on by then, of which it is not.
-/

namespace Compare68k.Script

namespace Parser

variable {α β : Type}

/-! ## Line breaks -/

def pastBreaks (c : Cursor) : Cursor :=
  ⟨c.index + (c.ahead.takeWhile Token.isBreak).length, c.ahead.dropWhile Token.isBreak⟩

theorem pastBreaks_of_refused {index : Nat} {ts : List Token}
    (h : ∀ t ∈ ts.head?, t.isBreak = false) : pastBreaks ⟨index, ts⟩ = ⟨index, ts⟩ := by
  cases ts with
  | nil => rfl
  | cons t ts =>
    have ht := h t rfl
    have hneg : ¬t.isBreak = true := by simp [ht]
    rw [pastBreaks, List.takeWhile_cons_of_neg hneg, List.dropWhile_cons_of_neg hneg]
    rfl

theorem pastBreaks_break (index : Nat) (place : Span) (ts : List Token) :
    pastBreaks ⟨index, ⟨place, .linebreak⟩ :: ts⟩ = pastBreaks ⟨index + 1, ts⟩ := by
  have hbreak : Token.isBreak ⟨place, .linebreak⟩ = true := rfl
  rw [pastBreaks, List.takeWhile_cons_of_pos hbreak, List.dropWhile_cons_of_pos hbreak,
    List.length_cons, Nat.add_comm _ 1, ← Nat.add_assoc]
  rfl

theorem many_linebreak (index : Nat) (ts : List Token) :
    ∃ breaks, many (symbol .linebreak) ⟨index, ts⟩ =
      .success breaks (pastBreaks ⟨index, ts⟩) (some ⟨(pastBreaks ⟨index, ts⟩).index, none⟩) := by
  induction ts generalizing index with
  | nil => exact ⟨[], many_of_failure rfl⟩
  | cons t ts ih =>
    cases ht : t.isBreak with
    | true =>
      rw [t.eq_of_isBreak ht, pastBreaks_break]
      obtain ⟨breaks, hbreaks⟩ := ih (index + 1)
      have hbreak : symbol .linebreak ⟨index, ⟨t.span, .linebreak⟩ :: ts⟩ = _ :=
        (apply_eq_bind _ _).trans (symbol_accepts _ _)
      refine ⟨⟨t.span, .linebreak⟩ :: breaks, ?_⟩
      rw [many_of_success hbreak (Nat.lt_succ_self _), hbreaks]
      rfl
    | false =>
      have hrefused : ∀ u ∈ (t :: ts).head?, u.isBreak = false := by
        rintro u hu
        cases hu
        exact ht
      have hbreak := (apply_eq_bind _ ⟨index, t :: ts⟩).trans
        (symbol_refuses fun u hu => of_decide_eq_false (hrefused u hu))
      rw [pastBreaks_of_refused hrefused]
      exact ⟨[], many_of_failure hbreak⟩

theorem linebreaks_accepts {f : Unit → Parser β} (index : Nat) (place : Span) (ts : List Token) :
    (linebreaks >>= f) ⟨index, ⟨place, .linebreak⟩ :: ts⟩ =
      (f () (pastBreaks ⟨index + 1, ts⟩)).after
        (some ⟨(pastBreaks ⟨index + 1, ts⟩).index, none⟩) := by
  obtain ⟨breaks, hbreaks⟩ := many_linebreak (index + 1) ts
  simp only [linebreaks, many1, bind_assoc, pure_bind]
  rw [symbol_accepts, bind_of_success hbreaks]

theorem linebreaks_refuses {f : Unit → Parser β} {index : Nat} {ts : List Token}
    (h : ∀ t ∈ ts.head?, t.isBreak = false) :
    (linebreaks >>= f) ⟨index, ts⟩ = .failure ⟨index, none⟩ := by
  simp only [linebreaks, many1, bind_assoc, pure_bind]
  exact symbol_refuses fun t ht => of_decide_eq_false (h t ht)

/-! ## Lines -/

/-- What comes of the rest of a line, from the token of the given number on: its clause and the
next line that is not empty, or else a failure at the first wrong token. -/
inductive Settles (index : Nat) (line : List Token) (next : Cursor) :
    Outcome Clause → Except (List Token) Clause → Prop where
  | clause (c : Clause) :
      Settles index line next (.success c next (some ⟨next.index, none⟩)) (.ok c)
  | stuck (front : List Token) {rest : List Token} (h : line = front ++ rest) :
      Settles index line next (.failure ⟨index + front.length, none⟩) (.error rest)

section

variable {index : Nat} {t : Token} {line ts : List Token} {place : Span} {next : Cursor}
  {met : Option Obstacle} {o : Outcome Clause} {r : Except (List Token) Clause}

theorem Settles.cons (t : Token) (h : Settles (index + 1) line next o r) :
    Settles index (t :: line) next o r := by
  cases h with
  | clause c => exact .clause c
  | stuck front h =>
    rw [Nat.add_assoc, Nat.add_comm 1]
    exact .stuck (t :: front) (congrArg (t :: ·) h)

theorem Settles.after (h : Settles index line next o r) (hnext : index ≤ next.index)
    (hmet : Obstacle.Within index met) : Settles index line next (o.after met) r := by
  have hwithin {n : Nat} (hn : index ≤ n) : Obstacle.Within n met :=
    fun o ho => ⟨Nat.le_trans (hmet o ho).1 hn, (hmet o ho).2⟩
  cases h with
  | clause c =>
    rw [Outcome.after_success (hwithin hnext)]
    exact .clause c
  | stuck front h =>
    rw [Outcome.after_failure (hwithin (Nat.le_add_right _ _))]
    exact .stuck front h

def behind (index : Nat) (line ts : List Token) : Cursor :=
  pastBreaks ⟨index + line.length + 1, ts⟩

theorem behind_cons (index : Nat) (t : Token) (line ts : List Token) :
    behind (index + 1) line ts = behind index (t :: line) ts := by
  have hindex : index + 1 + line.length + 1 = index + (t :: line).length + 1 := by
    rw [List.length_cons]
    omega
  rw [behind, behind, hindex]

theorem le_behind (index : Nat) (line ts : List Token) : index ≤ (behind index line ts).index := by
  show index ≤ index + line.length + 1 + (ts.takeWhile Token.isBreak).length
  omega

theorem lexeme_ne_of_line {lexeme : Lexeme} (hbreak : lexeme ≠ .linebreak)
    (h : ∀ place tail, line = ⟨place, lexeme⟩ :: tail → False) :
    ∀ t ∈ (line ++ ⟨place, .linebreak⟩ :: ts).head?, t.lexeme ≠ lexeme := by
  rintro ⟨span, lexeme⟩ ht rfl
  cases line with
  | nil =>
    cases ht
    exact hbreak rfl
  | cons u line =>
    cases ht
    exact h _ _ rfl

theorem ne_literal_of_line
    (h : ∀ place value tail, line = ⟨place, .literal value⟩ :: tail → False) :
    ∀ t ∈ (line ++ ⟨place, .linebreak⟩ :: ts).head?, ∀ value, t.lexeme ≠ .literal value :=
  fun t ht value => lexeme_ne_of_line (by simp) (fun place tail => h place value tail) t ht

theorem settles_of_refused (h : o = .failure ⟨index, none⟩) :
    Settles index line next o (.error line) := by
  rw [h]
  exact .stuck [] rfl

theorem settles_linebreaks (hline : Unbroken line) (c : Clause) :
    Settles index line (behind index line ts)
      ((linebreaks >>= fun _ => pure c : Parser Clause)
        ⟨index, line ++ ⟨place, .linebreak⟩ :: ts⟩)
      (if line.isEmpty then .ok c else .error line) := by
  cases line with
  | nil =>
    rw [List.nil_append, linebreaks_accepts]
    exact .clause c
  | cons t line =>
    exact settles_of_refused (linebreaks_refuses (hline.head? (List.cons_ne_nil t line) _))

theorem settles_assign (hline : Unbroken line) (name : Located String) :
    Settles index line (behind index line ts)
      ((do let _ ← symbol .equals; let value ← literal; linebreaks; return .assign name value :
          Parser Clause) ⟨index, line ++ ⟨place, .linebreak⟩ :: ts⟩)
      (assignClause name line) := by
  unfold assignClause
  split
  · rename_i equals span value rest
    rw [List.cons_append, symbol_accepts, List.cons_append, literal_accepts]
    rw [← behind_cons, ← behind_cons]
    exact ((settles_linebreaks hline.tail.tail _).cons _).cons _
  · rename_i equals rest hrest
    rw [List.cons_append, symbol_accepts, ← behind_cons]
    exact (settles_of_refused (literal_refuses (ne_literal_of_line hrest))).cons _
  · rename_i hequals
    exact settles_of_refused (symbol_refuses (lexeme_ne_of_line (by simp) hequals))

theorem settles_words {keyword : Span} {address last : Located UInt32}
    (words : List (Located UInt32)) (hline : Unbroken line) :
    Settles index line (behind index line ts)
      ((do let others ← many (do let _ ← symbol .comma; literal)
           linebreaks
           return .mem keyword address (words ++ (last :: others).dropLast) (others.getLastD last) :
          Parser Clause) ⟨index, line ++ ⟨place, .linebreak⟩ :: ts⟩)
      (memWords keyword address words last line) := by
  fun_induction memWords keyword address words last line generalizing index with
  | case1 words last =>
    have hnext : (symbol .comma >>= fun _ => literal) ⟨index, ⟨place, .linebreak⟩ :: ts⟩ =
        .failure ⟨index, none⟩ := symbol_refuses (by simp)
    rw [List.nil_append, many_bind_of_failure hnext, List.dropLast_singleton, List.append_nil]
    exact (settles_linebreaks .nil _).after (le_behind _ _ _) (.some (Nat.le_refl _))
  | case2 words last comma span value rest ih =>
    have hnext : (symbol .comma >>= fun _ => literal)
        ⟨index, ⟨comma, .comma⟩ :: ⟨span, .literal value⟩ :: (rest ++ ⟨place, .linebreak⟩ :: ts)⟩ =
          .success ⟨span, value⟩ ⟨index + 1 + 1, rest ++ ⟨place, .linebreak⟩ :: ts⟩ none := by
      rw [symbol_accepts]
      exact (apply_eq_bind literal _).trans (literal_accepts span value)
    rw [List.cons_append, List.cons_append,
      many_bind_of_success hnext (by simp only [List.length_cons]; omega), Outcome.after_none,
      ← behind_cons, ← behind_cons]
    simp only [List.append_assoc, List.singleton_append] at ih
    simp only [List.dropLast_cons_cons, List.getLastD_cons]
    exact ((ih hline.tail.tail).cons _).cons _
  | case3 words last comma rest hrest =>
    have hnext : (symbol .comma >>= fun _ => literal)
        ⟨index, ⟨comma, .comma⟩ :: (rest ++ ⟨place, .linebreak⟩ :: ts)⟩ =
          .failure ⟨index + 1, none⟩ := by
      rw [symbol_accepts]
      exact (apply_eq_bind literal _).trans (literal_refuses (ne_literal_of_line hrest))
    -- the comma is refused in turn, but the token behind it is further
    rw [List.cons_append, many_bind_of_failure hnext, linebreaks_refuses (by simp [Token.isBreak]),
      Outcome.failure_after (Nat.le_succ index)]
    exact .stuck [⟨comma, .comma⟩] rfl
  | case4 words last line hnil hliteral hcomma =>
    have hnext : (symbol .comma >>= fun _ => literal)
        ⟨index, line ++ ⟨place, .linebreak⟩ :: ts⟩ = .failure ⟨index, none⟩ :=
      symbol_refuses (lexeme_ne_of_line (by simp) hcomma)
    rw [many_bind_of_failure hnext, linebreaks_refuses (hline.head? hnil _)]
    exact settles_of_refused (Outcome.after_failure (.some (Nat.le_refl _)))

theorem settles_mem {keyword : Span} {address : Located UInt32} (hline : Unbroken line) :
    Settles index line (behind index line ts)
      ((do let _ ← symbol .equals
           let (first, others) ← literal.sepBy1 (symbol .comma)
           linebreaks
           return .mem keyword address (first :: others).dropLast (others.getLastD first) :
          Parser Clause) ⟨index, line ++ ⟨place, .linebreak⟩ :: ts⟩)
      (memClause keyword address line) := by
  simp only [sepBy1, bind_assoc, pure_bind]
  unfold memClause
  split
  · rename_i equals span value rest
    rw [List.cons_append, symbol_accepts, List.cons_append, literal_accepts, ← behind_cons,
      ← behind_cons]
    exact ((settles_words [] hline.tail.tail).cons _).cons _
  · rename_i equals rest hrest
    rw [List.cons_append, symbol_accepts, ← behind_cons]
    exact (settles_of_refused (literal_refuses (ne_literal_of_line hrest))).cons _
  · rename_i hequals
    exact settles_of_refused (symbol_refuses (lexeme_ne_of_line (by simp) hequals))

theorem settles_step {keyword : Span} (hline : Unbroken line) :
    Settles index line (behind index line ts)
      ((do let count ← literal.optional
           linebreaks
           return .step keyword count : Parser Clause) ⟨index, line ++ ⟨place, .linebreak⟩ :: ts⟩)
      (stepClause keyword line) := by
  have hnone (h : ∀ t ∈ (line ++ ⟨place, .linebreak⟩ :: ts).head?, ∀ value,
      t.lexeme ≠ .literal value) :
      Settles index line (behind index line ts)
        ((do let count ← literal.optional
             linebreaks
             return .step keyword count : Parser Clause) ⟨index, line ++ ⟨place, .linebreak⟩ :: ts⟩)
        (if line.isEmpty then .ok (.step keyword none) else .error line) := by
    rw [optional_bind_of_failure ((apply_eq_bind _ _).trans (literal_refuses h))]
    exact (settles_linebreaks hline _).after (le_behind _ _ _) (.some (Nat.le_refl _))
  unfold stepClause
  split
  · exact hnone (by simp)
  · rename_i span value rest
    rw [List.cons_append, ← behind_cons,
      optional_bind_of_success ((apply_eq_bind _ _).trans (literal_accepts span value)),
      Outcome.after_none]
    exact (settles_linebreaks hline.tail _).cons _
  · rename_i hnil hliteral
    rw [List.isEmpty_eq_false_iff.mpr hnil] at hnone
    exact hnone (ne_literal_of_line hliteral)

/-! ## Clauses -/

def ended (c : Clause) : Parser Clause := do
  linebreaks
  return c

theorem clause_of_mem {c : Cursor} {value : Clause} (hmem : mem c = .success value next met) :
    Parser.clause c = (mem >>= ended) c :=
  orElse_bind_of_success hmem

theorem clause_of_step {c : Cursor} {value : Clause} {o : Obstacle} (hmem : mem c = .failure o)
    (hstep : Parser.step c = .success value next met) :
    Parser.clause c = ((Parser.step >>= ended) c).after (some o) := by
  have hchoice : ((Parser.step <|> assign) >>= ended) c = (Parser.step >>= ended) c :=
    orElse_bind_of_success hstep
  rw [← hchoice]
  exact orElse_bind_of_failure hmem

theorem clause_of_assign {c : Cursor} {o o' : Obstacle} (hmem : mem c = .failure o)
    (hstep : Parser.step c = .failure o') :
    Parser.clause c = (((assign >>= ended) c).after (some o')).after (some o) := by
  have hchoice : ((Parser.step <|> assign) >>= ended) c =
      ((assign >>= ended) c).after (some o') :=
    orElse_bind_of_failure hstep
  rw [← hchoice]
  exact orElse_bind_of_failure hmem

theorem clause_refuses {us : List Token} (h : ∀ t ∈ us.head?, ∀ name, t.lexeme ≠ .identifier name) :
    Parser.clause ⟨index, us⟩ = .failure ⟨index, none⟩ := by
  have hkeyword : ∀ word, ∀ t ∈ us.head?, ∀ name, t.lexeme = .identifier name →
      isKeyword word name = false :=
    fun word t ht name hname => absurd hname (h t ht name)
  have hassign : (assign >>= ended) ⟨index, us⟩ = .failure ⟨index, none⟩ :=
    bind_of_failure (name_refuses h)
  rw [clause_of_assign (keyword_refuses (hkeyword "mem")) (keyword_refuses (hkeyword "step")),
    hassign, Outcome.after_failure (.some (Nat.le_refl _)),
    Outcome.after_failure (.some (Nat.le_refl _))]

section

variable {start : Span} {name : String} {us : List Token}

theorem mem_failure_of_literal (h : ∀ t ∈ us.head?, ∀ value, t.lexeme ≠ .literal value) :
    ∃ i ≤ index + 1, mem ⟨index, ⟨start, .identifier name⟩ :: us⟩ = .failure ⟨i, none⟩ := by
  cases hname : isKeyword "mem" name with
  | false => exact ⟨index, Nat.le_succ _, keyword_refuses_name hname start⟩
  | true =>
    exact ⟨index + 1, Nat.le_refl _, (keyword_accepts hname start).trans (literal_refuses h)⟩

/-- Behind its keyword, the statement that runs instructions never fails, whatever comes next. -/
theorem exists_step (h : isKeyword "step" name = true) :
    ∃ value next met,
      Parser.step ⟨index, ⟨start, .identifier name⟩ :: us⟩ = .success value next met := by
  rw [Parser.step, keyword_accepts h start]
  cases hliteral : literal ⟨index + 1, us⟩ with
  | success value next met =>
    rw [optional_bind_of_success hliteral]
    exact ⟨_, _, _, rfl⟩
  | failure o =>
    rw [optional_bind_of_failure hliteral]
    exact ⟨_, _, _, rfl⟩

theorem settles_clause_of_step (hname : isKeyword "step" name = true) (hline : Unbroken line) :
    Settles index (⟨start, .identifier name⟩ :: line)
      (behind index (⟨start, .identifier name⟩ :: line) ts)
      (Parser.clause ⟨index, ⟨start, .identifier name⟩ :: (line ++ ⟨place, .linebreak⟩ :: ts)⟩)
      (stepClause start line) := by
  have hended : Settles (index + 1) line (behind (index + 1) line ts)
      ((Parser.step >>= ended)
        ⟨index, ⟨start, .identifier name⟩ :: (line ++ ⟨place, .linebreak⟩ :: ts)⟩)
      (stepClause start line) := by
    simp only [Parser.step, ended, bind_assoc, pure_bind]
    rw [keyword_accepts hname]
    exact settles_step hline
  obtain ⟨value, next, met, hstep⟩ := exists_step hname
  rw [clause_of_step (keyword_refuses_name (isKeyword_mem_of_step hname) start) hstep,
    ← behind_cons]
  exact (hended.after (le_behind _ _ _) (.some (Nat.le_succ _))).cons _

theorem settles_clause_of_assign (hname : isKeyword "step" name = false)
    (hmem : ∃ i ≤ index + 1,
      mem ⟨index, ⟨start, .identifier name⟩ :: (line ++ ⟨place, .linebreak⟩ :: ts)⟩ =
        .failure ⟨i, none⟩)
    (hline : Unbroken line) :
    Settles index (⟨start, .identifier name⟩ :: line)
      (behind index (⟨start, .identifier name⟩ :: line) ts)
      (Parser.clause ⟨index, ⟨start, .identifier name⟩ :: (line ++ ⟨place, .linebreak⟩ :: ts)⟩)
      (assignClause ⟨start, name⟩ line) := by
  have hended : Settles (index + 1) line (behind (index + 1) line ts)
      ((assign >>= ended)
        ⟨index, ⟨start, .identifier name⟩ :: (line ++ ⟨place, .linebreak⟩ :: ts)⟩)
      (assignClause ⟨start, name⟩ line) := by
    simp only [assign, ended, bind_assoc, pure_bind]
    rw [name_accepts]
    exact settles_assign hline ⟨start, name⟩
  have hnext := le_behind (index + 1) line ts
  obtain ⟨i, hi, hmem⟩ := hmem
  rw [clause_of_assign hmem (keyword_refuses_name hname start), ← behind_cons]
  exact ((hended.after hnext (.some (Nat.le_succ _))).after hnext (.some hi)).cons _

/-- Where an address comes next, the other alternatives do not get as far as the first. -/
theorem settles_clause_of_mem (hname : isKeyword "mem" name = true) (span : Span) (value : UInt32)
    (hline : Unbroken line) :
    Settles index (⟨start, .identifier name⟩ :: ⟨span, .literal value⟩ :: line)
      (behind index (⟨start, .identifier name⟩ :: ⟨span, .literal value⟩ :: line) ts)
      (Parser.clause ⟨index, ⟨start, .identifier name⟩ :: ⟨span, .literal value⟩ ::
        (line ++ ⟨place, .linebreak⟩ :: ts)⟩)
      (memClause start ⟨span, value⟩ line) := by
  have hended : Settles (index + 1 + 1) line (behind (index + 1 + 1) line ts)
      ((mem >>= ended) ⟨index, ⟨start, .identifier name⟩ :: ⟨span, .literal value⟩ ::
        (line ++ ⟨place, .linebreak⟩ :: ts)⟩)
      (memClause start ⟨span, value⟩ line) := by
    simp only [mem, ended, bind_assoc, pure_bind]
    rw [keyword_accepts hname, literal_accepts]
    exact settles_mem hline
  rw [← behind_cons, ← behind_cons]
  cases hmem : mem ⟨index, ⟨start, .identifier name⟩ :: ⟨span, .literal value⟩ ::
    (line ++ ⟨place, .linebreak⟩ :: ts)⟩ with
  | success c next met =>
    rw [clause_of_mem hmem]
    exact (hended.cons _).cons _
  | failure o =>
    have hassign : (assign >>= ended) ⟨index, ⟨start, .identifier name⟩ ::
        ⟨span, .literal value⟩ :: (line ++ ⟨place, .linebreak⟩ :: ts)⟩ =
          .failure ⟨index + 1, none⟩ := by
      simp only [assign, ended, bind_assoc, pure_bind]
      rw [name_accepts]
      exact symbol_refuses (by simp)
    rw [clause_of_assign hmem (keyword_refuses_name (isKeyword_step_of_mem hname) start), hassign,
      Outcome.after_failure (.some (Nat.le_succ _))]
    rw [bind_of_failure hmem] at hended
    generalize hr : memClause start ⟨span, value⟩ line = r at hended ⊢
    cases hended with
    | stuck front h =>
      rw [Outcome.failure_after (by simp only []; omega)]
      exact ((Settles.stuck front h).cons _).cons _

end

theorem settles_clause (hline : Unbroken line) :
    Settles index line (behind index line ts)
      (Parser.clause ⟨index, line ++ ⟨place, .linebreak⟩ :: ts⟩) (Script.clause line) := by
  unfold Script.clause
  split
  · rename_i span name rest
    have hrest : Unbroken rest := hline.tail
    rw [List.cons_append]
    cases hstep : isKeyword "step" name with
    | true =>
      rw [if_pos rfl]
      exact settles_clause_of_step hstep hrest
    | false =>
      simp only [Bool.false_eq_true, if_false]
      split
      · rename_i place' value tail
        cases hmem : isKeyword "mem" name with
        | true =>
          rw [if_pos rfl]
          exact settles_clause_of_mem hmem place' value hrest.tail
        | false =>
          simp only [Bool.false_eq_true, if_false]
          exact settles_clause_of_assign hstep
            ⟨index, Nat.le_succ _, keyword_refuses_name hmem span⟩ hrest
      · rename_i hliteral
        exact settles_clause_of_assign hstep
          (mem_failure_of_literal (ne_literal_of_line hliteral)) hrest
  · rename_i hname
    have hlexeme : ∀ t ∈ (line ++ ⟨place, .linebreak⟩ :: ts).head?, ∀ name,
        t.lexeme ≠ .identifier name :=
      fun t ht name => lexeme_ne_of_line (by simp) (fun place tail => hname place name tail) t ht
    exact settles_of_refused (clause_refuses hlexeme)

end

/-! ## Scripts -/

/-- What comes of the tokens from one of the given number on: the clauses of all their lines, or
those of some lines and an obstacle at the token that is complained about. -/
inductive Agrees (index : Nat) (ts : List Token) :
    Outcome (List Clause) → Except Complaint (List Clause) → Prop where
  | whole (cs : List Clause) {n : Nat} (hpast : (pastBreaks ⟨index, ts⟩).index ≤ n) :
      Agrees index ts (.success cs ⟨n, []⟩ (some ⟨n, none⟩)) (.ok cs)
  | broken (cs : List Clause) {k : Nat} {t u : Token} {rest front back : List Token}
      (h : ts = front ++ u :: back) (hk : k ≤ index + front.length)
      (hpast : (pastBreaks ⟨index, ts⟩).index ≤ index + front.length) :
      Agrees index ts (.success cs ⟨k, t :: rest⟩ (some ⟨index + front.length, none⟩))
        (.error ⟨u.span, .unexpected none⟩)

section

variable {index : Nat} {line ts : List Token} {ls : List SourceLine} {o : Outcome (List Clause)}
  {r : Except Complaint (List Clause)}

theorem Agrees.emptyLine (h : Agrees (index + 1) ts o r) (place : Span) :
    Agrees index (⟨place, .linebreak⟩ :: ts) o r := by
  cases h with
  | whole cs hpast => exact .whole cs (pastBreaks_break index place ts ▸ hpast)
  | @broken cs k t u rest front back h hk hpast =>
    have hindex : index + 1 + front.length = index + (⟨place, .linebreak⟩ :: front).length := by
      rw [List.length_cons]
      omega
    rw [← pastBreaks_break index place, hindex] at hpast
    rw [hindex] at hk ⊢
    exact .broken cs (congrArg (_ :: ·) h) hk hpast

theorem Agrees.cons (h : Agrees (index + line.length + 1) ts o r) (hline : Unbroken line)
    (hne : line ≠ []) (c : Clause) (place : Span) :
    Agrees index (line ++ ⟨place, .linebreak⟩ :: ts)
      ((o.map (c :: ·)).after (some ⟨(behind index line ts).index, none⟩)) (r.map (c :: ·)) := by
  have hpast' : (pastBreaks ⟨index, line ++ ⟨place, .linebreak⟩ :: ts⟩).index = index := by
    rw [pastBreaks_of_refused (hline.head? hne _)]
  have hle : index ≤ (pastBreaks ⟨index + line.length + 1, ts⟩).index := le_behind index line ts
  rw [behind]
  cases h with
  | whole cs hpast =>
    rw [Outcome.map, Outcome.after_success (.some hpast)]
    exact .whole (c :: cs) (by rw [hpast']; exact Nat.le_trans hle hpast)
  | @broken cs k t u rest front back h hk hpast =>
    have hindex : index + line.length + 1 + front.length =
        index + (line ++ ⟨place, .linebreak⟩ :: front).length := by
      rw [List.length_append, List.length_cons]
      omega
    rw [Outcome.map, Outcome.after_success (.some hpast)]
    rw [hindex] at hk ⊢
    exact .broken (c :: cs) (by rw [h, List.append_assoc]; rfl) hk (by omega)

theorem sourceLine_clause_of_error {rest : List Token} (place : Span) (ts : List Token)
    (h : Script.clause line = .error rest) :
    ∃ u back, rest ++ ⟨place, .linebreak⟩ :: ts = u :: back ∧
      SourceLine.clause ⟨line, place⟩ = .error ⟨u.span, .unexpected none⟩ := by
  rw [SourceLine.clause]
  dsimp only
  rw [h]
  cases rest with
  | nil => exact ⟨_, _, rfl, rfl⟩
  | cons u rest => exact ⟨_, _, rfl, rfl⟩

theorem agrees_line (hline : Unbroken line) (place : Span)
    (h : ∀ index, Agrees index ts (many Parser.clause (pastBreaks ⟨index, ts⟩)) (clauses ls))
    (index : Nat) :
    Agrees index (line ++ ⟨place, .linebreak⟩ :: ts)
      (many Parser.clause (pastBreaks ⟨index, line ++ ⟨place, .linebreak⟩ :: ts⟩))
      (clauses (⟨line, place⟩ :: ls)) := by
  by_cases hne : line = []
  · subst hne
    rw [List.nil_append, pastBreaks_break, clauses_cons_empty]
    exact (h (index + 1)).emptyLine place
  · have hpast : pastBreaks ⟨index, line ++ ⟨place, .linebreak⟩ :: ts⟩ = _ :=
      pastBreaks_of_refused (hline.head? hne _)
    rw [hpast, clauses_cons_of_ne_nil hne]
    have hsettles : Settles index line (behind index line ts)
        (Parser.clause ⟨index, line ++ ⟨place, .linebreak⟩ :: ts⟩) (Script.clause line) :=
      settles_clause hline
    generalize ho : Parser.clause ⟨index, line ++ ⟨place, .linebreak⟩ :: ts⟩ = o at hsettles
    generalize hr : Script.clause line = r at hsettles
    cases hsettles with
    | clause c =>
      have hprogress : (behind index line ts).ahead.length <
          (line ++ ⟨place, .linebreak⟩ :: ts).length := by
        have hle := (List.dropWhile_suffix Token.isBreak (l := ts)).length_le
        rw [List.length_append, List.length_cons]
        show (ts.dropWhile Token.isBreak).length < _
        omega
      have hclause : SourceLine.clause ⟨line, place⟩ = .ok c := by
        rw [SourceLine.clause]
        dsimp only
        rw [hr]
      rw [many_of_success ho hprogress, hclause]
      exact (h (index + line.length + 1)).cons hline hne c place
    | stuck front hfront =>
      obtain ⟨u, back, hu, hclause⟩ := sourceLine_clause_of_error place ts hr
      obtain ⟨t, rest, hrest⟩ := List.exists_cons_of_ne_nil
        (List.append_ne_nil_of_left_ne_nil hne (⟨place, .linebreak⟩ :: ts))
      have hsplit : t :: rest = front ++ u :: back := by
        rw [← hrest, hfront, List.append_assoc, hu]
      rw [hrest] at hpast
      rw [many_of_failure ho, hclause, hrest]
      refine .broken [] hsplit (Nat.le_add_right _ _) ?_
      rw [hpast]
      exact Nat.le_add_right _ _

theorem agrees_terminate (stop : Span) (ts : List Token) (index : Nat) :
    Agrees index (terminate stop ts)
      (many Parser.clause (pastBreaks ⟨index, terminate stop ts⟩))
      (clauses (linesFrom stop [] ts)) := by
  have hnil (index : Nat) :
      Agrees index [] (many Parser.clause (pastBreaks ⟨index, []⟩)) (clauses []) := by
    have hclause : Parser.clause ⟨index, []⟩ = .failure ⟨index, none⟩ := clause_refuses (by simp)
    rw [show pastBreaks ⟨index, []⟩ = ⟨index, []⟩ from rfl, many_of_failure hclause]
    exact .whole [] (Nat.le_refl _)
  induction ts using lines_induction generalizing index with
  | last line hline =>
    by_cases hne : line = []
    · subst hne
      exact hnil index
    · have hempty : line.isEmpty = false := List.isEmpty_eq_false_iff.mpr hne
      rw [terminate_of_line stop hline hne, linesFrom_of_line hline, hempty]
      exact agrees_line hline stop hnil index
  | more line place ts hline ih =>
    rw [terminate_append_break, linesFrom_append hline, linesFrom_break]
    exact agrees_line hline place ih index

end

end Parser

theorem placeOf_append (front : List Token) (t : Token) (back : List Token) :
    placeOf (front ++ t :: back) front.length = t.span := by
  rw [placeOf, List.getElem?_append_right (Nat.le_refl _), Nat.sub_self]
  rfl

/-- The parsers with their alternatives read what the lines of a script say. -/
theorem readClauses_terminate (stop : Span) (ts : List Token) :
    readClauses (terminate stop ts) = clauses (linesFrom stop [] ts) := by
  obtain ⟨breaks, hbreaks⟩ := Parser.many_linebreak 0 (terminate stop ts)
  have hscript := Parser.bind_of_success (f := fun _ => Parser.many Parser.clause) hbreaks
  have hagrees := Parser.agrees_terminate stop ts 0
  rw [readClauses]
  generalize clauses (linesFrom stop [] ts) = r at hagrees ⊢
  generalize Parser.many Parser.clause (Parser.pastBreaks ⟨0, terminate stop ts⟩) = o
    at hagrees hscript
  cases hagrees with
  | whole cs hpast =>
    rw [Outcome.after_success (.some hpast)] at hscript
    rw [show Parser.script.run (terminate stop ts) = _ from Parser.run_of_whole hscript]
  | @broken cs k t u rest front back h hk hpast =>
    rw [Outcome.after_success (.some hpast)] at hscript
    rw [show Parser.script.run (terminate stop ts) = _ from Parser.run_of_rest hscript hk]
    dsimp only
    rw [Nat.zero_add, h, placeOf_append]

theorem parse_eq_lines (source : String) :
    parse source =
      match complaints (lex source) with
      | e :: _ => .error [e]
      | [] =>
        match clauses (sourceLines source (values (lex source))) with
        | .error e => .error [e]
        | .ok cs =>
          if (complaints (cs.map Clause.check)).isEmpty then .ok (values (cs.map Clause.check))
          else .error (complaints (cs.map Clause.check)) := by
  have hlines : readClauses (terminate (.point source.utf8ByteSize) (values (lex source))) =
      clauses (sourceLines source (values (lex source))) :=
    readClauses_terminate _ _
  rw [← hlines]
  rfl

end Compare68k.Script
