import Compare68k.Script.Statement
/-!
# Scripts line by line

A second way to read a script: it is cut into lines, and every line that is not empty has to be one
clause.  Looking one token ahead is enough for that, and nothing is read twice.  A line that is no
clause is wrong at the first token that no clause can have in its place, or at its end if there is
none.
-/

namespace Compare68k.Script

structure SourceLine where
  tokens : List Token
  stop : Span
deriving DecidableEq

/-- The lines of a script; what is left at the end is a line as well. -/
def linesFrom (stop : Span) (line : List Token) : List Token → List SourceLine
  | [] => if line.isEmpty then [] else [⟨line, stop⟩]
  | t :: ts =>
    match t.lexeme with
    | .linebreak => ⟨line, t.span⟩ :: linesFrom stop [] ts
    | _ => linesFrom stop (line ++ [t]) ts

def assignClause (name : Located String) : List Token → Except (List Token) Clause
  | ⟨_, .equals⟩ :: ⟨span, .literal value⟩ :: rest =>
    if rest.isEmpty then .ok (.assign name ⟨span, value⟩) else .error rest
  | ⟨_, .equals⟩ :: rest => .error rest
  | rest => .error rest

def memWords (keyword : Span) (address : Located UInt32) (words : List (Located UInt32))
    (last : Located UInt32) : List Token → Except (List Token) Clause
  | [] => .ok (.mem keyword address words last)
  | ⟨_, .comma⟩ :: ⟨span, .literal value⟩ :: rest =>
    memWords keyword address (words ++ [last]) ⟨span, value⟩ rest
  | ⟨_, .comma⟩ :: rest => .error rest
  | rest => .error rest

def memClause (keyword : Span) (address : Located UInt32) :
    List Token → Except (List Token) Clause
  | ⟨_, .equals⟩ :: ⟨span, .literal value⟩ :: rest =>
    memWords keyword address [] ⟨span, value⟩ rest
  | ⟨_, .equals⟩ :: rest => .error rest
  | rest => .error rest

def stepClause (keyword : Span) : List Token → Except (List Token) Clause
  | [] => .ok (.step keyword none)
  | ⟨span, .literal value⟩ :: rest =>
    if rest.isEmpty then .ok (.step keyword (some ⟨span, value⟩)) else .error rest
  | rest => .error rest

/-- The clause that a line's tokens make up, or else the tokens from the first wrong one on.
The keyword for memory is a name like any other where no address follows it. -/
def clause : List Token → Except (List Token) Clause
  | ⟨span, .identifier name⟩ :: rest =>
    if isKeyword "step" name then stepClause span rest
    else
      match rest with
      | ⟨place, .literal value⟩ :: tail =>
        if isKeyword "mem" name then memClause span ⟨place, value⟩ tail
        else assignClause ⟨span, name⟩ rest
      | _ => assignClause ⟨span, name⟩ rest
  | ts => .error ts

def SourceLine.clause (l : SourceLine) : Except Complaint Clause :=
  match Script.clause l.tokens with
  | .ok c => .ok c
  | .error (t :: _) => .error ⟨t.span, .unexpected none⟩
  | .error [] => .error ⟨l.stop, .unexpected none⟩

def clauses : List SourceLine → Except Complaint (List Clause)
  | [] => .ok []
  | l :: ls => do
    if l.tokens.isEmpty then clauses ls
    else
      let c ← l.clause
      return c :: (← clauses ls)

def sourceLines (source : String) (tokens : List Token) : List SourceLine :=
  linesFrom (.point source.utf8ByteSize) [] tokens

/-! ## Lines -/

theorem clauses_cons_empty (place : Span) (ls : List SourceLine) :
    clauses (⟨[], place⟩ :: ls) = clauses ls :=
  rfl

theorem clauses_cons_of_ne_nil {line : List Token} (hline : line ≠ []) (place : Span)
    (ls : List SourceLine) :
    clauses (⟨line, place⟩ :: ls) =
      (SourceLine.clause ⟨line, place⟩).bind fun c => (clauses ls).map (c :: ·) := by
  have hempty : line.isEmpty = false := by simpa using hline
  rw [clauses]
  dsimp only
  rw [hempty]
  cases SourceLine.clause ⟨line, place⟩ with
  | error e => rfl
  | ok c => cases clauses ls <;> rfl

theorem isKeyword_step_of_mem {name : String} (h : isKeyword "mem" name = true) :
    isKeyword "step" name = false := by
  rw [isKeyword, decide_eq_true_iff] at h
  rw [isKeyword, h]
  rfl

theorem isKeyword_mem_of_step {name : String} (h : isKeyword "step" name = true) :
    isKeyword "mem" name = false := by
  cases hmem : isKeyword "mem" name with
  | false => rfl
  | true => rw [isKeyword_step_of_mem hmem] at h; cases h

theorem Token.eq_of_isBreak (t : Token) (ht : t.isBreak = true) : t = ⟨t.span, .linebreak⟩ := by
  obtain ⟨place, lexeme⟩ := t
  rw [show lexeme = .linebreak from of_decide_eq_true ht]

def Unbroken (line : List Token) : Prop :=
  ∀ t ∈ line, t.isBreak = false

theorem Unbroken.nil : Unbroken [] :=
  List.forall_mem_nil _

theorem Unbroken.tail {t : Token} {line : List Token} (h : Unbroken (t :: line)) :
    Unbroken line :=
  (List.forall_mem_cons.mp h).2

theorem Unbroken.append {line more : List Token} (hline : Unbroken line) (hmore : Unbroken more) :
    Unbroken (line ++ more) :=
  List.forall_mem_append.mpr ⟨hline, hmore⟩

theorem Unbroken.head? {line : List Token} (hline : Unbroken line) (hne : line ≠ [])
    (ts : List Token) : ∀ t ∈ (line ++ ts).head?, t.isBreak = false := by
  intro t ht
  cases line with
  | nil => exact absurd rfl hne
  | cons u line =>
    cases ht
    exact hline t List.mem_cons_self

theorem unbroken_singleton {t : Token} (ht : t.isBreak = false) : Unbroken [t] :=
  List.forall_mem_singleton.mpr ht

theorem linesFrom_append {line : List Token} (hline : Unbroken line)
    (stop : Span) (before ts : List Token) :
    linesFrom stop before (line ++ ts) = linesFrom stop (before ++ line) ts := by
  induction line generalizing before with
  | nil => rw [List.append_nil]; rfl
  | cons t line ih =>
    have ht : t.lexeme ≠ .linebreak := of_decide_eq_false (hline t List.mem_cons_self)
    rw [List.cons_append, linesFrom]
    split
    · rename_i hbreak
      exact absurd hbreak ht
    · rw [ih hline.tail, List.append_assoc]
      rfl

theorem linesFrom_break (stop : Span) (line : List Token) (place : Span) (ts : List Token) :
    linesFrom stop line (⟨place, .linebreak⟩ :: ts) = ⟨line, place⟩ :: linesFrom stop [] ts :=
  rfl

theorem linesFrom_of_line {line : List Token} (hline : Unbroken line) (stop : Span) :
    linesFrom stop [] line = if line.isEmpty then [] else [⟨line, stop⟩] := by
  have happend := linesFrom_append hline stop [] []
  rw [List.append_nil, List.nil_append] at happend
  exact happend

/-- Induction along the lines of a text, of which the last has no line break at its end. -/
theorem lines_induction {P : List Token → Prop}
    (last : ∀ line, Unbroken line → P line)
    (more : ∀ line place ts, Unbroken line → P ts → P (line ++ ⟨place, .linebreak⟩ :: ts))
    (ts : List Token) : P ts := by
  -- by induction on the tokens that are left, with those before them on the same line
  suffices hline : ∀ line, Unbroken line → P (line ++ ts) from hline [] .nil
  induction ts with
  | nil =>
    intro line hline
    rw [List.append_nil]
    exact last line hline
  | cons t ts ih =>
    intro line hline
    cases ht : t.isBreak with
    | true =>
      rw [t.eq_of_isBreak ht]
      exact more line t.span ts hline (ih [] .nil)
    | false =>
      have hnext := ih (line ++ [t]) (hline.append (unbroken_singleton ht))
      rw [List.append_assoc] at hnext
      exact hnext

theorem terminate_append_break (stop : Span) (before : List Token) (place : Span)
    (ts : List Token) :
    terminate stop (before ++ ⟨place, .linebreak⟩ :: ts) =
      before ++ ⟨place, .linebreak⟩ :: terminate stop ts := by
  rcases List.eq_nil_or_concat ts with rfl | ⟨ts, u, rfl⟩
  · simp [terminate, Token.isBreak]
  · have hlast : (before ++ ⟨place, .linebreak⟩ :: (ts ++ [u])).getLast? = some u := by
      rw [← List.cons_append, ← List.append_assoc, List.getLast?_concat]
    rw [List.concat_eq_append, terminate, terminate, hlast, List.getLast?_concat]
    dsimp only
    split
    · rfl
    · rw [List.append_assoc]
      rfl

theorem terminate_of_line (stop : Span) {line : List Token} (hline : Unbroken line)
    (hne : line ≠ []) :
    terminate stop line = line ++ [⟨stop, .linebreak⟩] := by
  have hlast := List.getLast?_eq_some_getLast hne
  rw [terminate, hlast]
  dsimp only
  rw [hline _ (List.getLast_mem hne)]
  rfl

theorem linesFrom_terminate (stop : Span) (ts : List Token) :
    linesFrom stop [] (terminate stop ts) = linesFrom stop [] ts := by
  induction ts using lines_induction with
  | last line hline =>
    cases line with
    | nil => rfl
    | cons t line =>
      rw [terminate_of_line stop hline (List.cons_ne_nil _ _), linesFrom_append hline,
        linesFrom_of_line hline]
      rfl
  | more line place ts hline ih =>
    rw [terminate_append_break, linesFrom_append hline, linesFrom_append hline, linesFrom_break,
      linesFrom_break, ih]

end Compare68k.Script
