import Compare68k.Proofs.Script.Grammar
import Compare68k.Proofs.Script.Lexing
/-!
# Texts further down

What the places of tokens matter for.  Whether a line is a phrase depends on what its tokens are
and not on where they stand, and the places in its clause, in the statement made of it and in a
complaint about it move with the tokens.
-/

namespace Compare68k.Script

def Located.relocate {α : Type} (f : Span → Span) (x : Located α) : Located α :=
  { x with span := f x.span }

def Clause.relocate (f : Span → Span) : Clause → Clause
  | assign name value => assign (name.relocate f) (value.relocate f)
  | mem keyword address words last =>
    mem (f keyword) (address.relocate f) (words.map (·.relocate f)) (last.relocate f)
  | step keyword count => step (f keyword) (count.map (·.relocate f))

def Statement.relocate (f : Span → Span) (s : Statement) : Statement :=
  { s with span := f s.span }

/-! ## Phrases -/

theorem WordList.relocate (f : Span → Span) {ts : List Token} {words : List (Located UInt32)}
    {last : Located UInt32} (h : WordList ts words last) :
    WordList (ts.map (·.relocate f)) (words.map (·.relocate f)) (last.relocate f) := by
  induction h with
  | last place value => exact .last (f place) value
  | more place value comma h ih => exact .more (f place) value (f comma) ih

theorem Phrase.relocate (f : Span → Span) {ts : List Token} {c : Clause} (h : Phrase ts c) :
    Phrase (ts.map (·.relocate f)) (c.relocate f) := by
  cases h with
  | assign start name equals place value h =>
    exact .assign (f start) name (f equals) (f place) value h
  | mem start name place address equals h hwords =>
    exact .mem (f start) name (f place) address (f equals) h (hwords.relocate f)
  | step start name h => exact .step (f start) name h
  | stepCount start name place count h => exact .stepCount (f start) name (f place) count h

/-- Moving tokens that can be moved back makes no phrase of them that they were not. -/
theorem toOption_clause_relocate {f g : Span → Span} (hg : ∀ s, g (f s) = s) (ts : List Token) :
    (clause (ts.map (·.relocate f))).toOption = (clause ts).toOption.map (·.relocate f) := by
  cases hclause : clause ts with
  | ok c =>
    rw [clause_of_phrase ((phrase_of_clause hclause).relocate f)]
    rfl
  | error rest =>
    cases hmoved : clause (ts.map (·.relocate f)) with
    | error rest => rfl
    | ok c =>
      have hback : (ts.map (·.relocate f)).map (·.relocate g) = ts := by
        rw [List.map_map]
        refine List.map_id'' (fun t => ?_) ts
        show { t with span := g (f t.span) } = t
        rw [hg]
      have hphrase := (phrase_of_clause hmoved).relocate g
      rw [hback] at hphrase
      cases hclause.symm.trans (clause_of_phrase hphrase)

/-! ## Statements -/

theorem wordOf_relocate (f : Span → Span) (w : Located UInt32) :
    wordOf (w.relocate f) = (wordOf w).mapError (·.relocate f) := by
  unfold wordOf
  rw [show (w.relocate f).value = w.value from rfl]
  split <;> rfl

theorem mapM_wordOf_relocate (f : Span → Span) (ws : List (Located UInt32)) :
    (ws.map (·.relocate f)).mapM wordOf = (ws.mapM wordOf).mapError (·.relocate f) := by
  induction ws with
  | nil => rfl
  | cons w ws ih =>
    rw [List.map_cons, List.mapM_cons, List.mapM_cons, wordOf_relocate, ih]
    cases wordOf w with
    | error e => rfl
    | ok word => cases ws.mapM wordOf <;> rfl

theorem check_relocate {f : Span → Span} (hf : ∀ s t : Span, f (s.merge t) = (f s).merge (f t))
    (c : Clause) :
    (c.relocate f).check = relocateResult Statement.relocate f c.check := by
  cases c with
  | assign name value =>
    rw [Clause.relocate, Clause.check, Clause.check,
      show (name.relocate f).value = name.value from rfl]
    cases Register.ofName? name.value with
    | none => rfl
    | some r => simp only [relocateResult, Statement.relocate, Located.relocate, hf]
  | mem keyword address words last =>
    have hwords : words.map (·.relocate f) ++ [last.relocate f] =
        (words ++ [last]).map (·.relocate f) := by
      rw [List.map_append, List.map_singleton]
    rw [Clause.relocate, Clause.check, Clause.check, hwords, mapM_wordOf_relocate]
    cases (words ++ [last]).mapM wordOf with
    | error e => rfl
    | ok stored =>
      show Except.ok _ = Except.ok _
      simp only [Statement.relocate, Located.relocate, hf]
  | step keyword count =>
    cases count with
    | none => rfl
    | some count =>
      rw [Clause.relocate, Option.map_some, Clause.check, Clause.check,
        show (count.relocate f).value = count.value from rfl]
      split
      · rfl
      · simp only [relocateResult, Statement.relocate, Located.relocate, hf]

theorem merge_shift (k : Nat) (s t : Span) :
    (s.merge t).shift k = (s.shift k).merge (t.shift k) := by
  simp only [Span.merge, Span.shift, Nat.add_min_add_right, Nat.add_max_add_right]

end Compare68k.Script
