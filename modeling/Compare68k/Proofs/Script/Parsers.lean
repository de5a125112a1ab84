import Compare68k.Script.Clause
/-!
# Parsers one after another

What parsers that are put together come to.  Obstacles are compared by how far they are, and it does
not matter in which order what has been met is put together; so the outcome of parsers one after
another, or of a choice, follows from the outcome of the first of them.  The parsers that read a
single token meet no obstacle if they accept it, and otherwise nothing but that token.
-/

namespace Compare68k.Script

/-! ## Obstacles -/

namespace Obstacle

theorem further_assoc (a b c : Obstacle) : (a.further b).further c = a.further (b.further c) := by
  unfold further
  grind

instance : Std.Associative further :=
  ⟨further_assoc⟩

/-- Obstacles no further than a token, of which it is not told what they are. -/
def Within (n : Nat) (met : Option Obstacle) : Prop :=
  ∀ o ∈ met, o.index ≤ n ∧ o.found = none

theorem further_eq_right {n : Nat} {o : Obstacle} (h : o.index ≤ n ∧ o.found = none) :
    o.further ⟨n, none⟩ = ⟨n, none⟩ := by
  obtain ⟨i, found⟩ := o
  obtain ⟨hle, rfl⟩ := h
  unfold further
  split
  · rfl
  · rename_i hlt
    rw [show i = n from Nat.le_antisymm hle (Nat.not_lt.mp hlt)]

theorem further_eq_left {earlier later : Obstacle} (h : later.index ≤ earlier.index) :
    earlier.further later = earlier :=
  if_neg (Nat.not_lt.mpr h)

theorem Within.some {i n : Nat} (h : i ≤ n) : Within n (some ⟨i, none⟩) := by
  rintro o ho
  cases ho
  exact ⟨h, rfl⟩

end Obstacle

namespace Outcome

variable {α β : Type} {o : Outcome α}

@[simp] theorem after_none (o : Outcome α) : o.after none = o := by
  cases o with
  | success value next met => rw [after, Option.merge_none_left]
  | failure met => rfl

theorem after_after (a b : Option Obstacle) (o : Outcome α) :
    (o.after b).after a = o.after (Option.merge Obstacle.further a b) := by
  cases o with
  | success value next met =>
    exact congrArg (success value next) (Std.Associative.assoc a b met).symm
  | failure met =>
    cases a with
    | none => rw [after_none, Option.merge_none_left]
    | some a =>
      cases b with
      | none => rfl
      | some b => exact congrArg failure (Obstacle.further_assoc a b met).symm

theorem after_failure {n : Nat} {met : Option Obstacle} (h : Obstacle.Within n met) :
    (failure ⟨n, none⟩ : Outcome α).after met = .failure ⟨n, none⟩ := by
  cases met with
  | none => rfl
  | some o => exact congrArg failure (Obstacle.further_eq_right (h o rfl))

theorem failure_after {o o' : Obstacle} (h : o'.index ≤ o.index) :
    (failure o' : Outcome α).after (some o) = .failure o :=
  congrArg failure (Obstacle.further_eq_left h)

theorem after_success {n : Nat} {met : Option Obstacle} (h : Obstacle.Within n met) (value : α)
    (next : Cursor) :
    (success value next (some ⟨n, none⟩)).after met = .success value next (some ⟨n, none⟩) := by
  cases met with
  | none => rw [after_none]
  | some o =>
    exact congrArg (success value next) (congrArg some (Obstacle.further_eq_right (h o rfl)))

end Outcome

namespace Parser

variable {α β : Type} {p q : Parser α} {f : α → Parser β} {c next : Cursor} {value : α}
  {met : Option Obstacle} {o : Obstacle}

/-! ## Parsers in general -/

theorem bind_apply (p : Parser α) (f : α → Parser β) (c : Cursor) :
    (p >>= f) c =
      match p c with
      | .success value next met => (f value next).after met
      | .failure met => .failure met :=
  rfl

theorem orElse_apply (p q : Parser α) (c : Cursor) :
    (p <|> q) c =
      match p c with
      | .success value next met => .success value next met
      | .failure met => (q c).after (some met) :=
  rfl

theorem bind_of_success (h : p c = .success value next met) :
    (p >>= f) c = (f value next).after met := by
  rw [bind_apply, h]

theorem bind_of_failure (h : p c = .failure o) : (p >>= f) c = .failure o := by
  rw [bind_apply, h]

instance : LawfulMonad Parser := by
  refine LawfulMonad.mk' Parser ?_ ?_ ?_
  · intro α p
    funext c
    cases h : p c with
    | success value next met =>
      refine (bind_of_success h).trans ?_
      exact congrArg (Outcome.success value next) (Option.merge_none_right)
    | failure o => exact bind_of_failure h
  · intro α β value f
    funext c
    exact Outcome.after_none _
  · intro α β γ p f g
    funext c
    cases h : p c with
    | failure o => rw [bind_of_failure h, bind_of_failure (bind_of_failure h)]
    | success value next met =>
      rw [bind_of_success h]
      have hp := bind_of_success (f := f) h
      cases hf : f value next with
      | failure o =>
        rw [hf] at hp
        rw [bind_of_failure hp, bind_of_failure hf]
        rfl
      | success value' next' met' =>
        rw [hf] at hp
        rw [bind_of_success hp, bind_of_success hf, Outcome.after_after]

theorem apply_eq_bind (p : Parser α) (c : Cursor) : p c = (p >>= pure) c :=
  (congrFun (bind_pure p) c).symm

theorem orElse_bind_of_success (h : p c = .success value next met) :
    ((p <|> q) >>= f) c = (p >>= f) c := by
  have horElse : (p <|> q) c = .success value next met := by
    rw [orElse_apply, h]
  rw [bind_of_success horElse, bind_of_success h]

theorem orElse_bind_of_failure (h : p c = .failure o) :
    ((p <|> q) >>= f) c = ((q >>= f) c).after (some o) := by
  have horElse : (p <|> q) c = (q c).after (some o) := by
    rw [orElse_apply, h]
  cases hq : q c with
  | failure o' =>
    rw [hq] at horElse
    rw [bind_of_failure horElse, bind_of_failure hq]
    rfl
  | success value' next' met' =>
    rw [hq] at horElse
    rw [bind_of_success horElse, bind_of_success hq, Outcome.after_after]

theorem optional_bind_of_success {f : Option α → Parser β} (h : p c = .success value next met) :
    (optional p >>= f) c = (f (some value) next).after met := by
  have hsome : (some <$> p) c = .success (some value) next met := by
    rw [map_eq_pure_bind, bind_of_success h]
    exact congrArg (Outcome.success (some value) next) Option.merge_none_right
  exact (orElse_bind_of_success hsome).trans (bind_of_success hsome)

theorem optional_bind_of_failure {f : Option α → Parser β} (h : p c = .failure o) :
    (optional p >>= f) c = (f none c).after (some o) := by
  have hsome : (some <$> p) c = .failure o := by
    rw [map_eq_pure_bind, bind_of_failure h]
  rw [← pure_bind none f]
  exact orElse_bind_of_failure hsome

theorem many_of_failure (h : p c = .failure o) : many p c = .success [] c (some o) := by
  rw [many, h]

theorem many_of_success (h : p c = .success value next met)
    (hprogress : next.ahead.length < c.ahead.length) :
    many p c = ((many p next).map (value :: ·)).after met := by
  rw [many, h]
  exact if_pos hprogress

theorem many_bind_of_failure {f : List α → Parser β} (h : p c = .failure o) :
    (many p >>= f) c = (f [] c).after (some o) :=
  bind_of_success (many_of_failure h)

theorem many_bind_of_success {f : List α → Parser β} (h : p c = .success value next met)
    (hprogress : next.ahead.length < c.ahead.length) :
    (many p >>= f) c = ((many p >>= fun others => f (value :: others)) next).after met := by
  have hmany := many_of_success h hprogress
  cases hnext : many p next with
  | failure o =>
    rw [hnext] at hmany
    rw [bind_of_failure hmany, bind_of_failure hnext]
    rfl
  | success others next' met' =>
    rw [hnext] at hmany
    rw [bind_of_success hmany, bind_of_success hnext, Outcome.after_after]

theorem run_of_whole {n : Nat} {ts : List Token} (h : p ⟨0, ts⟩ = .success value ⟨n, []⟩ met) :
    p.run ts = .ok value := by
  unfold run
  dsimp only
  rw [bind_of_success h]
  rfl

/-- The token at which the end was expected does not come to light if something was in the way
there or further on. -/
theorem run_of_rest {k : Nat} {t : Token} {ts rest : List Token}
    (h : p ⟨0, ts⟩ = .success value ⟨k, t :: rest⟩ (some o)) (hk : k ≤ o.index) :
    p.run ts = .error o := by
  have heof : (eof >>= fun _ => pure value : Parser α) ⟨k, t :: rest⟩ =
      .failure ⟨k, some t.lexeme⟩ := rfl
  unfold run
  dsimp only
  rw [bind_of_success h, heof, Outcome.failure_after hk]

/-! ## One token -/

section

variable {index : Nat} {ts : List Token}

theorem tryMap_any_cons (test : Token → Option α) (t : Token) :
    any.tryMap test ⟨index, t :: ts⟩ =
      match test t with
      | some value => .success value ⟨index + 1, ts⟩ none
      | none => .failure ⟨index, none⟩ :=
  rfl

theorem bind_tryMap_some {test : Token → Option α} {t : Token} (h : test t = some value) :
    (any.tryMap test >>= f) ⟨index, t :: ts⟩ = f value ⟨index + 1, ts⟩ := by
  have htest : any.tryMap test ⟨index, t :: ts⟩ = .success value ⟨index + 1, ts⟩ none := by
    rw [tryMap_any_cons, h]
  rw [bind_of_success htest, Outcome.after_none]

theorem bind_tryMap_none {test : Token → Option α} (h : ∀ t ∈ ts.head?, test t = none) :
    (any.tryMap test >>= f) ⟨index, ts⟩ = .failure ⟨index, none⟩ := by
  apply bind_of_failure
  cases ts with
  | nil => rfl
  | cons t ts => rw [tryMap_any_cons, h t rfl]

theorem symbol_accepts {f : Token → Parser β} (place : Span) (lexeme : Lexeme) :
    (symbol lexeme >>= f) ⟨index, ⟨place, lexeme⟩ :: ts⟩ = f ⟨place, lexeme⟩ ⟨index + 1, ts⟩ :=
  bind_tryMap_some (by simp)

theorem symbol_refuses {f : Token → Parser β} {lexeme : Lexeme}
    (h : ∀ t ∈ ts.head?, t.lexeme ≠ lexeme) :
    (symbol lexeme >>= f) ⟨index, ts⟩ = .failure ⟨index, none⟩ :=
  bind_tryMap_none fun t ht => by simp [h t ht]

theorem literal_accepts {f : Located UInt32 → Parser β} (place : Span) (value : UInt32) :
    (literal >>= f) ⟨index, ⟨place, .literal value⟩ :: ts⟩ = f ⟨place, value⟩ ⟨index + 1, ts⟩ :=
  bind_tryMap_some rfl

theorem literal_refuses {f : Located UInt32 → Parser β}
    (h : ∀ t ∈ ts.head?, ∀ value, t.lexeme ≠ .literal value) :
    (literal >>= f) ⟨index, ts⟩ = .failure ⟨index, none⟩ := by
  refine bind_tryMap_none fun t ht => ?_
  unfold Token.literal?
  split
  · rename_i value heq
    exact absurd heq (h t ht value)
  all_goals rfl

theorem name_accepts {f : Located String → Parser β} (place : Span) (name : String) :
    (Parser.name >>= f) ⟨index, ⟨place, .identifier name⟩ :: ts⟩ =
      f ⟨place, name⟩ ⟨index + 1, ts⟩ :=
  bind_tryMap_some rfl

theorem name_refuses {f : Located String → Parser β}
    (h : ∀ t ∈ ts.head?, ∀ name, t.lexeme ≠ .identifier name) :
    (Parser.name >>= f) ⟨index, ts⟩ = .failure ⟨index, none⟩ := by
  refine bind_tryMap_none fun t ht => ?_
  unfold Token.name?
  split
  · rename_i name heq
    exact absurd heq (h t ht name)
  all_goals rfl

theorem keyword_accepts {f : Token → Parser β} {word name : String}
    (h : isKeyword word name = true) (place : Span) :
    (keyword word >>= f) ⟨index, ⟨place, .identifier name⟩ :: ts⟩ =
      f ⟨place, .identifier name⟩ ⟨index + 1, ts⟩ :=
  bind_tryMap_some (by simp [Token.name?, h])

theorem keyword_refuses {f : Token → Parser β} {word : String}
    (h : ∀ t ∈ ts.head?, ∀ name, t.lexeme = .identifier name → isKeyword word name = false) :
    (keyword word >>= f) ⟨index, ts⟩ = .failure ⟨index, none⟩ := by
  refine bind_tryMap_none fun t ht => ?_
  have hname : t.name?.any (isKeyword word ·.value) = false := by
    unfold Token.name?
    split
    · rename_i name heq
      exact h t ht name heq
    all_goals rfl
  simp [hname]

theorem keyword_refuses_name {f : Token → Parser β} {word name : String}
    (h : isKeyword word name = false) (place : Span) :
    (keyword word >>= f) ⟨index, ⟨place, .identifier name⟩ :: ts⟩ = .failure ⟨index, none⟩ :=
  bind_tryMap_none fun t ht => by
    cases ht
    simp [Token.name?, h]

end

end Parser

end Compare68k.Script
