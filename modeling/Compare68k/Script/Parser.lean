import Compare68k.Script.Token
/-!
# Parsers

Reading a value off the front of a list of tokens.  A choice tries its second alternative only if
the first fails, and then from where the first began; what is left aside in this way is not lost
sight of, though: the furthest token that stood in the way of anything is kept, and if the whole
fails in the end, it fails at that token.
-/

namespace Compare68k.Script

/-- A place in a list of tokens: how many have been read, and those that have not. -/
structure Cursor where
  index : Nat
  ahead : List Token

/-- A token in the way, by its number, and what it is if that is told. -/
structure Obstacle where
  index : Nat
  found : Option Lexeme
deriving DecidableEq

/-- The further of two obstacles, or the earlier met if it is the same token. -/
def Obstacle.further (earlier later : Obstacle) : Obstacle :=
  if earlier.index < later.index then later else earlier

inductive Outcome (α : Type) where
  /-- A value, the place behind it and the furthest obstacle met in looking for it. -/
  | success (value : α) (next : Cursor) (met : Option Obstacle)
  | failure (met : Obstacle)

namespace Outcome

variable {α β : Type}

def after (met : Option Obstacle) : Outcome α → Outcome α
  | success value next later => success value next (Option.merge Obstacle.further met later)
  | failure later => failure (met.elim later (·.further later))

def map (f : α → β) : Outcome α → Outcome β
  | success value next met => success (f value) next met
  | failure met => failure met

end Outcome

def Parser (α : Type) : Type :=
  Cursor → Outcome α

namespace Parser

variable {α β : Type}

instance : Monad Parser where
  pure value := fun c => .success value c none
  bind p f := fun c =>
    match p c with
    | .success value next met => (f value next).after met
    | .failure met => .failure met

/-- A choice.  Once the first alternative succeeds there is no way back to the second. -/
instance : OrElse (Parser α) where
  orElse p q := fun c =>
    match p c with
    | .success value next met => .success value next met
    | .failure met => (q () c).after (some met)

def any : Parser Token
  | ⟨index, []⟩ => .failure ⟨index, none⟩
  | ⟨index, t :: ts⟩ => .success t ⟨index + 1, ts⟩ none

def tryMap (p : Parser α) (f : α → Option β) : Parser β := fun c =>
  match p c with
  | .success value next met =>
    match f value with
    | some result => .success result next met
    | none => Outcome.after met (.failure ⟨c.index, none⟩)
  | .failure met => .failure met

def filter (p : Parser α) (holds : α → Bool) : Parser α :=
  p.tryMap (Option.guard holds)

def optional (p : Parser α) : Parser (Option α) :=
  some <$> p <|> pure none

/-- Reads again and again, until that fails or reads nothing. -/
def many (p : Parser α) : Parser (List α) := fun c =>
  match p c with
  | .failure met => .success [] c (some met)
  | .success value next met =>
    if next.ahead.length < c.ahead.length then
      ((many p next).map (value :: ·)).after met
    else .success [value] next met
termination_by c => c.ahead.length

def many1 (p : Parser α) : Parser (List α) := do
  let first ← p
  let others ← p.many
  return first :: others

def sepBy1 (item : Parser α) (separator : Parser β) : Parser (α × List α) := do
  let first ← item
  let others ← many do
    let _ ← separator
    item
  return (first, others)

/-- Succeeds behind the last token.  It is the only parser that tells what it refuses. -/
def eof : Parser Unit
  | ⟨index, []⟩ => .success () ⟨index, []⟩ none
  | ⟨index, t :: _⟩ => .failure ⟨index, some t.lexeme⟩

/-- The value that all the tokens make up, or else the furthest obstacle. -/
def run (p : Parser α) (ts : List Token) : Except Obstacle α :=
  let whole : Parser α := do
    let value ← p
    eof
    return value
  match whole ⟨0, ts⟩ with
  | .success value _ _ => .ok value
  | .failure met => .error met

end Parser

end Compare68k.Script
