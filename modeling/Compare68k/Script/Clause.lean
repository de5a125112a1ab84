import Compare68k.Script.Parser
/-!
# Clauses

The statements of a script as they are written, before register names and values have been
checked.  A script is clauses with line breaks behind each of them and as many as one likes in
front.  What a clause begins with decides little: the keyword for memory is a name like any other
where no address follows it, and then the clause is read again from its beginning.
-/

namespace Compare68k.Script

inductive Clause where
  | assign (name : Located String) (value : Located UInt32)
  /-- An address and the words to store from there on, the last of them on its own. -/
  | mem (keyword : Span) (address : Located UInt32) (words : List (Located UInt32))
    (last : Located UInt32)
  | step (keyword : Span) (count : Option (Located UInt32))
deriving DecidableEq

def isKeyword (keyword name : String) : Bool :=
  name.toList.map Char.toLower = keyword.toList

namespace Parser

def symbol (lexeme : Lexeme) : Parser Token :=
  any.filter (·.lexeme = lexeme)

def name : Parser (Located String) :=
  any.tryMap Token.name?

def literal : Parser (Located UInt32) :=
  any.tryMap Token.literal?

def keyword (word : String) : Parser Token :=
  any.filter fun t => t.name?.any (isKeyword word ·.value)

def linebreaks : Parser Unit := do
  let _ ← many1 (symbol .linebreak)

def mem : Parser Clause := do
  let keyword ← keyword "mem"
  let address ← literal
  let _ ← symbol .equals
  let (first, others) ← literal.sepBy1 (symbol .comma)
  return .mem keyword.span address (first :: others).dropLast (others.getLastD first)

def step : Parser Clause := do
  let keyword ← keyword "step"
  let count ← literal.optional
  return .step keyword.span count

def assign : Parser Clause := do
  let name ← name
  let _ ← symbol .equals
  let value ← literal
  return .assign name value

def clause : Parser Clause := do
  let c ← mem <|> step <|> assign
  linebreaks
  return c

def script : Parser (List Clause) := do
  let _ ← many (symbol .linebreak)
  many clause

end Parser

/-- The place of a token by its number, or behind the last token if there is none of the number. -/
def placeOf (tokens : List Token) (index : Nat) : Span :=
  match tokens[index]? with
  | some t => t.span
  | none =>
    match tokens.getLast? with
    | some t => .point t.span.stop
    | none => .point 0

/-- The clauses that the tokens of a script make up, or what stands in their way. -/
def readClauses (tokens : List Token) : Except Complaint (List Clause) :=
  match Parser.script.run tokens with
  | .ok cs => .ok cs
  | .error met => .error ⟨placeOf tokens met.index, .unexpected met.found⟩

end Compare68k.Script
