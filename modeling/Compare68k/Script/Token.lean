import Compare68k.Script.Complaint
import Compare68k.Text.Numeral
/-!
# Tokens

A script as tokens.  Every token is a first character and the longest run of characters that
can follow it; what may follow depends on the first character alone.  Blanks and comments are
read in the same way and left out.
-/

namespace Compare68k.Script

def isBlank (c : Char) : Bool :=
  c = ' ' || c = '\t' || c = '\r'

def isLetter (c : Char) : Bool :=
  c = '_' || 'A' ≤ c && c ≤ 'Z' || 'a' ≤ c && c ≤ 'z'

def isLetterOrDigit (c : Char) : Bool :=
  isLetter c || Text.Numeral.isDigit 10 c

/-- Whether a character goes on what the first character began. -/
def continues (first : Char) : Char → Bool :=
  if first = ';' then (· ≠ '\n')
  else if first = '$' then Text.Numeral.isDigit 16
  else if first = '%' then Text.Numeral.isDigit 2
  else if Text.Numeral.isDigit 10 first then Text.Numeral.isDigit 10
  else if isLetter first then isLetterOrDigit
  else fun _ => false

/-- What a stretch of text turns out to be. -/
inductive Reading where
  /-- A blank or a comment. -/
  | skipped
  | token (lexeme : Lexeme)
  | wrong (cause : Cause)
deriving DecidableEq

def readLiteral (text : List Char) (base : Nat) (digits : List Char) : Reading :=
  let n := Text.Numeral.value base digits
  if n < UInt32.size then .token (.literal (UInt32.ofNat n))
  else .wrong (.literalTooLarge (String.ofList text))

def read (first : Char) (run : List Char) : Reading :=
  if isBlank first || first = ';' then .skipped
  else if first = '\n' then .token .linebreak
  else if first = ',' then .token .comma
  else if first = '=' then .token .equals
  else if isLetter first then .token (.identifier (String.ofList (first :: run)))
  else if Text.Numeral.isDigit 10 first then readLiteral (first :: run) 10 (first :: run)
  else if first = '$' && !run.isEmpty then readLiteral (first :: run) 16 run
  else if first = '%' && !run.isEmpty then readLiteral (first :: run) 2 run
  else .wrong (.invalidCharacter first)

/-- The tokens of a text that begins at an offset, and what is wrong with the text between
them. -/
def lexFrom (offset : Nat) : List Char → List (Except Complaint Token)
  | [] => []
  | c :: cs =>
    let run := cs.takeWhile (continues c)
    let rest := cs.dropWhile (continues c)
    let span : Span := ⟨offset, offset + byteLength (c :: run), Nat.le_add_right _ _⟩
    match read c run with
    | .skipped => lexFrom span.stop rest
    | .token lexeme => .ok ⟨span, lexeme⟩ :: lexFrom span.stop rest
    | .wrong cause => .error ⟨span, cause⟩ :: lexFrom span.stop rest
termination_by cs => cs.length
decreasing_by
  all_goals
    have := (List.dropWhile_suffix (continues c) (l := cs)).length_le
    simp only [List.length_cons]
    omega

def lex (source : String) : List (Except Complaint Token) :=
  lexFrom 0 source.toList

end Compare68k.Script
