import Compare68k.Script.Lexeme
import Compare68k.Text.Escaped
import Compare68k.Text.Hex
/-!
# Complaints about scripts

What can be wrong with the text of a script, and where.
-/

namespace Compare68k.Script

inductive Cause where
  /-- A character that begins no token. -/
  | invalidCharacter (c : Char)
  /-- A number that does not fit in a long word. -/
  | literalTooLarge (text : String)
  /-- A token that continues no statement, if it is told which. -/
  | unexpected (found : Option Lexeme)
  /-- A name that no register has. -/
  | unknownRegister (name : String)
  /-- A number that does not fit in a word. -/
  | notAWord (value : UInt32)
  | zeroCount
deriving DecidableEq, Repr

def Cause.message : Cause → String
  | invalidCharacter c => "invalid character: " ++ Text.Escaped.ascii c
  | literalTooLarge text => "integer literal too large: " ++ text
  | unexpected (some found) => "unexpected " ++ found.kind
  | unexpected none => "unexpected end of script"
  | unknownRegister name => "unknown register: " ++ name
  | notAWord value => "$" ++ Text.Hex.text value.toNat ++ " does not fit in a word"
  | zeroCount => "step count must be at least 1"

structure Complaint where
  span : Span
  cause : Cause
deriving DecidableEq

def Complaint.message (c : Complaint) : String :=
  c.cause.message

end Compare68k.Script
