import Compare68k.Script.Span
/-!
# Lexemes

What a token of a script is, and where it stands.
-/

namespace Compare68k.Script

inductive Lexeme where
  | comma
  | equals
  | identifier (name : String)
  | literal (value : UInt32)
  | linebreak
deriving DecidableEq, Repr

def Lexeme.kind : Lexeme → String
  | comma => "comma"
  | equals => "equals sign"
  | identifier _ => "identifier"
  | literal _ => "int literal"
  | linebreak => "linebreak"

structure Located (α : Type) where
  span : Span
  value : α
deriving DecidableEq

structure Token where
  span : Span
  lexeme : Lexeme
deriving DecidableEq

namespace Token

def isBreak (t : Token) : Bool :=
  t.lexeme = .linebreak

def name? (t : Token) : Option (Located String) :=
  match t.lexeme with
  | .identifier name => some ⟨t.span, name⟩
  | .comma | .equals | .literal _ | .linebreak => none

def literal? (t : Token) : Option (Located UInt32) :=
  match t.lexeme with
  | .literal value => some ⟨t.span, value⟩
  | .comma | .equals | .identifier _ | .linebreak => none

end Token

end Compare68k.Script
