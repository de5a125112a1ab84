/-!
# Numerals

Reading numbers written in a base up to sixteen, in either letter case.
-/

namespace Compare68k.Text.Numeral

def digitValue? (c : Char) : Option Nat :=
  if '0' ≤ c ∧ c ≤ '9' then some (c.toNat - 0x30)
  else if 'A' ≤ c ∧ c ≤ 'F' then some (c.toNat - 0x37)
  else if 'a' ≤ c ∧ c ≤ 'f' then some (c.toNat - 0x57)
  else none

def isDigit (base : Nat) (c : Char) : Bool :=
  match digitValue? c with
  | some d => d < base
  | none => false

def value (base : Nat) (digits : List Char) : Nat :=
  digits.foldl (fun n c => n * base + (digitValue? c).getD 0) 0

def read? (base : Nat) (text : List Char) : Option Nat :=
  if !text.isEmpty && text.all (isDigit base) then some (value base text) else none

/-- The number below a limit that a text stands for, which may begin with a plus sign. -/
def below? (base limit : Nat) (text : List Char) : Option Nat :=
  let digits :=
    match text with
    | '+' :: rest => rest
    | _ => text
  (read? base digits).filter (· < limit)

end Compare68k.Text.Numeral
