/-!
# Hexadecimal text

Hexadecimal numbers, in as many digits as they need or padded with zeros to a least width.
Digits are upper-case, except in the numbers of characters.
-/

namespace Compare68k.Text.Hex

def digit (n : Nat) : Char :=
  if n < 10 then Char.ofNat (0x30 + n) else Char.ofNat (0x37 + n)

/-- The digits of a number, most significant first and without leading zeros. -/
def digits (n : Nat) : List Char :=
  if n < 16 then [digit n] else digits (n / 16) ++ [digit (n % 16)]

def text (n : Nat) : String :=
  String.ofList (digits n)

def lower (n : Nat) : String :=
  String.ofList ((digits n).map Char.toLower)

/-- A number in at least the given number of digits. -/
def padded (width n : Nat) : String :=
  String.ofList (List.replicate (width - (digits n).length) '0' ++ digits n)

end Compare68k.Text.Hex
