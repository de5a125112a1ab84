import Compare68k.Text.Hex
import Compare68k.Text.Unshown
/-!
# Escaped characters

Text as messages show it.  Quotes, the backslash and the common controls have an escape of
their own, and what cannot be shown is spelled out by its number.  In `ascii` that is every
character that is not printable ASCII; in `quoted` it is every character that cannot be shown
on its own.
-/

namespace Compare68k.Text.Escaped

def spelled (c : Char) : String :=
  "\\u\x7b" ++ Hex.lower c.toNat ++ "\x7d"

def short? : Char → Option String
  | '\t' => some "\\t"
  | '\r' => some "\\r"
  | '\n' => some "\\n"
  | '"' => some "\\\""
  | '\\' => some "\\\\"
  | _ => none

def ascii (c : Char) : String :=
  match short? c with
  | some e => e
  | none =>
    if c = '\'' then "\\'"
    else if 0x20 ≤ c.toNat ∧ c.toNat ≤ 0x7E then c.toString
    else spelled c

def inQuotes (c : Char) : String :=
  match short? c with
  | some e => e
  | none =>
    if c.toNat = 0 then "\\0"
    else if Unshown.isUnshown c then spelled c
    else c.toString

def quoted (s : String) : String :=
  "\"" ++ String.join (s.toList.map inQuotes) ++ "\""

end Compare68k.Text.Escaped
