/-!
# Spans

Stretches of a text, by byte offsets, and the line and column at which one begins.
-/

namespace Compare68k.Script

def byteLength : List Char → Nat
  | [] => 0
  | c :: cs => c.utf8Size + byteLength cs

/-- The bytes from one offset up to another. -/
structure Span where
  start : Nat
  stop : Nat
  start_le_stop : start ≤ stop := by omega
deriving DecidableEq

namespace Span

def ofOffsets? (start stop : Nat) : Option Span :=
  if h : start ≤ stop then some ⟨start, stop, h⟩ else none

def point (offset : Nat) : Span :=
  ⟨offset, offset, Nat.le_refl _⟩

def merge (s t : Span) : Span where
  start := min s.start t.start
  stop := max s.stop t.stop
  start_le_stop := by have := s.start_le_stop; omega

end Span

/-- The characters that the first bytes of a text make up, or the whole text if it is shorter.
There are none if the cut falls inside a character. -/
def takeBytes? : Nat → List Char → Option (List Char)
  | 0, _ => some []
  | _ + 1, [] => some []
  | n + 1, c :: cs =>
    if c.utf8Size ≤ n + 1 then (takeBytes? (n + 1 - c.utf8Size) cs).map (c :: ·) else none

def placeBehind (before : List Char) : Nat × Nat :=
  (before.count '\n' + 1, byteLength (before.reverse.takeWhile (· ≠ '\n')))

/-- The line and column at which a span begins in a text, unless it begins inside a
character. -/
def Span.lineAndColumn? (s : Span) (source : String) : Option (Nat × Nat) :=
  (takeBytes? s.start source.toList).map placeBehind

end Compare68k.Script
