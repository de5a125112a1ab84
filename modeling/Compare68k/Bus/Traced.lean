import Compare68k.Bus.Basic
/-!
# Traced buses

A bus that passes every access on to another bus and keeps a log of them.  It answers words
byte by byte, so the log lists single bytes at the addresses that were asked for.
-/

namespace Compare68k

/-- What an access did with its byte. -/
inductive AccessKind where
  | peek
  | read
  | write
deriving DecidableEq, Repr, Inhabited

structure Access where
  kind : AccessKind
  address : Address
  value : UInt8
deriving DecidableEq, Repr, Inhabited

/-- A bus with the accesses made to it, oldest first. -/
structure Traced (β : Type) where
  inner : β
  log : Array Access := #[]

namespace Traced

variable {β : Type} [Bus β]

def note (t : Traced β) (kind : AccessKind) (a : Address) (value : UInt8) : Traced β :=
  { t with log := t.log.push ⟨kind, a, value⟩ }

instance : Bus (Traced β) where
  description _ := "trace bus"
  peekByte t a := Bus.peekByte t.inner a
  readByte t a :=
    let (value, inner) := Bus.readByte t.inner a
    (value, { t with inner }.note .read a value)
  writeByte t a value := { t with inner := Bus.writeByte t.inner a value }.note .write a value

def notePeeks (t : Traced β) (addresses : List Address) : Traced β :=
  addresses.foldl (fun t a => t.note .peek a (Bus.peekByte t a)) t

end Traced

end Compare68k
