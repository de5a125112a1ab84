import Compare68k.Bus.Basic
import Compare68k.Proofs.Operand.Pattern
/-!
# Accesses and activities

`Logged` puts an account of its accesses on a bus, with words and bytes told apart; a peek is no
access.  `Cycle.requests` says what a sequence of activities asks of the bus, one access for each
that is not idle.  Maps between buses that reading respects, such as forgetting the account, are
`Carries`.
-/

namespace Compare68k

inductive Request where
  | readByte (a : Address)
  | readWord (a : Address)
  | writeByte (a : Address)
  | writeWord (a : Address)
deriving DecidableEq, Repr

def Request.isRead : Request → Bool
  | readByte _ | readWord _ => true
  | writeByte _ | writeWord _ => false

inductive Call where
  | readByte (a : Address) (value : UInt8)
  | readWord (a : Address) (value : UInt16)
  | writeByte (a : Address) (value : UInt8)
  | writeWord (a : Address) (value : UInt16)
deriving DecidableEq, Repr

namespace Call

def request : Call → Request
  | readByte a _ => .readByte a
  | readWord a _ => .readWord a
  | writeByte a _ => .writeByte a
  | writeWord a _ => .writeWord a

def wordRead? : Call → Option UInt16
  | readWord _ value => some value
  | readByte _ _ | writeByte _ _ | writeWord _ _ => none

def wordsRead (calls : List Call) : List UInt16 :=
  calls.filterMap wordRead?

end Call

/-- A bus with the calls made to it, oldest first. -/
structure Logged (β : Type) where
  inner : β
  calls : List Call := []

namespace Logged

variable {β : Type} [Bus β]

instance : Bus (Logged β) where
  description bus := Bus.description bus.inner
  peekByte bus a := Bus.peekByte bus.inner a
  peekWord bus a := Bus.peekWord bus.inner a
  readByte bus a :=
    let read := Bus.readByte bus.inner a
    (read.1, ⟨read.2, bus.calls ++ [.readByte a read.1]⟩)
  readWord bus a :=
    let read := Bus.readWord bus.inner a
    (read.1, ⟨read.2, bus.calls ++ [.readWord a read.1]⟩)
  writeByte bus a value :=
    ⟨Bus.writeByte bus.inner a value, bus.calls ++ [.writeByte a value]⟩
  writeWord bus a value :=
    ⟨Bus.writeWord bus.inner a value, bus.calls ++ [.writeWord a value]⟩

end Logged

/-- Both buses of a pair answer reads in the same way, and the buses they leave are a pair. -/
structure Bus.Carries {α β : Type} [Bus α] [Bus β] (f : α → β) : Prop where
  readByte : ∀ bus a, Bus.readByte (f bus) a = ((Bus.readByte bus a).1, f (Bus.readByte bus a).2)
  readWord : ∀ bus a, Bus.readWord (f bus) a = ((Bus.readWord bus a).1, f (Bus.readWord bus a).2)

theorem Logged.carries_inner {β : Type} [Bus β] : Bus.Carries (inner : Logged β → β) :=
  ⟨fun _ _ => rfl, fun _ _ => rfl⟩

/-! ## What activities ask for -/

namespace Cycle

def request? (size : Size) (a pc : Address) : Cycle → Option Request
  | idle => none
  | prefetch => some (.readWord pc)
  | readHigh => some (.readWord a)
  | read =>
    match size with
    | .byte => some (.readByte a)
    | .word => some (.readWord a)
    | .long => some (.readWord (a + 2))
  | writeHigh => some (.writeWord a)
  | write =>
    match size with
    | .byte => some (.writeByte a)
    | .word => some (.writeWord a)
    | .long => some (.writeWord (a + 2))

/-- What a sequence of activities asks of the bus.  Prefetches move the program counter on. -/
def requests (size : Size) (a : Address) : Address → List Cycle → List Request
  | _, [] => []
  | pc, c :: cs =>
    (c.request? size a pc).toList ++ requests size a (if c = .prefetch then pc + 2 else pc) cs

def accesses (cs : List Cycle) : Nat :=
  cs.countP (· ≠ .idle)

theorem accesses_append (cs ds : List Cycle) : accesses (cs ++ ds) = accesses cs + accesses ds :=
  List.countP_append

theorem length_request? (size : Size) (a pc : Address) (c : Cycle) :
    (c.request? size a pc).toList.length = accesses [c] := by
  cases c <;> cases size <;> rfl

theorem length_requests (size : Size) (a pc : Address) (cs : List Cycle) :
    (requests size a pc cs).length = accesses cs := by
  induction cs generalizing pc with
  | nil => rfl
  | cons c cs ih =>
    rw [requests, List.length_append, ih, length_request?, ← accesses_append, List.singleton_append]

theorem isRead_of_mem_requests {size : Size} {a pc : Address} {cs : List Cycle}
    (h : ∀ c ∈ cs, c.isWrite = false) {request : Request} (hr : request ∈ requests size a pc cs) :
    request.isRead = true := by
  induction cs generalizing pc with
  | nil => cases hr
  | cons c cs ih =>
    rw [requests, List.mem_append] at hr
    rcases hr with hfirst | hlater
    · have hc := h c List.mem_cons_self
      cases c with
      | idle => cases hfirst
      | prefetch | readHigh =>
        rw [List.mem_singleton.mp hfirst]
        rfl
      | read =>
        cases size <;>
        · rw [List.mem_singleton.mp hfirst]
          rfl
      | write | writeHigh => cases hc
    · exact ih (fun c hc => h c (List.mem_cons_of_mem _ hc)) hlater

end Cycle

end Compare68k
