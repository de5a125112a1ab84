import Compare68k.Proofs.Bus.Logged
import Compare68k.Proofs.Operand.Delivery
/-!
# The accesses of an operand

Every activity that is not idle makes one call to the bus.  Main statement: an operand that is read
without interference makes the calls that its mode's activities ask for, at the address that the
extension words give which were read among them.
-/

namespace Compare68k

namespace Logged

variable {β : Type}

def Grown (bus bus' : Logged β) (n : Nat) : Prop :=
  ∃ calls, bus'.calls = bus.calls ++ calls ∧ calls.length = n

variable {bus bus' bus'' : Logged β} {m n : Nat}

theorem Grown.refl (bus : Logged β) : bus.Grown bus 0 :=
  ⟨[], (List.append_nil _).symm, rfl⟩

theorem Grown.trans (h : bus.Grown bus' m) (h' : bus'.Grown bus'' n) : bus.Grown bus'' (m + n) := by
  obtain ⟨first, hfirst, rfl⟩ := h
  obtain ⟨second, hsecond, rfl⟩ := h'
  refine ⟨first ++ second, ?_, List.length_append⟩
  rw [hsecond, hfirst, List.append_assoc]

end Logged

variable {β : Type} [Bus β]

/-! ## One call for each access -/

namespace Resolution

variable {r r' : Resolution} {c : Cycle} {cs : List Cycle} {regs regs' : Registers}
  {bus bus' : Logged β} {value : UInt32}

theorem grown_of_perform (hc : c.isWrite = false)
    (h : r.perform c regs bus = .ok (r', regs', bus')) : bus.Grown bus' (Cycle.accesses [c]) := by
  cases c with
  | idle =>
    simp only [perform] at h
    split at h
    · obtain ⟨a, -, h⟩ := exists_of_bind h
      cases h
      exact .refl _
    · cases h
      exact .refl _
  | prefetch =>
    cases h
    exact ⟨[_], rfl, rfl⟩
  | readHigh =>
    obtain ⟨a, -, h⟩ := exists_of_bind h
    cases h
    exact ⟨[_], rfl, rfl⟩
  | read =>
    obtain ⟨a, -, h⟩ := exists_of_bind h
    split at h <;>
    · cases h
      exact ⟨[_], rfl, rfl⟩
  | write | writeHigh => cases hc

theorem grown_of_gather (hcs : ∀ c ∈ cs, c.isWrite = false)
    (h : r.gather regs bus cs = .ok (value, regs', bus')) : bus.Grown bus' (Cycle.accesses cs) := by
  induction cs generalizing r regs bus with
  | nil =>
    obtain ⟨v, -, h⟩ := exists_of_bind h
    cases h
    exact .refl _
  | cons c cs ih =>
    obtain ⟨⟨r₁, regs₁, bus₁⟩, hperform, h⟩ := exists_of_bind h
    have hfirst := grown_of_perform (hcs c List.mem_cons_self) hperform
    have hlater := ih (fun c hc => hcs c (List.mem_cons_of_mem _ hc)) h
    rw [← List.singleton_append, Cycle.accesses_append]
    exact hfirst.trans hlater

theorem Sound.grown_of_resolve (hr : r.Sound)
    (h : r.resolve regs bus = .ok (value, regs', bus')) :
    bus.Grown bus' (Cycle.accesses r.pending) := by
  obtain ⟨⟨r₁, regs₁⟩, hprepare, h⟩ := exists_of_bind h
  have hpending : r₁.pending = r.pending := (extends_of_prepare hprepare).1.pending
  rw [← hpending]
  refine grown_of_gather (fun c hc => ?_) h
  rw [hpending] at hc
  exact Mode.isWrite_of_mem_pattern (hr.pending_suffix.mem hc)

end Resolution

/-! ## The calls of a whole operand -/

theorem Logged.words_calls (bus : Logged β) (b : Address) (n : Nat) :
    ∃ calls, (Bus.words bus b n).2.calls = bus.calls ++ calls ∧
      Call.wordsRead calls = (Bus.words bus b n).1 ∧
      ∀ size a, calls.map Call.request = Cycle.requests size a b (.replicate n .prefetch) := by
  induction n generalizing bus b with
  | zero => exact ⟨[], (List.append_nil _).symm, rfl, fun _ _ => rfl⟩
  | succ n ih =>
    obtain ⟨calls, hcalls, hwords, hrequests⟩ := ih (Bus.readWord bus b).2 (b + 2)
    refine ⟨.readWord b (Bus.readWord bus b).1 :: calls, ?_, ?_, fun size a => ?_⟩
    · show (Bus.words (Bus.readWord bus b).2 (b + 2) n).2.calls = _
      rw [hcalls]
      exact List.append_assoc _ _ _
    · exact congrArg (List.cons _) hwords
    · rw [List.map_cons, hrequests size a]
      rfl

theorem Logged.operand_calls (bus : Logged β) (size : Size) (a : Address) :
    ∃ calls, (Bus.operand bus size a).2.calls = bus.calls ++ calls ∧
      ∀ pc, calls.map Call.request = Cycle.requests size a pc (Mode.fetch size) := by
  cases size with
  | byte | word => exact ⟨[_], rfl, fun _ => rfl⟩
  | long => exact ⟨[_, _], List.append_assoc _ _ _, fun _ => rfl⟩

theorem Bus.length_words (bus : β) (a : Address) (n : Nat) : (words bus a n).1.length = n := by
  induction n generalizing bus a with
  | zero => rfl
  | succ n ih => exact congrArg (· + 1) (ih _ _)

namespace Mode

variable {m : Mode} {size : Size}

/-- The calls that bring an operand in, with the program counter at its extension words. -/
def Calls (m : Mode) (size : Size) (regs : Registers) (calls : List Call) : Prop :=
  calls.map Call.request =
    Cycle.requests size (m.address size (Call.wordsRead calls) regs) regs.pc (m.pattern size)

theorem address_append {words : List UInt16} (h : words.length = m.extensionWords size)
    (more : List UInt16) (regs : Registers) :
    m.address size (words ++ more) regs = m.address size words regs := by
  cases m with
  | disp n | index n | absShort | pcDisp | pcIndex =>
    obtain ⟨w, rfl⟩ := List.length_eq_one_iff.mp h
    rfl
  | absLong =>
    obtain ⟨w, v, rfl⟩ := List.length_eq_two.mp h
    rfl
  | _ => rfl

theorem requests_pattern (h : m.category = .memory ∨ m.category = .pcRelative) (size : Size)
    (a pc : Address) :
    Cycle.requests size a pc (m.pattern size) =
      Cycle.requests size a pc (.replicate (m.extensionWords size) .prefetch) ++
        Cycle.requests size a pc (fetch size) := by
  cases m with
  | dataReg n | addrReg n | immediate => rcases h with h | h <;> cases h
  | _ => cases size <;> rfl

theorem calls_of_memory (h : m.category = .memory ∨ m.category = .pcRelative) (size : Size)
    (regs : Registers) (bus : Logged β) :
    let taken := Bus.words bus regs.pc (m.extensionWords size)
    ∃ calls, (Bus.operand taken.2 size (m.address size taken.1 regs)).2.calls = bus.calls ++ calls ∧
      m.Calls size regs calls := by
  intro taken
  obtain ⟨first, hfirst, hwords, hfirstRequests⟩ :=
    bus.words_calls regs.pc (m.extensionWords size)
  obtain ⟨second, hsecond, hsecondRequests⟩ :=
    taken.2.operand_calls size (m.address size taken.1 regs)
  have hlength : (Call.wordsRead first).length = m.extensionWords size := by
    rw [hwords]
    exact Bus.length_words bus regs.pc _
  have haddress : m.address size (Call.wordsRead (first ++ second)) regs =
      m.address size taken.1 regs := by
    rw [Call.wordsRead, List.filterMap_append]
    show m.address size (Call.wordsRead first ++ Call.wordsRead second) regs = _
    rw [address_append hlength, hwords]
  refine ⟨first ++ second, ?_, ?_⟩
  · rw [hsecond, ← List.append_assoc, ← hfirst]
  · rw [Calls, haddress, requests_pattern h, List.map_append, hfirstRequests, hsecondRequests]

/-- What a mode reads on any bus, call by call. -/
theorem exists_calls (m : Mode) (size : Size) (regs : Registers) (bus : Logged β) :
    ∃ calls, (m.read size regs bus).2.calls = bus.calls ++ calls ∧ m.Calls size regs calls := by
  cases m with
  | dataReg n | addrReg n => exact ⟨[], (List.append_nil _).symm, rfl⟩
  | immediate =>
    obtain ⟨calls, hcalls, -, hrequests⟩ :=
      bus.words_calls regs.pc (immediate.extensionWords size)
    refine ⟨calls, hcalls, ?_⟩
    rw [Calls, hrequests size]
    cases size <;> rfl
  | indirect n | postInc n | preDec n | disp n | index n | absShort | absLong =>
    exact calls_of_memory (.inl rfl) size regs bus
  | pcDisp | pcIndex => exact calls_of_memory (.inr rfl) size regs bus

theorem Calls.length {regs : Registers} {calls : List Call} (h : m.Calls size regs calls) :
    calls.length = Cycle.accesses (m.pattern size) := by
  rw [← List.length_map Call.request, h, Cycle.length_requests]

theorem Calls.isRead {regs : Registers} {calls : List Call} (h : m.Calls size regs calls)
    {call : Call} (hcall : call ∈ calls) : call.request.isRead = true := by
  have hrequest : call.request ∈ calls.map Call.request := List.mem_map_of_mem hcall
  rw [h] at hrequest
  exact Cycle.isRead_of_mem_requests (fun c hc => isWrite_of_mem_pattern hc) hrequest

end Mode

end Compare68k
