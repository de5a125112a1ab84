import Compare68k.Bus.Ram
import Compare68k.Proofs.Listing.Identity
import Compare68k.Proofs.Operand.Calls
/-!
# What the text of an operand means

An operand in assembler notation denotes a register, a place in memory or a constant.  The address
of a place is a sum of integers, modulo `2 ^ 32`.  Main statement: whoever asks for an operand until
it is there gets what its text denotes, and the bus is asked for the operand's extension words and
then for what is at the address that the text denotes.
-/

namespace Compare68k

/-! ## Meaning -/

/-- What an operand stands for. -/
inductive Denoted where
  | register (name : Register)
  | memory (a : Address)
  | constant (value : UInt32)
deriving DecidableEq, Repr

def Base.amount (b : Base) (regs : Registers) : Int :=
  match b with
  | addrReg n => (regs.get (.address n)).toNat
  | pc => regs.pc.toNat

def Index.amount (i : Index) (regs : Registers) : Int :=
  let register := regs.get (if i.isAddress then .address i.number else .data i.number)
  if i.isLong then register.toNat else register.toUInt16.toInt16.toInt

def Operand.denoted (o : Operand) (size : Size) (regs : Registers) : Denoted :=
  match o with
  | dataReg n => .register (.data n)
  | addrReg n => .register (.address n)
  | indirect n | postInc n => .memory (regs.get (.address n))
  | preDec n => .memory (regs.get (.address n) - size.step n)
  | disp d b => .memory (UInt32.ofInt (b.amount regs + d))
  | index d b i => .memory (UInt32.ofInt (b.amount regs + i.amount regs + d))
  | absShort a => .memory (UInt32.ofInt a.toInt16.toInt)
  | absLong a => .memory a
  | immediate _ value => .constant value

/-- What a text denotes, if all of it is one operand. -/
def denoted? (text : String) (size : Size) (regs : Registers) : Option Denoted :=
  match Operand.scan text.toList with
  | some (o, []) => some (o.denoted size regs)
  | _ => none

def Request.words (a : Address) : Nat → List Request
  | 0 => []
  | n + 1 => .readWord a :: words (a + 2) n

namespace Denoted

def requests (d : Denoted) (size : Size) : List Request :=
  match d, size with
  | memory a, .byte => [.readByte a]
  | memory a, .word => [.readWord a]
  | memory a, .long => [.readWord a, .readWord (a + 2)]
  | register _, _ | constant _, _ => []

def deliver {β : Type} [Bus β] (d : Denoted) (size : Size) (regs : Registers) (bus : β) :
    UInt32 × β :=
  match d with
  | register name => (regs.get name &&& size.mask, bus)
  | memory a => Bus.operand bus size a
  | constant value => (value, bus)

end Denoted

/-! ## Texts and extension words -/

theorem ofInt_toNat (v : UInt32) : UInt32.ofInt v.toNat = v := by
  have hlt := v.toNat_lt
  rw [← UInt32.toNat_inj, UInt32.ofInt, UInt32.toNat_ofNat']
  omega

theorem ofInt_toNat_add (v : UInt32) (d : Int) :
    UInt32.ofInt (v.toNat + d) = v + UInt32.ofInt d := by
  rw [UInt32.ofInt_add, ofInt_toNat]

theorem ofInt_amount (i : Index) (regs : Registers) :
    UInt32.ofInt (i.amount regs) = regs.indexValue i := by
  unfold Index.amount Registers.indexValue
  cases i.isLong with
  | true => exact ofInt_toNat _
  | false => rfl

theorem ofInt_indexed (v : UInt32) (regs : Registers) (ext : UInt16) :
    UInt32.ofInt (v.toNat + (Index.ofExtension ext).amount regs + briefDisplacement ext) =
      v + regs.indexed ext := by
  rw [Int.add_assoc, ofInt_toNat_add, Int.add_comm, UInt32.ofInt_add, ofInt_amount]
  rfl

def Mode.denotes (m : Mode) (size : Size) (words : List UInt16) (regs : Registers) : Denoted :=
  match m with
  | dataReg n => .register (.data n)
  | addrReg n => .register (.address n)
  | immediate => .constant (constant size words &&& size.mask)
  | _ => .memory (m.address size words regs)

theorem Mode.denoted_operand (m : Mode) (size : Size) (regs : Registers) (peek : Peek)
    (c : Cursor) :
    (m.operand size peek c).1.denoted size regs =
      m.denotes size ((List.range (m.extensionWords size)).map (c.wordAt peek)) regs := by
  cases m with
  | dataReg n | addrReg n | indirect n | postInc n | preDec n | absShort | absLong => rfl
  | disp n | pcDisp => exact congrArg Denoted.memory (ofInt_toNat_add _ _)
  | index n | pcIndex => exact congrArg Denoted.memory (ofInt_indexed _ regs _)
  | immediate =>
    cases size with
    | byte => exact congrArg Denoted.constant (Word.toUInt32_and_mask _).symm
    | word =>
      refine congrArg Denoted.constant (Size.and_mask_of_lt ?_).symm
      rw [UInt16.toNat_toUInt32]
      exact UInt16.toNat_lt _
    | long => exact congrArg Denoted.constant (Size.and_mask_of_lt (UInt32.toNat_lt _)).symm

theorem Mode.denoted_text {m : Mode} (h : m.wellFormed = true) (size : Size) (regs : Registers)
    (peek : Peek) (c : Cursor) :
    denoted? (m.operand size peek c).1.text size regs =
      some (m.denotes size ((List.range (m.extensionWords size)).map (c.wordAt peek)) regs) := by
  have hscan : Operand.scan ((m.operand size peek c).1.text.toList ++ []) =
      some ((m.operand size peek c).1, []) :=
    Operand.scan_text (printable_operand h) (fun c hc => nomatch hc) (by simp)
  rw [List.append_nil] at hscan
  rw [denoted?, hscan, ← Mode.denoted_operand]

theorem Cursor.position_taken (c : Cursor) (n : Nat) :
    { c with taken := c.taken + n }.position = c.position + 2 * UInt32.ofNat n := by
  simp only [position, length, UInt32.ofNat_add, UInt32.mul_add, UInt32.add_assoc]

/-! ## Deliveries -/

section

variable {β : Type} [Bus β]

theorem Mode.read_eq_deliver (m : Mode) (size : Size) (regs : Registers) (bus : β) :
    let taken := Bus.words bus regs.pc (m.extensionWords size)
    m.read size regs bus = (m.denotes size taken.1 regs).deliver size regs taken.2 := by
  cases m <;> rfl

theorem Cycle.requests_prefetch (size : Size) (a pc : Address) (n : Nat) :
    requests size a pc (.replicate n .prefetch) = Request.words pc n := by
  induction n generalizing pc with
  | zero => rfl
  | succ n ih => exact congrArg (Request.readWord pc :: ·) (ih (pc + 2))

theorem Denoted.exists_calls (d : Denoted) (size : Size) (regs : Registers) (bus : Logged β) :
    ∃ calls, (d.deliver size regs bus).2.calls = bus.calls ++ calls ∧
      calls.map Call.request = d.requests size := by
  cases d with
  | register name | constant value => exact ⟨[], (List.append_nil _).symm, rfl⟩
  | memory a =>
    obtain ⟨calls, hcalls, hrequests⟩ := bus.operand_calls size a
    refine ⟨calls, hcalls, ?_⟩
    rw [hrequests 0]
    cases size <;> rfl

theorem Denoted.exists_calls_behind (d : Denoted) (size : Size) (regs : Registers)
    (bus : Logged β) (n : Nat) :
    ∃ calls, (d.deliver size regs (Bus.words bus regs.pc n).2).2.calls = bus.calls ++ calls ∧
      calls.map Call.request = Request.words regs.pc n ++ d.requests size := by
  obtain ⟨first, hfirst, -, hfirstRequests⟩ := bus.words_calls regs.pc n
  obtain ⟨second, hsecond, hsecondRequests⟩ :=
    d.exists_calls size regs (Bus.words bus regs.pc n).2
  refine ⟨first ++ second, ?_, ?_⟩
  · rw [hsecond, hfirst, List.append_assoc]
  · rw [List.map_append, hfirstRequests size 0, Cycle.requests_prefetch, hsecondRequests]

/-- An operand, asked for until it is there, is what its text denotes.  The bus is asked for the
extension words that the text was written from and then, for an operand in memory, for what is at
the address that the text denotes.  The listing and the processor go on at the same place. -/
theorem Mode.delivers_denoted {m : Mode} (h : m.wellFormed = true) (size : Size) {cpu : Cpu}
    (hcpu : cpu.operand = none) (bus : Logged β) {peek : Peek} {c : Cursor}
    (hposition : c.position = cpu.registers.pc)
    (hpeek : (Bus.words bus cpu.registers.pc (m.extensionWords size)).1 =
      (List.range (m.extensionWords size)).map fun k =>
        peek (cpu.registers.pc + 2 * UInt32.ofNat k)) :
    let taken := Bus.words bus cpu.registers.pc (m.extensionWords size)
    let listed := m.operand size peek c
    ∃ d begun value last bus' calls,
      denoted? listed.1.text size cpu.registers = some d ∧
      cpu.beginOperand m size = .ok begun ∧
      begun.await bus (Cycle.totalTicks (m.pattern size) + 1) = .ok (some value, last, bus') ∧
      (value, bus') = d.deliver size cpu.registers taken.2 ∧
      bus'.calls = bus.calls ++ calls ∧
      calls.map Call.request =
        Request.words cpu.registers.pc (m.extensionWords size) ++ d.requests size ∧
      last.registers.pc = cpu.registers.pc + 2 * UInt32.ofNat (m.extensionWords size) ∧
      listed.2.position = last.registers.pc := by
  intro taken listed
  let begun : Cpu := { cpu with operand := some (.ofMode m size) }
  let d := m.denotes size taken.1 cpu.registers
  have hbegun : cpu.beginOperand m size = .ok begun := by
    rw [Cpu.beginOperand, hcpu]
  have hdenoted : denoted? listed.1.text size cpu.registers = some d := by
    have hwords : taken.1 = (List.range (m.extensionWords size)).map (c.wordAt peek) := by
      rw [hpeek]
      refine List.map_congr_left fun k _ => ?_
      rw [Cursor.wordAt, Cursor.position_taken, hposition]
    rw [Mode.denoted_text h, ← hwords]
  have hoperand : begun.operand = some (.ofMode m size) := rfl
  have hticks : (Resolution.ofMode m size).ticksLeft < Cycle.totalTicks (m.pattern size) + 1 := by
    rw [Resolution.ticksLeft]
    show 0 + Cycle.totalTicks (m.pattern size) < _
    omega
  obtain ⟨value, last, bus', hawait, -, hresolve⟩ :=
    Cpu.await_of_sound hoperand (Resolution.sound_ofMode size h) bus hticks
  rw [Resolution.resolve_eq_read h, Mode.read_eq_deliver] at hresolve
  obtain ⟨hvalue, hrest⟩ := Prod.mk.inj (Except.ok.inj hresolve)
  obtain ⟨hregisters, hbus⟩ := Prod.mk.inj hrest
  have hdelivered : (value, bus') = d.deliver size cpu.registers taken.2 :=
    Prod.ext hvalue.symm hbus.symm
  have hpc : last.registers.pc =
      cpu.registers.pc + 2 * UInt32.ofNat (m.extensionWords size) := by
    rw [← hregisters]
    exact m.pc_after size cpu.registers
  have hcursor : listed.2.position = last.registers.pc := by
    rw [hpc, Mode.cursor_operand, Cursor.position_taken, hposition]
  obtain ⟨calls, hcalls, hrequests⟩ :=
    d.exists_calls_behind size cpu.registers bus (m.extensionWords size)
  rw [← hdelivered] at hcalls
  exact ⟨d, begun, value, last, bus', calls, hdenoted, hbegun, hawait, hdelivered, hcalls,
    hrequests, hpc, hcursor⟩

end

/-- An address register with a whole index register and a displacement below zero. -/
theorem Mode.delivers_denoted_index :
    ∃ (bus : Logged Ram) (cpu : Cpu) (c : Cursor),
      cpu.operand = none ∧ c.position = cpu.registers.pc ∧ bus.calls = [] ∧
      (Bus.words bus cpu.registers.pc 1).1 = [0xA8F0] ∧
      ((Mode.index 0).operand .word (Bus.peekWord bus) c).1.text = "-$10(A0,A2.L)" ∧
      cpu.registers.get (.address 0) = 0x20 ∧ cpu.registers.get (.address 2) = 0xFFFFFFF8 ∧
      denoted? "-$10(A0,A2.L)" .word cpu.registers = some (.memory 8) ∧
      ∃ begun value last bus', cpu.beginOperand (.index 0) .word = .ok begun ∧
        begun.await bus 6 = .ok (some value, last, bus') ∧
        bus'.calls.map Call.request = [.readWord cpu.registers.pc, .readWord 8] := by
  let bus : Logged Ram := ⟨(Ram.zeroed 4 (by decide)).setWord 2 0xA8F0, []⟩
  let registers : Registers :=
    (({ pc := 2 } : Registers).set (.address 0) 0x20).set (.address 2) 0xFFFFFFF8
  let cpu : Cpu := { registers }
  let c : Cursor := { start := 0 }
  have hmode : (Mode.index 0).wellFormed = true := rfl
  have hcpu : cpu.operand = none := rfl
  have hposition : c.position = cpu.registers.pc := rfl
  have hwords : (Bus.words bus 2 1).1 = [0xA8F0] := by
    decide +kernel
  have hpeek : (Bus.words bus 2 1).1 =
      (List.range 1).map fun k => Bus.peekWord bus (2 + 2 * UInt32.ofNat k) := by
    decide +kernel
  have htext : ((Mode.index 0).operand .word (Bus.peekWord bus) c).1.text = "-$10(A0,A2.L)" := by
    decide +kernel
  have hdenoted : denoted? "-$10(A0,A2.L)" .word registers = some (.memory 8) := by
    decide +kernel
  obtain ⟨d, begun, value, last, bus', calls, hd, hbegun, hawait, -, hcalls, hrequests, -, -⟩ :=
    Mode.delivers_denoted hmode .word hcpu bus hposition hpeek
  rw [htext, hdenoted] at hd
  cases hd
  refine ⟨bus, cpu, c, hcpu, hposition, rfl, hwords, htext, rfl, rfl, hdenoted, begun, value,
    last, bus', hbegun, hawait, ?_⟩
  rw [hcalls]
  exact hrequests

end Compare68k
