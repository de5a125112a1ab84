import Compare68k.Listing.Disassembly
import Compare68k.Proofs.Processor.Comparison
/-!
# Listings and runs agree

A listing and a processor find the same instructions.  The listing takes extension words with a
cursor, the processor one prefetch at a time; both take as many as the modes have.  Main statement:
steps from an address follow the lines of the listing from there, and stop at the first line of
data.
-/

namespace Compare68k

/-! ## The length of a line -/

theorem Mode.cursor_operand (m : Mode) (size : Size) (peek : Peek) (c : Cursor) :
    (m.operand size peek c).2 = { c with taken := c.taken + m.extensionWords size } := by
  cases m with
  | immediate => cases size <;> rfl
  | _ => rfl

namespace Instruction

variable {i : Instruction} {op : Opcode}

theorem size_line (i : Instruction) (peek : Peek) (a : Address) :
    (i.line peek a).size =
      2 + 2 * UInt32.ofNat
        (i.source.extensionWords i.size + i.destination.extensionWords i.size) := by
  rw [line]
  simp only [Cursor.close, Cursor.length, Mode.cursor_operand, Nat.zero_add]

/-- The destination of an address register takes no extension words at any size. -/
theorem extensionWords_destination (hd : i.Decoded op) :
    i.destination.extensionWords i.width = i.destination.extensionWords i.size := by
  unfold width
  cases hc : i.cls with
  | cmpa =>
    rw [hd.destination_of_cmpa hc]
    rfl
  | cmp | cmpi | cmpm => rfl

theorem pc_afterInstruction (hd : i.Decoded op) (regs : Registers) (mem : Memory) (peek : Peek) :
    (regs.afterInstruction mem i).pc = regs.pc + (i.line peek regs.pc).size := by
  have hpc : (regs.afterInstruction mem i).pc =
      regs.pc + 2 + 2 * UInt32.ofNat (i.source.extensionWords i.size) +
        2 * UInt32.ofNat (i.destination.extensionWords i.width) := by
    show (i.destination.after i.width (i.source.after i.size (regs.skip 1))).pc = _
    rw [Mode.pc_after, Mode.pc_after]
    rfl
  rw [hpc, size_line, extensionWords_destination hd, UInt32.ofNat_add, UInt32.mul_add]
  simp only [UInt32.add_assoc]

theorem mnemonic_line (i : Instruction) (peek : Peek) (a : Address) :
    (i.line peek a).mnemonic = i.cls.mnemonic ++ i.size.suffix := rfl

theorem mnemonic_line_ne (i : Instruction) (peek : Peek) (a : Address) :
    (i.line peek a).mnemonic ≠ "DC.W" := by
  rw [mnemonic_line]
  cases i.cls <;> cases i.size <;> decide

end Instruction

namespace Table

def lineAddress (t : Table) (peek : Peek) (a : Address) : Nat → Address
  | 0 => a
  | n + 1 =>
    let behind := t.lineAddress peek a n
    behind + (t.disassemble peek behind).size

theorem mnemonic_disassemble (t : Table) (peek : Peek) (a : Address) :
    (t.disassemble peek a).mnemonic = "DC.W" ↔ t.lookup (peek a) = none := by
  unfold disassemble
  cases t.lookup (peek a) with
  | none => exact ⟨fun _ => rfl, fun _ => rfl⟩
  | some i =>
    constructor
    · intro hdata
      exact absurd hdata (i.mnemonic_line_ne peek a)
    · intro hnone
      cases hnone

end Table

/-! ## Steps along a listing -/

namespace Processor

/-- The processor and the bus after a number of steps, or the break that ended them. -/
def afterSteps {β : Type} [Bus β] (p : Processor) (bus : β) :
    Nat → Except Fault (Except Break (Processor × β))
  | 0 => .ok (.ok (p, bus))
  | n + 1 => do
    match ← p.afterSteps bus n with
    | .error b => return .error b
    | .ok (p, bus) =>
      let (result, p, bus) ← p.step bus
      return result.map fun _ => (p, bus)

variable {t : Table} {p : Processor} {ram : Ram}

structure StandsAt (t : Table) (p : Processor) (a : Address) : Prop where
  table : p.table = t
  between : p.Between
  pc : p.registers.pc = a

theorem StandsAt.step {a : Address} (h : StandsAt t p a) (hbits : ram.bits ≤ 24)
    (hcode : (t.disassemble (Bus.peekWord ram) a).mnemonic ≠ "DC.W") :
    ∃ report p', p.step ram = .ok (.ok report, p', ram) ∧ report.address = a ∧
      report.opcode = Bus.peekWord ram a ∧
      StandsAt t p' (a + (t.disassemble (Bus.peekWord ram) a).size) := by
  obtain ⟨htable, hbetween, hpc⟩ := h
  rw [ne_eq, Table.mnemonic_disassemble] at hcode
  obtain ⟨i, hi⟩ := Option.ne_none_iff_exists'.mp hcode
  have hpeek : Bus.peekWord ram = ram.memory.word := Ram.peekWord_eq hbits
  have hd : i.Decoded (ram.memory.word a) := Table.decoded_of_lookup (hpeek ▸ hi)
  have hlookup : p.table.lookup (ram.memory.word p.registers.pc) = some i := by
    rw [htable, hpc, ← hpeek, hi]
  have hline : t.disassemble (Bus.peekWord ram) a = i.line (Bus.peekWord ram) a := by
    rw [Table.disassemble, hi]
  refine ⟨_, _, step_ram hbits hbetween hlookup, hpc, ?_, htable, ⟨rfl, rfl, rfl⟩, ?_⟩
  · rw [hpeek, ← hpc]
    rfl
  · rw [hline, ← hpc]
    exact Instruction.pc_afterInstruction hd p.registers ram.memory (Bus.peekWord ram)

theorem StandsAt.step_of_data {a : Address} (h : StandsAt t p a) (hbits : ram.bits ≤ 24)
    (hdata : (t.disassemble (Bus.peekWord ram) a).mnemonic = "DC.W") :
    p.step ram = .ok (.error (.illegalOpcode a (Bus.peekWord ram a)), p, ram) := by
  obtain ⟨htable, hbetween, hpc⟩ := h
  rw [Table.mnemonic_disassemble, Ram.peekWord_eq hbits] at hdata
  have hlookup : p.table.lookup (ram.memory.word p.registers.pc) = none := by
    rw [htable, hpc, hdata]
  rw [step_ram_of_illegal hbits hbetween.current hlookup, hpc, Ram.peekWord_eq hbits]

theorem afterSteps_of_code {a : Address} (h : StandsAt t p a) (hbits : ram.bits ≤ 24) (n : Nat)
    (hcode : ∀ j < n, (t.disassemble (Bus.peekWord ram)
      (t.lineAddress (Bus.peekWord ram) a j)).mnemonic ≠ "DC.W") :
    ∃ q, p.afterSteps ram n = .ok (.ok (q, ram)) ∧
      StandsAt t q (t.lineAddress (Bus.peekWord ram) a n) := by
  induction n with
  | zero => exact ⟨p, rfl, h⟩
  | succ n ih =>
    obtain ⟨q, hq, hstands⟩ := ih (fun j hj => hcode j (Nat.lt_succ_of_lt hj))
    obtain ⟨report, q', hstep, -, -, hstands'⟩ := hstands.step hbits (hcode n (Nat.lt_succ_self n))
    refine ⟨q', ?_, hstands'⟩
    rw [afterSteps, hq]
    dsimp only [bind, Except.bind]
    rw [hstep]
    rfl

/-- After any number of steps from an address, as long as no line of the listing from there is
data, the next step runs the instruction of the next line, or stops there if that line is data. -/
theorem steps_follow_listing {a : Address} (hp : Reachable t p)
    (hmid : p.isMidInstruction = false) (hpc : p.registers.pc = a) (hbits : ram.bits ≤ 24)
    (n : Nat)
    (hcode : ∀ j < n, (t.disassemble (Bus.peekWord ram)
      (t.lineAddress (Bus.peekWord ram) a j)).mnemonic ≠ "DC.W") :
    let line := t.lineAddress (Bus.peekWord ram) a
    ∃ q, p.afterSteps ram n = .ok (.ok (q, ram)) ∧ q.registers.pc = line n ∧
      ((t.disassemble (Bus.peekWord ram) (line n)).mnemonic ≠ "DC.W" →
        ∃ report q', q.step ram = .ok (.ok report, q', ram) ∧ report.address = line n ∧
          report.opcode = Bus.peekWord ram (line n) ∧ q'.registers.pc = line (n + 1)) ∧
      ((t.disassemble (Bus.peekWord ram) (line n)).mnemonic = "DC.W" →
        q.step ram =
          .ok (.error (.illegalOpcode (line n) (Bus.peekWord ram (line n))), q, ram)) := by
  intro line
  have hstart : StandsAt t p a := ⟨hp.consistent.table, hp.between hmid, hpc⟩
  obtain ⟨q, hq, hstands⟩ := afterSteps_of_code hstart hbits n hcode
  refine ⟨q, hq, hstands.pc, ?_, hstands.step_of_data hbits⟩
  intro hnext
  obtain ⟨report, q', hstep, haddress, hopcode, hstands'⟩ := hstands.step hbits hnext
  exact ⟨report, q', hstep, haddress, hopcode, hstands'.pc⟩

/-- One CMPI.W #0,0(A0) of six bytes, and a zero word behind it. -/
theorem steps_follow_listing_cmpi :
    ∃ q, (ofTable (.ofClasses [.cmpi])).afterSteps ((Ram.zeroed 4 (by decide)).setWord 0 0x0C68) 1 =
        .ok (.ok (q, (Ram.zeroed 4 (by decide)).setWord 0 0x0C68)) ∧
      q.registers.pc = 6 ∧
      q.step ((Ram.zeroed 4 (by decide)).setWord 0 0x0C68) =
        .ok (.error (.illegalOpcode 6 0), q, (Ram.zeroed 4 (by decide)).setWord 0 0x0C68) := by
  have hcode : ∀ j < 1, ((Table.ofClasses [.cmpi]).disassemble
      (Bus.peekWord ((Ram.zeroed 4 (by decide)).setWord 0 0x0C68))
      ((Table.ofClasses [.cmpi]).lineAddress
        (Bus.peekWord ((Ram.zeroed 4 (by decide)).setWord 0 0x0C68)) 0 j)).mnemonic ≠ "DC.W" := by
    decide
  have hline : (Table.ofClasses [.cmpi]).lineAddress
      (Bus.peekWord ((Ram.zeroed 4 (by decide)).setWord 0 0x0C68)) 0 1 = 6 := by decide
  have hstart : (ofTable (.ofClasses [.cmpi])).registers.pc = 0 := rfl
  obtain ⟨q, hq, hpc, -, hdata⟩ :=
    steps_follow_listing .fresh rfl hstart (by decide) 1 hcode
  rw [hline] at hpc hdata
  exact ⟨q, hq, hpc, hdata (by decide)⟩

end Processor

end Compare68k
