import Compare68k.Instruction.Descent
import Compare68k.Proofs.Bus.Ledger
import Compare68k.Proofs.Instruction.Decoding
/-!
# What an instruction takes

The bus activities of each class of instruction and the timing table: `schedule` lists the
activities in order, `tableCycles` is the table's entry, and the entry is the cost of the
activities.  The operands' activities, and whether an idle one closes the instruction, are then put
in a form that is the same for every class.
-/

namespace Compare68k

namespace Instruction

def closes (i : Instruction) : Bool :=
  match i.cls with
  | .cmp => i.size = .long
  | .cmpa => true
  | .cmpi => i.size = .long && i.destination.category = .dataRegister
  | .cmpm => false

def operandPattern (i : Instruction) : List Cycle :=
  match i.cls with
  | .cmp | .cmpa => i.source.pattern i.size
  | .cmpi => Mode.immediate.pattern i.size ++ i.destination.pattern i.size
  | .cmpm => i.source.pattern i.size ++ i.destination.pattern i.size

/-- The activities of an instruction, in order. -/
def schedule (i : Instruction) : List Cycle :=
  i.operandPattern ++ .prefetch :: if i.closes then [.idle] else []

def tableCycles (i : Instruction) : Nat :=
  match i.cls with
  | .cmp => (if i.size = .long then 6 else 4) + i.source.cycles i.size
  | .cmpa => 6 + i.source.cycles i.size
  | .cmpi =>
    if i.destination.category = .dataRegister then if i.size = .long then 14 else 8
    else (if i.size = .long then 12 else 8) + i.destination.cycles i.size
  | .cmpm => if i.size = .long then 20 else 12

variable {i : Instruction} {op : Opcode}

theorem cycles_of_dataRegister {m : Mode} (h : m.category = .dataRegister) (size : Size) :
    m.cycles size = 0 := by
  cases m with
  | dataReg n => rfl
  | _ => cases h

theorem cycles_immediate (size : Size) :
    Mode.immediate.cycles size = if size = .long then 8 else 4 := by
  cases size <;> rfl

theorem cycles_postInc (n : UInt8) (size : Size) :
    (Mode.postInc n).cycles size = if size = .long then 8 else 4 := by
  cases size <;> rfl

theorem totalCycles_schedule_eq (i : Instruction) :
    Cycle.totalCycles i.schedule =
      Cycle.totalCycles i.operandPattern + (4 + if i.closes then 2 else 0) := by
  rw [schedule, Cycle.totalCycles_append, Cycle.totalCycles]
  cases i.closes <;> rfl

theorem totalCycles_pattern (m : Mode) (size : Size) :
    Cycle.totalCycles (m.pattern size) = m.cycles size := rfl

/-- The timing table gives the cost of an instruction's activities. -/
theorem totalCycles_schedule (h : i.Decoded op) :
    Cycle.totalCycles i.schedule = i.tableCycles := by
  rw [totalCycles_schedule_eq]
  unfold operandPattern closes tableCycles
  cases hc : i.cls with
  | cmp =>
    simp only [totalCycles_pattern, decide_eq_true_eq]
    split <;> omega
  | cmpa =>
    simp only [totalCycles_pattern, if_true]
    omega
  | cmpi =>
    simp only [Cycle.totalCycles_append, totalCycles_pattern, cycles_immediate,
      Bool.and_eq_true, decide_eq_true_eq]
    by_cases hregister : i.destination.category = .dataRegister
    · rw [if_pos hregister, cycles_of_dataRegister hregister]
      by_cases hlong : i.size = .long <;> simp [hlong, hregister]
    · rw [if_neg hregister]
      by_cases hlong : i.size = .long <;> simp only [hlong, hregister, if_true, if_false,
        and_false] <;> omega
  | cmpm =>
    simp only [Cycle.totalCycles_append, totalCycles_pattern, h.source_of_cmpm hc,
      h.destination_of_cmpm hc, cycles_postInc]
    by_cases hlong : i.size = .long <;> simp [hlong]

/-! ## All classes at once -/

def width (i : Instruction) : Size :=
  i.cls.width i.size

theorem operandPattern_eq (h : i.Decoded op) :
    i.operandPattern = i.source.pattern i.size ++ i.destination.pattern i.width := by
  unfold operandPattern width
  cases hc : i.cls with
  | cmp =>
    rw [h.destination_of_cmp hc]
    exact (List.append_nil _).symm
  | cmpa =>
    rw [h.destination_of_cmpa hc]
    exact (List.append_nil _).symm
  | cmpi =>
    rw [h.source_of_cmpi hc]
    rfl
  | cmpm => rfl

theorem closes_eq_hasTail (h : i.Decoded op) :
    i.closes = i.cls.hasTail i.size i.destination := by
  unfold closes Class.hasTail
  cases hc : i.cls with
  | cmp => simp [h.destination_of_cmp hc, Mode.category]
  | cmpa => simp
  | cmpi => simp
  | cmpm => simp [h.destination_of_cmpm hc, Mode.category]

theorem totalTicks_schedule (i : Instruction) :
    Cycle.totalTicks i.schedule =
      Cycle.totalTicks i.operandPattern + (2 + if i.closes then 1 else 0) := by
  have hcycles := totalCycles_schedule_eq i
  rw [Cycle.totalCycles_eq_totalTicks, Cycle.totalCycles_eq_totalTicks] at hcycles
  cases hcloses : i.closes <;> simp [hcloses] at hcycles ⊢ <;> omega

end Instruction

end Compare68k
