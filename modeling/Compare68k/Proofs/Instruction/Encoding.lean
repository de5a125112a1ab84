import Compare68k.Proofs.Instruction.Decoding
import Compare68k.Proofs.Instruction.Fields
import Mathlib.Tactic.ByContra
/-!
# The opcodes of each class

`Class.Encodes` says by its bits which opcodes a class has.  No opcode belongs to two classes, the
opcodes that a class is entered at are exactly those that it encodes, and each of them is decoded to
the values that it was made up of.
-/

namespace Compare68k

namespace Opcode

def HasMode (op : Opcode) : Prop :=
  op &&& 0x38 = 0x38 → op &&& 0x07 < 5

def HasAddressRegister (op : Opcode) : Prop :=
  op &&& 0x38 = 0x08

/-- The mode field selects an operand that can be altered as data: no address register, nothing
relative to the program counter and no constant. -/
def HasAlterable (op : Opcode) : Prop :=
  ¬ op.HasAddressRegister ∧ (op &&& 0x38 = 0x38 → op &&& 0x07 < 2)

end Opcode

namespace Class

/-- The opcodes of a class. -/
def Encodes (c : Class) (op : Opcode) : Prop :=
  match c with
  | cmp =>
    op &&& 0xF100 = 0xB000 ∧ op &&& 0xC0 ≠ 0xC0 ∧ op.HasMode ∧
      ¬ (op &&& 0xC0 = 0x00 ∧ op.HasAddressRegister)
  | cmpa => op &&& 0xF0C0 = 0xB0C0 ∧ op.HasMode
  | cmpi => op &&& 0xFF00 = 0x0C00 ∧ op &&& 0xC0 ≠ 0xC0 ∧ op.HasAlterable
  | cmpm => op &&& 0xF138 = 0xB108 ∧ op &&& 0xC0 ≠ 0xC0

def instruction? (c : Class) (f : Form) : Option Instruction :=
  match c with
  | cmp => (Mode.ofField? f.lower).map fun m => ⟨cmp, f.size, m, .dataReg f.upper.toUInt8⟩
  | cmpa => (Mode.ofField? f.lower).map fun m => ⟨cmpa, f.size, m, .addrReg f.upper.toUInt8⟩
  | cmpi => (Mode.ofField? f.lower).map fun m => ⟨cmpi, f.size, .immediate, m⟩
  | cmpm => some ⟨cmpm, f.size, .postInc f.lower.toUInt8, .postInc f.upper.toUInt8⟩

end Class

/-! ## Opcodes as numbers -/

namespace Opcode

variable (op : Opcode)

theorem hasMode_iff : op.HasMode ↔ (op.toNat / 8 % 8 = 7 → op.toNat % 8 < 5) := by
  simp only [HasMode, ← UInt16.toNat_inj, UInt16.lt_iff_toNat_lt, toNat_and_38, toNat_and_07,
    UInt16.reduceToNat]
  omega

theorem hasAddressRegister_iff : op.HasAddressRegister ↔ op.toNat / 8 % 8 = 1 := by
  simp only [HasAddressRegister, ← UInt16.toNat_inj, toNat_and_38, UInt16.reduceToNat]
  omega

theorem hasAlterable_iff :
    op.HasAlterable ↔ op.toNat / 8 % 8 ≠ 1 ∧ (op.toNat / 8 % 8 = 7 → op.toNat % 8 < 2) := by
  simp only [HasAlterable, hasAddressRegister_iff, ← UInt16.toNat_inj, UInt16.lt_iff_toNat_lt,
    toNat_and_38, toNat_and_07, UInt16.reduceToNat]
  omega

theorem fieldAllowed_iff :
    (Mode.fieldAllowed op .empty = true ↔ (op.toNat / 8 % 8 = 7 → op.toNat % 8 < 5)) ∧
    (Mode.fieldAllowed op (.singleton .addressRegister) = true ↔
      op.toNat / 8 % 8 ≠ 1 ∧ (op.toNat / 8 % 8 = 7 → op.toNat % 8 < 5)) ∧
    (Mode.fieldAllowed op .notDataAlterable = true ↔
      op.toNat / 8 % 8 ≠ 1 ∧ (op.toNat / 8 % 8 = 7 → op.toNat % 8 < 2)) := by
  -- A mode is selected by the six lowest bits, so 64 opcodes stand for all.
  have hfields : ∀ n < 64,
      (Mode.fieldAllowed (UInt16.ofNat n) .empty = true ↔ (n / 8 % 8 = 7 → n % 8 < 5)) ∧
      (Mode.fieldAllowed (UInt16.ofNat n) (.singleton .addressRegister) = true ↔
        n / 8 % 8 ≠ 1 ∧ (n / 8 % 8 = 7 → n % 8 < 5)) ∧
      (Mode.fieldAllowed (UInt16.ofNat n) .notDataAlterable = true ↔
        n / 8 % 8 ≠ 1 ∧ (n / 8 % 8 = 7 → n % 8 < 2)) := by decide
  have hlow : (UInt16.ofNat (op.toNat % 64)).toNat = op.toNat % 64 :=
    UInt16.toNat_ofNat_of_lt' (Nat.lt_trans (Nat.mod_lt _ (by decide)) (by decide))
  have hcongr := fieldAllowed_congr (a := op) (b := UInt16.ofNat (op.toNat % 64)) (by omega)
  have hhigh : op.toNat % 64 / 8 % 8 = op.toNat / 8 % 8 := by omega
  have hregister : op.toNat % 64 % 8 = op.toNat % 8 := by omega
  have hcases := hfields (op.toNat % 64) (Nat.mod_lt _ (by decide))
  rw [hhigh, hregister] at hcases
  rwa [hcongr, hcongr, hcongr]

end Opcode

namespace Class

variable {op : Opcode} {f : Form}

theorem encodes_cmp_iff : cmp.Encodes op ↔
    op.toNat / 4096 = 11 ∧ op.toNat / 256 % 2 = 0 ∧ op.toNat / 64 % 4 ≠ 3 ∧
      (op.toNat / 8 % 8 = 7 → op.toNat % 8 < 5) ∧
      ¬ (op.toNat / 64 % 4 = 0 ∧ op.toNat / 8 % 8 = 1) := by
  simp only [Encodes, ne_eq, Opcode.hasMode_iff, Opcode.hasAddressRegister_iff,
    ← UInt16.toNat_inj, Opcode.toNat_and_F100, Opcode.toNat_and_C0, UInt16.reduceToNat]
  omega

theorem encodes_cmpa_iff : cmpa.Encodes op ↔
    op.toNat / 4096 = 11 ∧ op.toNat / 64 % 4 = 3 ∧
      (op.toNat / 8 % 8 = 7 → op.toNat % 8 < 5) := by
  simp only [Encodes, Opcode.hasMode_iff, ← UInt16.toNat_inj, Opcode.toNat_and_F0C0,
    UInt16.reduceToNat]
  omega

theorem encodes_cmpi_iff : cmpi.Encodes op ↔
    op.toNat / 256 = 12 ∧ op.toNat / 64 % 4 ≠ 3 ∧ op.toNat / 8 % 8 ≠ 1 ∧
      (op.toNat / 8 % 8 = 7 → op.toNat % 8 < 2) := by
  simp only [Encodes, ne_eq, Opcode.hasAlterable_iff, ← UInt16.toNat_inj, Opcode.toNat_and_FF00,
    Opcode.toNat_and_C0, UInt16.reduceToNat]
  omega

theorem encodes_cmpm_iff : cmpm.Encodes op ↔
    op.toNat / 4096 = 11 ∧ op.toNat / 256 % 2 = 1 ∧ op.toNat / 8 % 8 = 1 ∧
      op.toNat / 64 % 4 ≠ 3 := by
  simp only [Encodes, ne_eq, ← UInt16.toNat_inj, Opcode.toNat_and_F138, Opcode.toNat_and_C0,
    UInt16.reduceToNat]
  omega

/-- No opcode belongs to two classes. -/
theorem Encodes.unique {c d : Class} (hc : c.Encodes op) (hd : d.Encodes op) : c = d := by
  cases c <;> cases d <;>
    simp only [encodes_cmp_iff, encodes_cmpa_iff, encodes_cmpi_iff, encodes_cmpm_iff] at hc hd <;>
    first | rfl | omega

/-! ## What each class is entered at -/

theorem mem_modeFields {excluded : CategorySet} {field : UInt16} :
    field ∈ Form.modeFields excluded ↔
      field.toNat < 64 ∧ Mode.fieldAllowed field excluded = true := by
  have hfield : (∃ n < 64, UInt16.ofNat n = field) ↔ field.toNat < 64 := by
    constructor
    · rintro ⟨n, hn, rfl⟩
      rwa [UInt16.toNat_ofNat_of_lt' (Nat.lt_trans hn (by decide))]
    · exact fun h => ⟨field.toNat, h, UInt16.ofNat_toNat⟩
  simp only [Form.modeFields, List.mem_filter, List.mem_map, List.mem_range, hfield]

theorem mem_registers {register : UInt16} : register ∈ Form.registers ↔ register.toNat < 8 := by
  constructor
  · intro h
    obtain ⟨n, hn, rfl⟩ := List.mem_map.mp h
    rw [List.mem_range] at hn
    rwa [UInt16.toNat_ofNat_of_lt' (Nat.lt_trans hn (by decide))]
  · exact fun h => List.mem_map.mpr ⟨register.toNat, List.mem_range.mpr h, UInt16.ofNat_toNat⟩

theorem mem_forms_cmp : f ∈ cmp.forms ↔
    f.upper.toNat < 8 ∧ f.lower.toNat < 64 ∧
      (f.lower.toNat / 8 % 8 = 7 → f.lower.toNat % 8 < 5) ∧
      ¬ (f.size.field.toNat = 0 ∧ f.lower.toNat / 8 % 8 = 1) := by
  obtain ⟨size, upper, lower⟩ := f
  obtain ⟨hall, hdata, -⟩ := Opcode.fieldAllowed_iff lower
  cases size with
  | byte =>
    simp [forms, Instruction.refused, mem_registers, mem_modeFields, hdata, Size.field]
    omega
  | word | long =>
    simp [forms, Instruction.refused, mem_registers, mem_modeFields, hall, Size.field]

theorem mem_forms_cmpa : f ∈ cmpa.forms ↔
    f.size ≠ .byte ∧ f.upper.toNat < 8 ∧ f.lower.toNat < 64 ∧
      (f.lower.toNat / 8 % 8 = 7 → f.lower.toNat % 8 < 5) := by
  obtain ⟨size, upper, lower⟩ := f
  obtain ⟨hall, -⟩ := Opcode.fieldAllowed_iff lower
  cases size <;> simp [forms, Instruction.refused, mem_registers, mem_modeFields, hall]

theorem mem_forms_cmpi : f ∈ cmpi.forms ↔
    f.upper = 0 ∧ f.lower.toNat < 64 ∧ f.lower.toNat / 8 % 8 ≠ 1 ∧
      (f.lower.toNat / 8 % 8 = 7 → f.lower.toNat % 8 < 2) := by
  obtain ⟨size, upper, lower⟩ := f
  have hsizes : size ∈ [Size.byte, .word, .long] := by cases size <;> decide
  rw [← (Opcode.fieldAllowed_iff lower).2.2, ← mem_modeFields, forms, List.mem_flatMap]
  constructor
  · rintro ⟨size', -, h⟩
    obtain ⟨lower', hlower, h⟩ := List.mem_map.mp h
    cases h
    exact ⟨rfl, hlower⟩
  · rintro ⟨rfl, hlower⟩
    exact ⟨size, hsizes, List.mem_map.mpr ⟨lower, hlower, rfl⟩⟩

theorem mem_forms_cmpm : f ∈ cmpm.forms ↔ f.upper.toNat < 8 ∧ f.lower.toNat < 8 := by
  obtain ⟨size, upper, lower⟩ := f
  cases size <;> simp [forms, mem_registers]

theorem toNat_stem : ∀ upper ∈ Form.registers, ∀ size : Size,
    ((0xB000 : UInt16) ||| (upper <<< 9) ||| (size.field <<< 6)).toNat =
      0xB000 + upper.toNat * 512 + size.field.toNat * 64 ∧
    ((0xB0C0 : UInt16) ||| (upper <<< 9)).toNat = 0xB0C0 + upper.toNat * 512 ∧
    ((0xB1C0 : UInt16) ||| (upper <<< 9)).toNat = 0xB1C0 + upper.toNat * 512 ∧
    ((0x0C00 : UInt16) ||| (size.field <<< 6)).toNat = 0x0C00 + size.field.toNat * 64 ∧
    ((0xB108 : UInt16) ||| (upper <<< 9) ||| (size.field <<< 6)).toNat =
      0xB108 + upper.toNat * 512 + size.field.toNat * 64 := by
  intro upper hupper size
  have hregisters : Form.registers = [0, 1, 2, 3, 4, 5, 6, 7] := by decide
  simp only [hregisters, List.mem_cons, List.not_mem_nil, or_false] at hupper
  rcases hupper with rfl | rfl | rfl | rfl | rfl | rfl | rfl | rfl <;> cases size <;> decide

theorem toNat_opcode_cmp (hupper : f.upper.toNat < 8) (hlower : f.lower.toNat < 64) :
    (cmp.opcode f).toNat =
      0xB000 + f.upper.toNat * 512 + f.size.field.toNat * 64 + f.lower.toNat := by
  obtain ⟨hstem, -⟩ := toNat_stem f.upper (mem_registers.mpr hupper) f.size
  rw [opcode, Opcode.toNat_or 6 _ hlower, hstem]
  omega

theorem toNat_opcode_cmpa (hupper : f.upper.toNat < 8) (hlower : f.lower.toNat < 64) :
    (cmpa.opcode f).toNat =
      0xB0C0 + (if f.size = .long then 256 else 0) + f.upper.toNat * 512 + f.lower.toNat := by
  obtain ⟨-, hword, hlong, -⟩ := toNat_stem f.upper (mem_registers.mpr hupper) f.size
  rw [opcode]
  split
  · rw [Opcode.toNat_or 6 _ hlower, hlong]
    omega
  · rw [Opcode.toNat_or 6 _ hlower, hword]
    omega

theorem toNat_opcode_cmpi (hlower : f.lower.toNat < 64) :
    (cmpi.opcode f).toNat = 0x0C00 + f.size.field.toNat * 64 + f.lower.toNat := by
  obtain ⟨-, -, -, hstem, -⟩ := toNat_stem 0 (by decide) f.size
  rw [opcode, Opcode.toNat_or 6 _ hlower, hstem]
  omega

theorem toNat_opcode_cmpm (hupper : f.upper.toNat < 8) (hlower : f.lower.toNat < 8) :
    (cmpm.opcode f).toNat =
      0xB108 + f.upper.toNat * 512 + f.size.field.toNat * 64 + f.lower.toNat := by
  obtain ⟨-, -, -, -, hstem⟩ := toNat_stem f.upper (mem_registers.mpr hupper) f.size
  rw [opcode, Opcode.toNat_or 3 _ hlower, hstem]
  omega

/-! ## Forms and opcodes -/

theorem encodes_opcode {c : Class} (h : f ∈ c.forms) : c.Encodes (c.opcode f) := by
  have hsize : f.size.field.toNat ≤ 2 := by cases f.size <;> decide
  cases c with
  | cmp =>
    obtain ⟨hupper, hlower, hmode, hbyte⟩ := mem_forms_cmp.mp h
    rw [encodes_cmp_iff, toNat_opcode_cmp hupper hlower]
    omega
  | cmpa =>
    obtain ⟨-, hupper, hlower, hmode⟩ := mem_forms_cmpa.mp h
    rw [encodes_cmpa_iff, toNat_opcode_cmpa hupper hlower]
    split <;> omega
  | cmpi =>
    obtain ⟨-, hlower, hregister, hmode⟩ := mem_forms_cmpi.mp h
    rw [encodes_cmpi_iff, toNat_opcode_cmpi hlower]
    omega
  | cmpm =>
    obtain ⟨hupper, hlower⟩ := mem_forms_cmpm.mp h
    rw [encodes_cmpm_iff, toNat_opcode_cmpm hupper hlower]
    omega

theorem exists_size (h : op.toNat / 64 % 4 ≠ 3) :
    ∃ s : Size, s.field.toNat = op.toNat / 64 % 4 := by
  have hcases : op.toNat / 64 % 4 = 0 ∨ op.toNat / 64 % 4 = 1 ∨ op.toNat / 64 % 4 = 2 := by omega
  rcases hcases with h | h | h
  · exact ⟨.byte, h.symm⟩
  · exact ⟨.word, h.symm⟩
  · exact ⟨.long, h.symm⟩

theorem exists_fields (size : Size) {upper lower : Nat} (hupper : upper < 8) (hlower : lower < 64) :
    ∃ f : Form, f.size = size ∧ f.upper.toNat = upper ∧ f.lower.toNat = lower :=
  ⟨⟨size, .ofNat upper, .ofNat lower⟩, rfl,
    UInt16.toNat_ofNat_of_lt' (Nat.lt_trans hupper (by decide)),
    UInt16.toNat_ofNat_of_lt' (Nat.lt_trans hlower (by decide))⟩

theorem exists_form {c : Class} (h : c.Encodes op) : ∃ f ∈ c.forms, c.opcode f = op := by
  have hupper : op.toNat / 512 % 8 < 8 := Nat.mod_lt _ (by decide)
  have hlower : op.toNat % 64 < 64 := Nat.mod_lt _ (by decide)
  cases c with
  | cmp =>
    rw [encodes_cmp_iff] at h
    obtain ⟨size, hsize⟩ := exists_size h.2.2.1
    obtain ⟨f, rfl, hu, hl⟩ := exists_fields size hupper hlower
    refine ⟨f, mem_forms_cmp.mpr (by omega), ?_⟩
    rw [← UInt16.toNat_inj, toNat_opcode_cmp (by omega) (by omega)]
    omega
  | cmpa =>
    rw [encodes_cmpa_iff] at h
    obtain ⟨f, hsize, hu, hl⟩ :=
      exists_fields (if op.toNat / 256 % 2 = 1 then .long else .word) hupper hlower
    by_cases hlong : op.toNat / 256 % 2 = 1
    · rw [if_pos hlong] at hsize
      refine ⟨f, mem_forms_cmpa.mpr ⟨by rw [hsize]; decide, by omega⟩, ?_⟩
      rw [← UInt16.toNat_inj, toNat_opcode_cmpa (by omega) (by omega), if_pos hsize]
      omega
    · rw [if_neg hlong] at hsize
      refine ⟨f, mem_forms_cmpa.mpr ⟨by rw [hsize]; decide, by omega⟩, ?_⟩
      rw [← UInt16.toNat_inj, toNat_opcode_cmpa (by omega) (by omega),
        if_neg (by rw [hsize]; decide)]
      omega
  | cmpi =>
    rw [encodes_cmpi_iff] at h
    obtain ⟨size, hsize⟩ := exists_size h.2.1
    obtain ⟨f, rfl, hu, hl⟩ := exists_fields size (Nat.succ_pos 7) hlower
    have hzero : f.upper = 0 := UInt16.toNat_inj.mp hu
    refine ⟨f, mem_forms_cmpi.mpr ⟨hzero, by omega⟩, ?_⟩
    rw [← UInt16.toNat_inj, toNat_opcode_cmpi (by omega)]
    omega
  | cmpm =>
    rw [encodes_cmpm_iff] at h
    obtain ⟨size, hsize⟩ := exists_size h.2.2.2
    have hregister : op.toNat % 8 < 64 := by omega
    obtain ⟨f, rfl, hu, hl⟩ := exists_fields size hupper hregister
    refine ⟨f, mem_forms_cmpm.mpr (by omega), ?_⟩
    rw [← UInt16.toNat_inj, toNat_opcode_cmpm (by omega) (by omega)]
    omega

/-! ## Decoding -/

theorem decode?_eq_some_iff {c : Class} {i : Instruction} :
    c.decode? op = some i ↔
      c.fixedBits op = true ∧ i.cls = c ∧ i.Decoded op ∧ i.allowed = true := by
  constructor
  · intro h
    obtain ⟨hdecode, hallowed⟩ := decode_of_decode? h
    obtain ⟨hcls, hdecoded⟩ := decoded_of_decode hdecode
    refine ⟨?_, hcls, hdecoded, hallowed⟩
    by_contra hfixed
    rw [decode?, if_neg hfixed] at h
    cases h
  · rintro ⟨hfixed, rfl, hdecoded, hallowed⟩
    have hdecode : i.cls.decode op = .ok i := by
      rw [decode, hdecoded.size, hdecoded.source, hdecoded.destination]
      rfl
    rw [decode?, if_pos hfixed, hdecode]
    exact if_pos hallowed

theorem exists_mode {field : UInt16} {excluded : CategorySet}
    (h : Mode.fieldAllowed field excluded = true) :
    ∃ m, Mode.ofField? field = some m ∧ excluded.has m.category = false := by
  rw [Mode.fieldAllowed] at h
  cases hm : Mode.ofField? field with
  | none => simp [hm] at h
  | some m => exact ⟨m, rfl, by simpa [hm] using h⟩

theorem fixedBits_of_encodes {c : Class} (h : c.Encodes op) : c.fixedBits op = true := by
  cases c <;> exact decide_eq_true h.1

theorem upperRegister_eq (op : Opcode) (f : Form) (h : op.toNat / 512 % 8 = f.upper.toNat) :
    Opcode.upperRegister op = f.upper.toUInt8 := by
  rw [← UInt8.toNat_inj, Opcode.toNat_upperRegister, UInt16.toNat_toUInt8, ← h]
  omega

theorem ofOpcode_eq {m : Mode} (h : op.toNat % 64 = f.lower.toNat % 64)
    (hm : Mode.ofField? f.lower = some m) : Mode.ofOpcode op = .ok m := by
  rw [Mode.ofOpcode, Opcode.ofField?_congr h, hm]

theorem lowerRegister_eq (op : Opcode) (f : Form) (h : op.toNat % 8 = f.lower.toNat) :
    Opcode.lowerRegister op = f.lower.toUInt8 := by
  rw [← UInt8.toNat_inj, Opcode.toNat_lowerRegister, UInt16.toNat_toUInt8, ← h]
  omega

theorem size_opcode_cmpa (h : f ∈ cmpa.forms) : cmpa.size (cmpa.opcode f) = .ok f.size := by
  obtain ⟨hsize, hupper, hlower, -⟩ := mem_forms_cmpa.mp h
  have hop := toNat_opcode_cmpa hupper hlower
  -- The size is one bit here, and not the field that the other classes have it in.
  have hbit := Opcode.toNat_and_0100 (cmpa.opcode f)
  cases hs : f.size with
  | byte => exact absurd hs hsize
  | word =>
    rw [hs, if_neg (by decide)] at hop
    have hzero : cmpa.opcode f &&& 0x0100 = 0 :=
      UInt16.toNat_inj.mp (hbit.trans (by rw [hop]; show _ = 0; omega))
    rw [size, hzero]
    rfl
  | long =>
    rw [hs, if_pos rfl] at hop
    have hone : cmpa.opcode f &&& 0x0100 = 0x0100 :=
      UInt16.toNat_inj.mp (hbit.trans (by rw [hop]; show _ = 256; omega))
    rw [size, hone]
    rfl

theorem decode?_opcode {c : Class} (h : f ∈ c.forms) :
    ∃ i, c.instruction? f = some i ∧ c.decode? (c.opcode f) = some i := by
  have hfixed := fixedBits_of_encodes (encodes_opcode h)
  have hfield : f.size.field.toNat ≤ 2 := by cases f.size <;> decide
  obtain ⟨hall, hdata, halterable⟩ := Opcode.fieldAllowed_iff f.lower
  cases c with
  | cmp =>
    obtain ⟨hupper, hlower, hmode, hbyte⟩ := mem_forms_cmp.mp h
    have hop := toNat_opcode_cmp hupper hlower
    have hsize : Opcode.size (cmp.opcode f) = .ok f.size :=
      (Opcode.size_eq_ok_iff _).mpr (by omega)
    have hallowed : Mode.fieldAllowed f.lower (Instruction.refused .cmp f.size) = true := by
      cases hs : f.size with
      | byte =>
        rw [hs] at hbyte
        exact hdata.mpr ⟨fun haddress => hbyte ⟨rfl, haddress⟩, hmode⟩
      | word | long => exact hall.mpr hmode
    obtain ⟨m, hm, hcategory⟩ := exists_mode hallowed
    have hdestination := congrArg Mode.dataReg (upperRegister_eq (cmp.opcode f) f (by omega))
    refine ⟨⟨cmp, f.size, m, .dataReg f.upper.toUInt8⟩, by rw [instruction?, hm]; rfl,
      decode?_eq_some_iff.mpr ⟨hfixed, rfl, ⟨hsize, ofOpcode_eq (by omega) hm,
        congrArg Except.ok hdestination⟩, ?_⟩⟩
    rw [Instruction.allowed, hcategory]
    rfl
  | cmpa =>
    obtain ⟨-, hupper, hlower, hmode⟩ := mem_forms_cmpa.mp h
    have hop := toNat_opcode_cmpa hupper hlower
    have hbit : (if f.size = .long then 256 else 0) = 0 ∨
        (if f.size = .long then 256 else 0) = 256 := by
      split <;> simp
    obtain ⟨m, hm, hcategory⟩ := exists_mode (hall.mpr hmode)
    have hdestination := congrArg Mode.addrReg (upperRegister_eq (cmpa.opcode f) f (by omega))
    refine ⟨⟨cmpa, f.size, m, .addrReg f.upper.toUInt8⟩, by rw [instruction?, hm]; rfl,
      decode?_eq_some_iff.mpr ⟨hfixed, rfl, ⟨size_opcode_cmpa h, ofOpcode_eq (by omega) hm,
        congrArg Except.ok hdestination⟩, ?_⟩⟩
    show (!CategorySet.empty.has m.category) = true
    rw [hcategory]
    rfl
  | cmpi =>
    obtain ⟨hupper, hlower, hregister, hmode⟩ := mem_forms_cmpi.mp h
    have hop := toNat_opcode_cmpi hlower
    have hsize : Opcode.size (cmpi.opcode f) = .ok f.size :=
      (Opcode.size_eq_ok_iff _).mpr (by omega)
    obtain ⟨m, hm, hcategory⟩ := exists_mode (halterable.mpr ⟨hregister, hmode⟩)
    refine ⟨⟨cmpi, f.size, .immediate, m⟩, by rw [instruction?, hm]; rfl,
      decode?_eq_some_iff.mpr ⟨hfixed, rfl, ⟨hsize, rfl, ofOpcode_eq (by omega) hm⟩, ?_⟩⟩
    show (!CategorySet.notDataAlterable.has m.category) = true
    rw [hcategory]
    rfl
  | cmpm =>
    obtain ⟨hupper, hlower⟩ := mem_forms_cmpm.mp h
    have hop := toNat_opcode_cmpm hupper hlower
    have hsize : Opcode.size (cmpm.opcode f) = .ok f.size :=
      (Opcode.size_eq_ok_iff _).mpr (by omega)
    have hsource := congrArg Mode.postInc (lowerRegister_eq (cmpm.opcode f) f (by omega))
    have hdestination := congrArg Mode.postInc (upperRegister_eq (cmpm.opcode f) f (by omega))
    exact ⟨⟨cmpm, f.size, .postInc f.lower.toUInt8, .postInc f.upper.toUInt8⟩, rfl,
      decode?_eq_some_iff.mpr ⟨hfixed, rfl, ⟨hsize, congrArg Except.ok hsource,
        congrArg Except.ok hdestination⟩, rfl⟩⟩

theorem fieldAllowed_of_ofOpcode {m : Mode} {excluded : CategorySet}
    (h : Mode.ofOpcode op = .ok m) (hcategory : excluded.has m.category = false) :
    Mode.fieldAllowed op excluded = true := by
  rw [Mode.ofOpcode] at h
  cases hm : Mode.ofField? op with
  | none => simp [hm] at h
  | some m' =>
    rw [hm] at h
    cases h
    simp [Mode.fieldAllowed, hm, hcategory]

theorem and_C0_of_size {size : Size} (h : Opcode.size op = .ok size) :
    op &&& 0xC0 ≠ 0xC0 ∧ (op &&& 0xC0 = 0x00 → size = .byte) := by
  have hfield := (Opcode.size_eq_ok_iff op).mp h
  have hmask := Opcode.toNat_and_C0 op
  have hle : size.field.toNat ≤ 2 := by cases size <;> decide
  constructor
  · intro hreserved
    rw [hreserved] at hmask
    have hthree : 192 = op.toNat / 64 % 4 * 64 := hmask
    omega
  · intro hzero
    rw [hzero] at hmask
    have hnone : 0 = op.toNat / 64 % 4 * 64 := hmask
    cases size with
    | byte => rfl
    | word =>
      have hone : op.toNat / 64 % 4 = 1 := hfield
      omega
    | long =>
      have htwo : op.toNat / 64 % 4 = 2 := hfield
      omega

theorem encodes_of_decode? {c : Class} {i : Instruction} (h : c.decode? op = some i) :
    c.Encodes op := by
  obtain ⟨hfixed, rfl, hdecoded, hallowed⟩ := decode?_eq_some_iff.mp h
  obtain ⟨hall, hdata, halterable⟩ := Opcode.fieldAllowed_iff op
  obtain ⟨c, size, source, destination⟩ := i
  cases c with
  | cmp =>
    obtain ⟨hreserved, hbyte⟩ := and_C0_of_size hdecoded.size
    have hcategory : (Instruction.refused cmp size).has source.category = false := by
      simpa [Instruction.allowed] using hallowed
    have hmode := fieldAllowed_of_ofOpcode hdecoded.source hcategory
    cases size with
    | byte =>
      obtain ⟨hregister, hmode⟩ := hdata.mp hmode
      exact ⟨of_decide_eq_true hfixed, hreserved, (Opcode.hasMode_iff op).mpr hmode,
        fun hzero => hregister ((Opcode.hasAddressRegister_iff op).mp hzero.2)⟩
    | word | long =>
      refine ⟨of_decide_eq_true hfixed, hreserved, (Opcode.hasMode_iff op).mpr (hall.mp hmode),
        fun hzero => ?_⟩
      cases hbyte hzero.1
  | cmpa =>
    have hcategory : CategorySet.empty.has source.category = false := by
      simpa [Instruction.allowed, Instruction.refused] using hallowed
    have hmode := fieldAllowed_of_ofOpcode hdecoded.source hcategory
    exact ⟨of_decide_eq_true hfixed, (Opcode.hasMode_iff op).mpr (hall.mp hmode)⟩
  | cmpi =>
    have hcategory : CategorySet.notDataAlterable.has destination.category = false := by
      simpa [Instruction.allowed, Instruction.refused] using hallowed
    have hmode := fieldAllowed_of_ofOpcode hdecoded.destination hcategory
    exact ⟨of_decide_eq_true hfixed, (and_C0_of_size hdecoded.size).1,
      (Opcode.hasAlterable_iff op).mpr (halterable.mp hmode)⟩
  | cmpm => exact ⟨of_decide_eq_true hfixed, (and_C0_of_size hdecoded.size).1⟩

theorem isSome_decode?_iff {c : Class} : (c.decode? op).isSome = true ↔ c.Encodes op := by
  constructor
  · intro h
    obtain ⟨i, hi⟩ := Option.isSome_iff_exists.mp h
    exact encodes_of_decode? hi
  · intro h
    obtain ⟨f, hf, rfl⟩ := exists_form h
    obtain ⟨i, -, hi⟩ := decode?_opcode hf
    exact Option.isSome_iff_exists.mpr ⟨i, hi⟩

instance (c : Class) (op : Opcode) : Decidable (c.Encodes op) :=
  decidable_of_iff _ isSome_decode?_iff

end Class

end Compare68k
