import Compare68k.Operand.Resolution
import Compare68k.Proofs.Instruction.Fields
import Compare68k.Proofs.Listing.Notation
import Compare68k.Proofs.Processor.ListedRun
import Mathlib.Data.List.Forall2
/-!
# Extension words in listings

An operand's text shows all of its extension words but the bits that the processor ignores: three
bits of a brief extension word, and the high byte of a word that brings a byte.  Main statement: two
operands of one mode are the same where their extension words agree in the other bits, and only
there; and the ignored bits have no part in the operand's address or value.
-/

namespace Compare68k

/-- Two words are the same apart from some bits. -/
def Word.Agree (ignored w w' : UInt16) : Prop :=
  w &&& ~~~ignored = w' &&& ~~~ignored

namespace Mode

/-- The bits that nothing depends on in the extension words of a mode. -/
def ignored (m : Mode) (size : Size) : UInt16 :=
  match m with
  | index _ | pcIndex => 0x0700
  | immediate => if size = .byte then 0xFF00 else 0
  | _ => 0

end Mode

namespace Word

variable {w w' high low high' low' : UInt16}

theorem agree_zero_iff : Agree 0 w w' ↔ w = w' := by
  rw [Agree, show ~~~(0 : UInt16) = -1 by decide, UInt16.and_neg_one, UInt16.and_neg_one]

theorem agree_byte_iff : Agree 0xFF00 w w' ↔ lowByte w = lowByte w' := by
  have hmask : ∀ w : UInt16, (w &&& ~~~0xFF00).toNat = (lowByte w).toNat := by
    intro w
    rw [lowByte, UInt16.toNat_toUInt8]
    exact Nat.and_two_pow_sub_one_eq_mod w.toNat 8
  rw [Agree, ← UInt16.toNat_inj, hmask, hmask, UInt8.toNat_inj]

/-- What is left of a brief extension word are its five highest bits and its low byte. -/
theorem agree_brief_iff :
    Agree 0x0700 w w' ↔ w.toNat / 2048 = w'.toNat / 2048 ∧ lowByte w = lowByte w' := by
  have hmask : ∀ w : UInt16, (w &&& ~~~0x0700).toNat = w.toNat / 2048 * 2048 + w.toNat % 256 := by
    intro w
    have hsplit : (w &&& ~~~0x0700).toNat =
        (w.toNat / 2048 &&& 31) * 2048 + (w.toNat % 2048 &&& 255) :=
      and_mul_two_pow_add w.toNat 31 255 11 (by decide)
    have hhigh : w.toNat / 2048 &&& 31 = w.toNat / 2048 % 32 :=
      Nat.and_two_pow_sub_one_eq_mod _ 5
    have hlow : w.toNat % 2048 &&& 255 = w.toNat % 2048 % 256 :=
      Nat.and_two_pow_sub_one_eq_mod _ 8
    have hlt := w.toNat_lt
    rw [hsplit, hhigh, hlow]
    omega
  rw [Agree, ← UInt16.toNat_inj, hmask, hmask, ← UInt8.toNat_inj, lowByte, lowByte,
    UInt16.toNat_toUInt8, UInt16.toNat_toUInt8]
  omega

theorem and_bit_ne_zero {mask : UInt16} (k : Nat) (hmask : mask.toNat = 2 ^ k) :
    (w &&& mask != 0) = decide (w.toNat / 2 ^ k % 2 = 1) := by
  have hbit : (w &&& mask).toNat = w.toNat / 2 ^ k % 2 * 2 ^ k := by
    have hstretch := and_stretch w.toNat 1 k
    rw [UInt16.toNat_and, hmask]
    rwa [Nat.pow_one, Nat.one_mul] at hstretch
  have hpos := Nat.two_pow_pos k
  rw [Bool.eq_iff_iff, decide_eq_true_iff, bne_iff_ne, ne_eq, ← UInt16.toNat_inj, hbit,
    UInt16.toNat_zero, Nat.mul_eq_zero]
  omega

theorem toNat_long (high low : UInt16) :
    (long high low).toNat = high.toNat * 65536 + low.toNat := by
  have hhigh := high.toNat_lt
  have hshift : high.toNat <<< 16 % 2 ^ 32 = high.toNat <<< 16 := by
    rw [Nat.shiftLeft_eq]
    omega
  have hor := Nat.shiftLeft_add_eq_or_of_lt low.toNat_lt high.toNat
  rw [long, UInt32.toNat_or, UInt32.toNat_shiftLeft, UInt16.toNat_toUInt32, UInt16.toNat_toUInt32]
  show high.toNat <<< 16 % 2 ^ 32 ||| low.toNat = _
  rw [hshift, ← hor, Nat.shiftLeft_eq]

theorem long_inj (h : long high low = long high' low') : high = high' ∧ low = low' := by
  have hlow := low.toNat_lt
  have hlow' := low'.toNat_lt
  rw [← UInt32.toNat_inj, toNat_long, toNat_long] at h
  rw [← UInt16.toNat_inj, ← UInt16.toNat_inj]
  omega

theorem eq_of_toInt (h : w.toInt16.toInt = w'.toInt16.toInt) : w = w' := by
  have h16 := Int16.toInt_inj.mp h
  rw [← UInt16.toUInt16_toInt16 w, h16, UInt16.toUInt16_toInt16]

end Word

/-! ## Brief extension words -/

section Brief

variable {w w' : UInt16}

theorem lowByte_eq_of_briefDisplacement (h : briefDisplacement w = briefDisplacement w') :
    Word.lowByte w = Word.lowByte w' := by
  have h8 := Int8.toInt_inj.mp h
  rw [← UInt8.toUInt8_toInt8 (Word.lowByte w), h8, UInt8.toUInt8_toInt8]

theorem toNat_index (w : UInt16) : ((w >>> 12) &&& 7).toUInt8.toNat = w.toNat / 4096 % 8 := by
  have hfield : ((w >>> 12) &&& 7).toNat = w.toNat / 4096 % 8 := by
    rw [Opcode.toNat_and_07, UInt16.toNat_shiftRight, Nat.shiftRight_eq_div_pow]
    rfl
  rw [UInt16.toNat_toUInt8, hfield]
  omega

theorem agree_of_brief (hd : briefDisplacement w = briefDisplacement w')
    (hi : Index.ofExtension w = Index.ofExtension w') : Word.Agree 0x0700 w w' := by
  rw [Word.agree_brief_iff]
  refine ⟨?_, lowByte_eq_of_briefDisplacement hd⟩
  obtain ⟨haddress, hnumber, hlong⟩ := Index.mk.inj hi
  rw [Word.and_bit_ne_zero 15 rfl, Word.and_bit_ne_zero 15 rfl, decide_eq_decide] at haddress
  rw [Word.and_bit_ne_zero 11 rfl, Word.and_bit_ne_zero 11 rfl, decide_eq_decide] at hlong
  rw [← UInt8.toNat_inj, toNat_index, toNat_index] at hnumber
  have hlt := w.toNat_lt
  have hlt' := w'.toNat_lt
  omega

theorem briefOffset_of_agree (regs : Registers) (h : Word.Agree 0x0700 w w') :
    regs.briefOffset w = regs.briefOffset w' := by
  obtain ⟨hhigh, hlow⟩ := Word.agree_brief_iff.mp h
  have hnumber : (w >>> 12).toUInt8 = (w' >>> 12).toUInt8 := by
    rw [← UInt8.toNat_inj, UInt16.toNat_toUInt8, UInt16.toNat_toUInt8, UInt16.toNat_shiftRight,
      UInt16.toNat_shiftRight, Nat.shiftRight_eq_div_pow, Nat.shiftRight_eq_div_pow]
    show w.toNat / 4096 % 256 = w'.toNat / 4096 % 256
    omega
  have hbit : ∀ k : Nat, 11 ≤ k → w.toNat / 2 ^ k % 2 = w'.toNat / 2 ^ k % 2 := by
    intro k hk
    have hsplit : 2 ^ k = 2048 * 2 ^ (k - 11) := by
      rw [show (2048 : Nat) = 2 ^ 11 by decide, ← Nat.pow_add, Nat.add_sub_cancel' hk]
    rw [hsplit, ← Nat.div_div_eq_div_mul, ← Nat.div_div_eq_div_mul, hhigh]
  have haddress : (w &&& 0x8000 != 0) = (w' &&& 0x8000 != 0) := by
    rw [Word.and_bit_ne_zero 15 rfl, Word.and_bit_ne_zero 15 rfl, hbit 15 (by decide)]
  have hlong : (w &&& 0x0800 != 0) = (w' &&& 0x0800 != 0) := by
    rw [Word.and_bit_ne_zero 11 rfl, Word.and_bit_ne_zero 11 rfl, hbit 11 (by decide)]
  rw [Registers.briefOffset, Registers.briefOffset, hnumber, haddress, hlong, hlow]

end Brief

/-! ## Extension words of operands -/

def Cursor.wordAt (c : Cursor) (peek : Peek) (k : Nat) : UInt16 :=
  peek { c with taken := c.taken + k }.position

namespace Mode

variable {m : Mode} {size : Size} {peek peek' : Peek} {c c' : Cursor}

theorem agree_of_operand (h : (m.operand size peek c).1 = (m.operand size peek' c').1) :
    ∀ k < m.extensionWords size,
      Word.Agree (m.ignored size) (c.wordAt peek k) (c'.wordAt peek' k) := by
  intro k hk
  cases m with
  | dataReg | addrReg | indirect | postInc | preDec => cases hk
  | disp r | pcDisp =>
    obtain rfl : k = 0 := Nat.lt_one_iff.mp hk
    exact Word.agree_zero_iff.mpr (Word.eq_of_toInt (Operand.disp.inj h).1)
  | index r | pcIndex =>
    obtain rfl : k = 0 := Nat.lt_one_iff.mp hk
    obtain ⟨hd, -, hi⟩ := Operand.index.inj h
    exact agree_of_brief hd hi
  | absShort =>
    obtain rfl : k = 0 := Nat.lt_one_iff.mp hk
    exact Word.agree_zero_iff.mpr (Operand.absShort.inj h)
  | absLong =>
    obtain ⟨hhigh, hlow⟩ := Word.long_inj (Operand.absLong.inj h)
    match k, hk with
    | 0, _ => exact Word.agree_zero_iff.mpr hhigh
    | 1, _ => exact Word.agree_zero_iff.mpr hlow
  | immediate =>
    cases size with
    | byte =>
      obtain rfl : k = 0 := Nat.lt_one_iff.mp hk
      exact Word.agree_byte_iff.mpr (UInt8.toUInt32_inj.mp (Operand.immediate.inj h).2)
    | word =>
      obtain rfl : k = 0 := Nat.lt_one_iff.mp hk
      exact Word.agree_zero_iff.mpr (UInt16.toUInt32_inj.mp (Operand.immediate.inj h).2)
    | long =>
      obtain ⟨hhigh, hlow⟩ := Word.long_inj (Operand.immediate.inj h).2
      match k, hk with
      | 0, _ => exact Word.agree_zero_iff.mpr hhigh
      | 1, _ => exact Word.agree_zero_iff.mpr hlow

theorem operand_congr (h : ∀ k < m.extensionWords size, c.wordAt peek k = c.wordAt peek' k) :
    m.operand size peek c = m.operand size peek' c := by
  cases m with
  | dataReg | addrReg | indirect | postInc | preDec => rfl
  | disp r | index r | absShort | pcDisp | pcIndex =>
    have hfirst : peek c.position = peek' c.position := h 0 Nat.one_pos
    simp only [operand, Cursor.word, hfirst]
  | absLong =>
    have hfirst : peek c.position = peek' c.position := h 0 Nat.two_pos
    have hsecond := h 1 Nat.one_lt_two
    simp only [operand, Cursor.long, Cursor.word, hfirst]
    exact congrArg (fun w => (Operand.absLong (Word.long _ w), _)) hsecond
  | immediate =>
    cases size with
    | byte | word =>
      have hfirst : peek c.position = peek' c.position := h 0 Nat.one_pos
      simp only [operand, Cursor.word, hfirst]
    | long =>
      have hfirst : peek c.position = peek' c.position := h 0 Nat.two_pos
      have hsecond := h 1 Nat.one_lt_two
      simp only [operand, Cursor.long, Cursor.word, hfirst]
      exact congrArg (fun w => (Operand.immediate .long (Word.long _ w), _)) hsecond

end Mode

/-! ## Lines that stay as they are -/

theorem Cursor.wordAt_eq (c : Cursor) (peek : Peek) (k : Nat) :
    c.wordAt peek k = peek (c.start + 2 * UInt32.ofNat (c.taken + k + 1)) := by
  rw [wordAt, position, length, UInt32.ofNat_add (c.taken + k), UInt32.mul_add, UInt32.add_comm 2]
  rfl

theorem Instruction.toNat_size_line (i : Instruction) (peek : Peek) (a : Address) :
    (i.line peek a).size.toNat =
      2 * (i.source.extensionWords i.size + i.destination.extensionWords i.size + 1) := by
  have hsource := i.source.extensionWords_le i.size
  have hdestination := i.destination.extensionWords_le i.size
  rw [size_line, UInt32.toNat_add, UInt32.toNat_mul, UInt32.toNat_ofNat']
  show (2 + 2 * (_ % 2 ^ 32) % 2 ^ 32) % 2 ^ 32 = _
  omega

theorem Instruction.line_congr {i : Instruction} {peek peek' : Peek} {a : Address}
    (h : ∀ k < i.source.extensionWords i.size + i.destination.extensionWords i.size,
      peek (a + 2 * UInt32.ofNat (k + 1)) = peek' (a + 2 * UInt32.ofNat (k + 1))) :
    i.line peek a = i.line peek' a := by
  have hsource : i.source.operand i.size peek { start := a } =
      i.source.operand i.size peek' { start := a } := by
    refine Mode.operand_congr fun k hk => ?_
    have hword := h k (by omega)
    rw [Cursor.wordAt_eq, Cursor.wordAt_eq]
    simpa only [Nat.zero_add] using hword
  have hdestination :
      i.destination.operand i.size peek
          { start := a, taken := i.source.extensionWords i.size } =
        i.destination.operand i.size peek'
          { start := a, taken := i.source.extensionWords i.size } := by
    refine Mode.operand_congr fun k hk => ?_
    rw [Cursor.wordAt_eq, Cursor.wordAt_eq]
    exact h (i.source.extensionWords i.size + k) (by omega)
  rw [line, line]
  simp only [hsource, Mode.cursor_operand, Nat.zero_add, hdestination]

/-- A line depends on the words that it stands for and on no others. -/
theorem Table.disassemble_congr {t : Table} {peek peek' : Peek} {a : Address}
    (h : ∀ k, 2 * k < (t.disassemble peek a).size.toNat →
      peek (a + 2 * UInt32.ofNat k) = peek' (a + 2 * UInt32.ofNat k)) :
    t.disassemble peek a = t.disassemble peek' a := by
  have hfirst : a + 2 * UInt32.ofNat 0 = a := UInt32.add_zero a
  cases hi : t.lookup (peek a) with
  | none =>
    have hline : t.disassemble peek a = dataLine a (peek a) := by rw [disassemble, hi]
    rw [hline] at h
    have hopcode := h 0 Nat.two_pos
    rw [hfirst] at hopcode
    rw [hline, disassemble, ← hopcode, hi]
  | some i =>
    have hline : t.disassemble peek a = i.line peek a := by rw [disassemble, hi]
    rw [hline, i.toNat_size_line] at h
    have hopcode := h 0 (by omega)
    rw [hfirst] at hopcode
    rw [hline, disassemble, ← hopcode, hi]
    exact Instruction.line_congr fun k hk => h (k + 1) (by omega)

/-! ## What is ignored -/

namespace Resolution

variable {r : Resolution} {words : List UInt16}

theorem eq_of_agree (h : List.Forall₂ (Word.Agree 0) r.words words) : words = r.words := by
  have heq : List.Forall₂ (· = ·) r.words words := h.imp fun _ _ => Word.agree_zero_iff.mp
  rw [List.forall₂_eq_eq_eq] at heq
  exact heq.symm

theorem headD_of_agree {ignored : UInt16} {words' : List UInt16}
    (h : List.Forall₂ (Word.Agree ignored) words words') :
    Word.Agree ignored (words.headD 0) (words'.headD 0) := by
  cases h with
  | nil => rfl
  | cons hfirst hrest => exact hfirst

/-- Neither the address nor the value of an operand depends on the ignored bits of its extension
words. -/
theorem ignored_of_agree (h : List.Forall₂ (Word.Agree (r.mode.ignored r.size)) r.words words)
    (regs : Registers) :
    { r with words }.effectiveAddress regs = r.effectiveAddress regs ∧
      { r with words }.finish regs = r.finish regs := by
  by_cases hnone : r.mode.ignored r.size = 0
  · rw [hnone] at h
    rw [eq_of_agree h]
    exact ⟨rfl, rfl⟩
  · have hagree : Word.Agree _ r.extension { r with words }.extension := headD_of_agree h
    cases hmode : r.mode with
    | index n | pcIndex =>
      rw [hmode] at hagree
      have hoffset := briefOffset_of_agree regs hagree
      simp only [effectiveAddress, computeAddress, finish, hmode, hoffset, and_self]
    | immediate =>
      cases hsize : r.size with
      | byte =>
        rw [hmode, hsize] at hagree
        have hlow := Word.agree_byte_iff.mp hagree
        simp only [effectiveAddress, computeAddress, finish, hmode, hsize, true_and]
        show Except.ok (UInt16.toUInt32 _ &&& Size.byte.mask) = Except.ok (_ &&& Size.byte.mask)
        rw [Word.toUInt32_and_mask, Word.toUInt32_and_mask, hlow]
      | word | long =>
        rw [hmode, hsize] at hnone
        exact absurd rfl hnone
    | _ =>
      rw [hmode] at hnone
      exact absurd rfl hnone

end Resolution

end Compare68k
