import Compare68k.Bus.Ram
import Compare68k.Proofs.Instruction.Recovery
import Compare68k.Proofs.Listing.Words
/-!
# The text of a line identifies its instruction

A line is read back in the order it is written in: its mnemonic up to the first space, then its
operands.  From these follow the class, the size and the modes, and from them the opcode.  Main
statement: lines of the same text stand for the same opcode and the same number of extension words,
which agree in all bits but those that are ignored.
-/

namespace Compare68k

/-! ## The mode of an operand -/

def Operand.mode : Operand → Mode
  | dataReg r => .dataReg r
  | addrReg r => .addrReg r
  | indirect r => .indirect r
  | postInc r => .postInc r
  | preDec r => .preDec r
  | disp _ (.addrReg r) => .disp r
  | disp _ .pc => .pcDisp
  | index _ (.addrReg r) _ => .index r
  | index _ .pc _ => .pcIndex
  | absShort _ => .absShort
  | absLong _ => .absLong
  | immediate _ _ => .immediate

namespace Mode

variable {m : Mode} {size : Size} {peek : Peek} {c : Cursor}

theorem mode_operand : (m.operand size peek c).1.mode = m := by
  cases m with
  | immediate => cases size <;> rfl
  | _ => rfl

theorem printable_operand (h : m.wellFormed = true) : (m.operand size peek c).1.Printable := by
  have hcodes := m.codes_lt h
  cases m with
  | dataReg r | addrReg r | indirect r | postInc r | preDec r | disp r => exact hcodes
  | index r => exact ⟨hcodes, toUInt8_and_seven_lt _⟩
  | pcIndex => exact ⟨trivial, toUInt8_and_seven_lt _⟩
  | absShort | absLong | pcDisp => trivial
  | immediate =>
    cases size with
    | byte =>
      show (Word.lowByte _).toUInt32.toNat < 256
      rw [UInt8.toNat_toUInt32]
      exact UInt8.toNat_lt _
    | word =>
      show (UInt16.toUInt32 _).toNat < 65536
      rw [UInt16.toNat_toUInt32]
      exact UInt16.toNat_lt _
    | long => exact UInt32.toNat_lt _

end Mode

/-! ## Reading a line -/

/-- A source operand and what it is followed by can be told apart. -/
theorem Operand.text_inj {o o' : Operand} {rest rest' : List Char} (ho : o.Printable)
    (ho' : o'.Printable) (h : o.text.toList ++ ',' :: rest = o'.text.toList ++ ',' :: rest') :
    o = o' ∧ rest = rest' := by
  have hscan : scan (o.text.toList ++ ',' :: rest) = some (o, ',' :: rest) :=
    scan_text ho (ended_cons rfl) (by simp)
  have hscan' : scan (o'.text.toList ++ ',' :: rest') = some (o', ',' :: rest') :=
    scan_text ho' (ended_cons rfl) (by simp)
  rw [h, hscan'] at hscan
  obtain ⟨rfl, hrest⟩ := Prod.mk.inj (Option.some.inj hscan)
  exact ⟨rfl, (List.cons.inj hrest).2.symm⟩

theorem Operand.text_last_inj {o o' : Operand} (ho : o.Printable) (ho' : o'.Printable)
    (h : o.text = o'.text) : o = o' := by
  have hscan : scan (o.text.toList ++ []) = some (o, []) :=
    scan_text ho (fun c hc => nomatch hc) (by simp)
  have hscan' : scan (o'.text.toList ++ []) = some (o', []) :=
    scan_text ho' (fun c hc => nomatch hc) (by simp)
  rw [h, hscan'] at hscan
  exact (Prod.mk.inj (Option.some.inj hscan)).1.symm

/-- The class and the size that a mnemonic stands for. -/
def Line.kind? (mnemonic : String) : Option (Class × Size) :=
  ([.cmp, .cmpa, .cmpi, .cmpm] : List Class).findSome? fun c =>
    ([.byte, .word, .long] : List Size).findSome? fun s =>
      if c.mnemonic ++ s.suffix = mnemonic then some (c, s) else none

theorem Line.kind?_mnemonic (c : Class) (s : Size) :
    kind? (c.mnemonic ++ s.suffix) = some (c, s) := by
  cases c <;> cases s <;> decide

structure Line.Legible (l : Line) : Prop where
  mnemonic : ' ' ∉ l.mnemonic.toList
  operands : l.operands.isEmpty = false

theorem Line.span_text {l : Line} (hl : l.Legible) :
    l.text.toList.takeWhile (· ≠ ' ') = l.mnemonic.toList ∧
      l.text.toList.dropWhile (· ≠ ' ') = ' ' :: l.operands.toList := by
  have htext : l.text.toList = l.mnemonic.toList ++ ' ' :: l.operands.toList := by
    rw [text, hl.operands]
    simp
  have hword : ∀ c ∈ l.mnemonic.toList, decide (c ≠ ' ') = true :=
    fun c hc => decide_eq_true fun hspace => hl.mnemonic (hspace ▸ hc)
  rw [htext, List.takeWhile_append_of_pos hword, List.dropWhile_append_of_pos hword]
  simp

theorem Line.text_inj {l l' : Line} (hl : l.Legible) (hl' : l'.Legible) (h : l.text = l'.text) :
    l.mnemonic = l'.mnemonic ∧ l.operands = l'.operands := by
  obtain ⟨hmnemonic, hoperands⟩ := span_text hl
  obtain ⟨hmnemonic', hoperands'⟩ := span_text hl'
  rw [h, hmnemonic'] at hmnemonic
  rw [h, hoperands'] at hoperands
  exact ⟨String.toList_inj.mp hmnemonic.symm,
    String.toList_inj.mp (List.cons.inj hoperands.symm).2⟩

theorem legible_dataLine (a : Address) (w : UInt16) : (dataLine a w).Legible where
  mnemonic := by
    show ' ' ∉ "DC.W".toList
    decide
  operands := by
    show ("$" ++ Text.Hex.padded 4 w.toNat).isEmpty = false
    simp

theorem dataLine_inj {a a' : Address} {w w' : UInt16}
    (h : (dataLine a w).operands = (dataLine a' w').operands) : w = w' := by
  have hdigits : Text.Hex.padded 4 w.toNat = Text.Hex.padded 4 w'.toNat :=
    String.append_right_inj "$" |>.mp h
  rw [← UInt16.toNat_inj, ← Text.Hex.value_padded 4 w.toNat, hdigits, Text.Hex.value_padded]

namespace Instruction

variable {i i' : Instruction} {peek peek' : Peek} {a a' : Address}

def extensionWords (i : Instruction) : Nat :=
  i.source.extensionWords i.size + i.destination.extensionWords i.size

def ignored (i : Instruction) (k : Nat) : UInt16 :=
  if k < i.source.extensionWords i.size then i.source.ignored i.size
  else i.destination.ignored i.size

/-- The operands of a line, each with the cursor that has come to it. -/
def operandsAt (i : Instruction) (peek : Peek) (a : Address) : Operand × Operand :=
  ((i.source.operand i.size peek { start := a }).1,
    (i.destination.operand i.size peek
      { start := a, taken := i.source.extensionWords i.size }).1)

theorem operands_line (i : Instruction) (peek : Peek) (a : Address) :
    (i.line peek a).operands =
      (i.operandsAt peek a).1.text ++ "," ++ (i.operandsAt peek a).2.text := by
  rw [line]
  simp only [Cursor.close, Mode.cursor_operand, Nat.zero_add]
  rfl

theorem legible_line (i : Instruction) (peek : Peek) (a : Address) : (i.line peek a).Legible where
  mnemonic := by
    rw [mnemonic_line]
    cases i.cls <;> cases i.size <;> decide
  operands := by
    rw [operands_line]
    simp

theorem kind_of_mnemonic (h : (i.line peek a).mnemonic = (i'.line peek' a').mnemonic) :
    i.cls = i'.cls ∧ i.size = i'.size := by
  rw [mnemonic_line, mnemonic_line] at h
  have hkind := Line.kind?_mnemonic i.cls i.size
  rw [h, Line.kind?_mnemonic] at hkind
  exact Prod.mk.inj (Option.some.inj hkind.symm)

theorem operandsAt_of_operands (hsource : i.source.wellFormed = true)
    (hdestination : i.destination.wellFormed = true) (hsource' : i'.source.wellFormed = true)
    (hdestination' : i'.destination.wellFormed = true)
    (h : (i.line peek a).operands = (i'.line peek' a').operands) :
    i.operandsAt peek a = i'.operandsAt peek' a' := by
  have hlists := congrArg String.toList h
  rw [operands_line, operands_line] at hlists
  simp only [String.toList_append, List.append_assoc] at hlists
  obtain ⟨hfirst, hrest⟩ := Operand.text_inj (Mode.printable_operand hsource)
    (Mode.printable_operand hsource') hlists
  have hsecond := Operand.text_last_inj (Mode.printable_operand hdestination)
    (Mode.printable_operand hdestination') (String.toList_inj.mp hrest)
  exact Prod.ext hfirst hsecond

theorem eq_of_operandsAt (hcls : i.cls = i'.cls) (hsize : i.size = i'.size)
    (h : i.operandsAt peek a = i'.operandsAt peek' a') : i = i' := by
  obtain ⟨hfirst, hsecond⟩ := Prod.mk.inj h
  have hsource : i.source = i'.source := by
    rw [← Mode.mode_operand (m := i.source), hfirst, Mode.mode_operand]
  have hdestination : i.destination = i'.destination := by
    rw [← Mode.mode_operand (m := i.destination), hsecond, Mode.mode_operand]
  obtain ⟨cls, size, source, destination⟩ := i
  obtain ⟨cls', size', source', destination'⟩ := i'
  cases hcls
  cases hsize
  cases hsource
  cases hdestination
  rfl

theorem agree_of_operandsAt (h : i.operandsAt peek a = i.operandsAt peek' a') :
    ∀ k < i.extensionWords, Word.Agree (i.ignored k)
      (Cursor.wordAt { start := a } peek k) (Cursor.wordAt { start := a' } peek' k) := by
  obtain ⟨hfirst, hsecond⟩ := Prod.mk.inj h
  intro k hk
  rw [ignored]
  split
  · rename_i hsource
    have hagree := Mode.agree_of_operand hfirst k hsource
    simp only [Cursor.wordAt, Nat.zero_add] at hagree ⊢
    exact hagree
  · rename_i hsource
    rw [extensionWords] at hk
    have hagree := Mode.agree_of_operand hsecond (k - i.source.extensionWords i.size) (by omega)
    simp only [Cursor.wordAt, Nat.zero_add] at hagree ⊢
    rwa [Nat.add_sub_cancel' (Nat.le_of_not_lt hsource)] at hagree

end Instruction

namespace Table

variable {t : Table} {peek peek' : Peek} {a a' : Address}

theorem legible_disassemble (t : Table) (peek : Peek) (a : Address) :
    (t.disassemble peek a).Legible := by
  unfold disassemble
  cases t.lookup (peek a) with
  | none => exact legible_dataLine a (peek a)
  | some i => exact i.legible_line peek a

theorem eq_of_line {i i' : Instruction} (hi : t.lookup (peek a) = some i)
    (hi' : t.lookup (peek' a') = some i')
    (hmnemonic : (i.line peek a).mnemonic = (i'.line peek' a').mnemonic)
    (hoperands : (i.line peek a).operands = (i'.line peek' a').operands) :
    i = i' ∧ peek a = peek' a' ∧ i.operandsAt peek a = i'.operandsAt peek' a' := by
  have hd := decoded_of_lookup hi
  have hd' := decoded_of_lookup hi'
  obtain ⟨hcls, hsize⟩ := Instruction.kind_of_mnemonic hmnemonic
  have hat := Instruction.operandsAt_of_operands hd.source_wellFormed hd.destination_wellFormed
    hd'.source_wellFormed hd'.destination_wellFormed hoperands
  have heq := Instruction.eq_of_operandsAt hcls hsize hat
  refine ⟨heq, ?_, hat⟩
  subst heq
  exact Class.eq_of_decode? (decode?_of_lookup hi) (decode?_of_lookup hi')

/-- The text of a line identifies what it stands for. -/
theorem identified_of_text (h : (t.disassemble peek a).text = (t.disassemble peek' a').text) :
    peek a = peek' a' ∧ (t.disassemble peek a).size = (t.disassemble peek' a').size ∧
    (∀ i, t.lookup (peek a) = some i →
      (t.disassemble peek a).size = 2 + 2 * UInt32.ofNat i.extensionWords ∧
      ∀ k < i.extensionWords, Word.Agree (i.ignored k)
        (peek (a + (2 + 2 * UInt32.ofNat k))) (peek' (a' + (2 + 2 * UInt32.ofNat k)))) ∧
    ∀ (r : Resolution) (words : List UInt16) (regs : Registers),
      List.Forall₂ (Word.Agree (r.mode.ignored r.size)) r.words words →
        { r with words }.effectiveAddress regs = r.effectiveAddress regs ∧
          { r with words }.finish regs = r.finish regs := by
  obtain ⟨hmnemonic, hoperands⟩ :=
    Line.text_inj (t.legible_disassemble peek a) (t.legible_disassemble peek' a') h
  have hdata := t.mnemonic_disassemble peek a
  have hdata' := t.mnemonic_disassemble peek' a'
  suffices hline : peek a = peek' a' ∧
      (t.disassemble peek a).size = (t.disassemble peek' a').size ∧
      ∀ i, t.lookup (peek a) = some i →
        (t.disassemble peek a).size = 2 + 2 * UInt32.ofNat i.extensionWords ∧
        ∀ k < i.extensionWords, Word.Agree (i.ignored k)
          (peek (a + (2 + 2 * UInt32.ofNat k))) (peek' (a' + (2 + 2 * UInt32.ofNat k))) by
    obtain ⟨hopcode, hsize, hwords⟩ := hline
    exact ⟨hopcode, hsize, hwords, fun r words regs hagree => r.ignored_of_agree hagree regs⟩
  -- data and instructions have different mnemonics, so both lines are of one kind
  cases hi : t.lookup (peek a) with
  | none =>
    have hnone' := hdata'.mp (hmnemonic ▸ hdata.mpr hi)
    rw [disassemble, disassemble, hi, hnone'] at hoperands ⊢
    refine ⟨dataLine_inj hoperands, rfl, fun i hi => ?_⟩
    cases hi
  | some i =>
    cases hi' : t.lookup (peek' a') with
    | none =>
      have hnone := hdata.mp (hmnemonic.trans (hdata'.mpr hi'))
      cases hi.symm.trans hnone
    | some i' =>
      rw [disassemble, disassemble, hi, hi'] at hmnemonic hoperands ⊢
      obtain ⟨rfl, hopcode, hat⟩ := eq_of_line hi hi' hmnemonic hoperands
      refine ⟨hopcode, ?_, fun j hj => ?_⟩
      · dsimp only
        rw [Instruction.size_line, Instruction.size_line]
      · cases hj
        refine ⟨Instruction.size_line i peek a, fun k hk => ?_⟩
        have hagree := Instruction.agree_of_operandsAt hat k hk
        simp only [Cursor.wordAt, Nat.zero_add] at hagree
        exact hagree

/-- CMP.W 4(A0,D1.W),D0 at two addresses, with different bits where its extension word has no
meaning. -/
theorem identified_of_text_index :
    ∃ ram ram' : Ram,
      (standard.disassemble (Bus.peekWord ram) 0).text =
        (standard.disassemble (Bus.peekWord ram') 2).text ∧
      Bus.peekWord ram 2 ≠ Bus.peekWord ram' 4 ∧
      Bus.peekWord ram 0 = Bus.peekWord ram' 2 ∧
      (standard.disassemble (Bus.peekWord ram) 0).size =
        (standard.disassemble (Bus.peekWord ram') 2).size ∧
      Word.Agree 0x0700 (Bus.peekWord ram 2) (Bus.peekWord ram' 4) := by
  let ram := ((Ram.zeroed 4 (by decide)).setWord 0 0xB070).setWord 2 0x1004
  let ram' := ((Ram.zeroed 4 (by decide)).setWord 2 0xB070).setWord 4 0x1304
  have hi : standard.lookup (Bus.peekWord ram 0) =
      some ⟨.cmp, .word, .index 0, .dataReg 0⟩ := by decide +kernel
  have htext : (standard.disassemble (Bus.peekWord ram) 0).text =
      (standard.disassemble (Bus.peekWord ram') 2).text := by decide +kernel
  obtain ⟨hopcode, hsize, hwords, -⟩ := identified_of_text htext
  exact ⟨ram, ram', htext, by decide +kernel, hopcode, hsize, (hwords _ hi).2 0 (by decide)⟩

end Table

end Compare68k
