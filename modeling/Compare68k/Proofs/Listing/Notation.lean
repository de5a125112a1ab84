import Compare68k.Listing.Operand
import Compare68k.Proofs.Text.Hex
import Compare68k.Registers
/-!
# Reading assembler notation

`Operand.scan` reads an operand at the beginning of a text and says what comes after it.  Main
statement: it finds every operand that a listing can print, whatever the listing goes on with, so no
two operands are written alike and none is the beginning of another.
-/

namespace Compare68k

namespace Text.Hex

def scan (cs : List Char) : Nat × Nat × List Char :=
  let digits := cs.takeWhile (Numeral.isDigit 16)
  (Numeral.value 16 digits, digits.length, cs.dropWhile (Numeral.isDigit 16))

end Text.Hex

open Text in
def Ended (rest : List Char) : Prop :=
  ∀ c ∈ rest.head?, Numeral.isDigit 16 c = false

def Base.scan : List Char → Option (Base × List Char)
  | 'A' :: n :: rest => (Register.number? n).map fun r => (.addrReg r, rest)
  | 'P' :: 'C' :: rest => some (.pc, rest)
  | _ => none

def Index.scan : List Char → Option (Index × List Char)
  | letter :: n :: '.' :: width :: rest =>
    (Register.number? n).map fun r => (⟨letter = 'A', r, width = 'L'⟩, rest)
  | _ => none

namespace Operand

def scanBased (d : Int) : List Char → Option (Operand × List Char)
  | '(' :: rest =>
    match Base.scan rest with
    | some (b, ')' :: rest) => some (.disp d b, rest)
    | some (b, ',' :: rest) =>
      match Index.scan rest with
      | some (i, ')' :: rest) => some (.index d b i, rest)
      | _ => none
    | _ => none
  | _ => none

def scanAbsolute (cs : List Char) : Option (Operand × List Char) :=
  let (n, _, rest) := Text.Hex.scan cs
  match rest with
  | '.' :: 'W' :: rest => some (.absShort (UInt16.ofNat n), rest)
  | '.' :: 'L' :: rest => some (.absLong (UInt32.ofNat n), rest)
  | _ => scanBased n rest

/-- Constants of the three sizes have different numbers of digits. -/
def scanConstant (cs : List Char) : Option (Operand × List Char) :=
  let (n, width, rest) := Text.Hex.scan cs
  if width = digits .byte then some (.immediate .byte (UInt32.ofNat n), rest)
  else if width = digits .word then some (.immediate .word (UInt32.ofNat n), rest)
  else some (.immediate .long (UInt32.ofNat n), rest)

def scan : List Char → Option (Operand × List Char)
  | 'D' :: n :: rest => (Register.number? n).map fun r => (.dataReg r, rest)
  | 'A' :: n :: rest => (Register.number? n).map fun r => (.addrReg r, rest)
  | '(' :: 'A' :: n :: ')' :: '+' :: rest => (Register.number? n).map fun r => (.postInc r, rest)
  | '(' :: 'A' :: n :: ')' :: rest => (Register.number? n).map fun r => (.indirect r, rest)
  | '-' :: '(' :: 'A' :: n :: ')' :: rest => (Register.number? n).map fun r => (.preDec r, rest)
  | '-' :: '$' :: rest =>
    let (n, _, rest) := Text.Hex.scan rest
    scanBased (-n) rest
  | '$' :: rest => scanAbsolute rest
  | '#' :: '$' :: rest => scanConstant rest
  | _ => none

end Operand

/-! ## What a listing prints -/

def Base.Printable : Base → Prop
  | addrReg r => r < 8
  | pc => True

/-- The registers exist and a constant fits its size. -/
def Operand.Printable : Operand → Prop
  | dataReg r | addrReg r | indirect r | postInc r | preDec r => r < 8
  | disp _ b => b.Printable
  | index _ b i => b.Printable ∧ i.number < 8
  | absShort _ | absLong _ => True
  | immediate size v => v.toNat < 16 ^ digits size

variable {rest : List Char}

theorem toList_register {r : UInt8} (h : r < 8) :
    ∃ n, (toString r.toNat).toList = [n] ∧ Register.number? n = some r := by
  have hall : ∀ r : Fin 8, ∃ n, (toString r.val).toList = [n] ∧
      Register.number? n = some (UInt8.ofNat r.val) := by
    intro r
    refine ⟨(toString r.val).toList.headD ' ', ?_, ?_⟩ <;> revert r <;> decide
  have hr : r.toNat < 8 := h
  obtain ⟨n, hn, hnumber⟩ := hall ⟨r.toNat, hr⟩
  exact ⟨n, hn, by rw [hnumber, UInt8.ofNat_toNat]⟩

theorem Base.scan_text {b : Base} (h : b.Printable) :
    scan (b.text.toList ++ rest) = some (b, rest) := by
  cases b with
  | pc => rfl
  | addrReg r =>
    obtain ⟨n, hn, hnumber⟩ := toList_register h
    rw [Base.text, String.toList_append, hn]
    show (Register.number? n).map _ = _
    rw [hnumber]
    rfl

theorem Index.scan_text {i : Index} (h : i.number < 8) :
    scan (i.text.toList ++ rest) = some (i, rest) := by
  obtain ⟨isAddress, r, isLong⟩ := i
  have hr : r < 8 := h
  obtain ⟨n, hn, hnumber⟩ := toList_register hr
  have htext : (Index.mk isAddress r isLong).text.toList =
      [if isAddress then 'A' else 'D', n, '.', if isLong then 'L' else 'W'] := by
    rw [Index.text, String.toList_append, String.toList_append, hn]
    cases isAddress <;> cases isLong <;> simp
  rw [htext]
  cases isAddress <;> cases isLong <;> simp [Index.scan, hnumber]

namespace Text.Hex

theorem scan_append {ds : List Char} (hds : ∀ c ∈ ds, Numeral.isDigit 16 c = true)
    (hrest : Ended rest) : scan (ds ++ rest) = (Numeral.value 16 ds, ds.length, rest) := by
  have htake : rest.takeWhile (Numeral.isDigit 16) = [] := by
    cases rest with
    | nil => rfl
    | cons c cs => rw [List.takeWhile_cons, hrest c rfl]; rfl
  have hdrop : rest.dropWhile (Numeral.isDigit 16) = rest := by
    cases rest with
    | nil => rfl
    | cons c cs => rw [List.dropWhile_cons, hrest c rfl]; rfl
  rw [scan, List.takeWhile_append_of_pos hds, List.dropWhile_append_of_pos hds, htake, hdrop,
    List.append_nil]

theorem scan_text (n : Nat) (hrest : Ended rest) :
    scan ((text n).toList ++ rest) = (n, (digits n).length, rest) := by
  rw [toList_text, scan_append (isDigit_of_mem_digits n) hrest, value_digits]

theorem scan_padded {n width : Nat} (h : n < 16 ^ (width + 1)) (hrest : Ended rest) :
    scan ((padded (width + 1) n).toList ++ rest) = (n, width + 1, rest) := by
  rw [scan_append (isDigit_of_mem_padded (width + 1) n) hrest, value_padded, length_padded h]

end Text.Hex

namespace Operand

theorem ended_cons {c : Char} (h : Text.Numeral.isDigit 16 c = false) : Ended (c :: rest) := by
  intro d hd
  cases hd
  exact h

theorem scanBased_disp (d : Int) {b : Base} (h : b.Printable) :
    scanBased d ('(' :: b.text.toList ++ ')' :: rest) = some (.disp d b, rest) := by
  rw [List.cons_append, scanBased, Base.scan_text h]
  rfl

theorem scanBased_index (d : Int) {b : Base} {i : Index} (hb : b.Printable) (hi : i.number < 8) :
    scanBased d ('(' :: b.text.toList ++ ',' :: (i.text.toList ++ ')' :: rest)) =
      some (.index d b i, rest) := by
  rw [List.cons_append, scanBased, Base.scan_text hb]
  show (match Index.scan (i.text.toList ++ ')' :: rest) with
    | some (i, ')' :: rest) => some (Operand.index d b i, rest)
    | _ => none) = _
  rw [Index.scan_text hi]
  rfl

theorem scan_displacement (d : Int) :
    scan ((displacementText d).toList ++ '(' :: rest) = scanBased d ('(' :: rest) := by
  have hended : Ended ('(' :: rest) := ended_cons rfl
  -- a minus sign has a branch of its own; digits might as well begin an absolute address
  unfold displacementText
  split
  · have hd : -(d.natAbs : Int) = d := by omega
    rw [String.toList_append]
    show (let (n, _, rest) := Text.Hex.scan ((Text.Hex.text d.natAbs).toList ++ '(' :: rest)
      scanBased (-n) rest) = _
    rw [Text.Hex.scan_text _ hended]
    show scanBased (-(d.natAbs : Int)) ('(' :: rest) = _
    rw [hd]
  · have hd : (d.natAbs : Int) = d := by omega
    rw [String.toList_append]
    show scanAbsolute ((Text.Hex.text d.natAbs).toList ++ '(' :: rest) = _
    rw [scanAbsolute, Text.Hex.scan_text _ hended]
    show scanBased (d.natAbs : Int) ('(' :: rest) = _
    rw [hd]

theorem scan_absShort (a : UInt16) :
    scan ((absShort a).text.toList ++ rest) = some (absShort a, rest) := by
  have htext : (absShort a).text.toList ++ rest =
      '$' :: ((Text.Hex.padded 4 a.toNat).toList ++ '.' :: 'W' :: rest) := by
    simp [text]
  have hlt : a.toNat < 16 ^ 4 := a.toNat_lt
  rw [htext]
  show scanAbsolute _ = _
  rw [scanAbsolute, Text.Hex.scan_padded hlt (ended_cons rfl)]
  show some (absShort (UInt16.ofNat a.toNat), rest) = _
  rw [UInt16.ofNat_toNat]

theorem scan_absLong (a : UInt32) :
    scan ((absLong a).text.toList ++ rest) = some (absLong a, rest) := by
  have htext : (absLong a).text.toList ++ rest =
      '$' :: ((Text.Hex.padded 8 a.toNat).toList ++ '.' :: 'L' :: rest) := by
    simp [text]
  have hlt : a.toNat < 16 ^ 8 := a.toNat_lt
  rw [htext]
  show scanAbsolute _ = _
  rw [scanAbsolute, Text.Hex.scan_padded hlt (ended_cons rfl)]
  show some (absLong (UInt32.ofNat a.toNat), rest) = _
  rw [UInt32.ofNat_toNat]

theorem scan_constant {size : Size} {v : UInt32} (h : v.toNat < 16 ^ digits size)
    (hrest : Ended rest) :
    scan ((immediate size v).text.toList ++ rest) = some (immediate size v, rest) := by
  have htext : (immediate size v).text.toList ++ rest =
      '#' :: '$' :: ((Text.Hex.padded (digits size) v.toNat).toList ++ rest) := by
    simp [text]
  have hscan : Text.Hex.scan ((Text.Hex.padded (digits size) v.toNat).toList ++ rest) =
      (v.toNat, digits size, rest) := by
    cases size <;> exact Text.Hex.scan_padded h hrest
  rw [htext]
  show scanConstant _ = _
  rw [scanConstant, hscan]
  cases size <;> simp [digits]

theorem scan_indirect {r : UInt8} (h : r < 8) (hplus : rest.head? ≠ some '+') :
    scan ((indirect r).text.toList ++ rest) = some (indirect r, rest) := by
  obtain ⟨n, hn, hnumber⟩ := toList_register h
  simp only [text, String.toList_append, hn, List.append_assoc]
  show scan ('(' :: 'A' :: n :: ')' :: rest) = _
  cases rest with
  | nil => simp [scan, hnumber]
  | cons c cs =>
    have hc : c ≠ '+' := fun hc => hplus (congrArg some hc)
    simp [scan, hnumber, hc]

/-- Every operand of a listing is found again. -/
theorem scan_text {o : Operand} (h : o.Printable) (hrest : Ended rest)
    (hplus : rest.head? ≠ some '+') : scan (o.text.toList ++ rest) = some (o, rest) := by
  cases o with
  | dataReg r | addrReg r | postInc r | preDec r =>
    obtain ⟨n, hn, hnumber⟩ := toList_register h
    simp only [text, String.toList_append, hn, List.append_assoc]
    show (Register.number? n).map _ = _
    rw [hnumber]
    rfl
  | indirect r => exact scan_indirect h hplus
  | disp d b =>
    have htext : (disp d b).text.toList ++ rest =
        (displacementText d).toList ++ '(' :: (b.text.toList ++ ')' :: rest) := by
      simp [text]
    rw [htext, scan_displacement, ← List.cons_append, scanBased_disp d h]
  | index d b i =>
    have htext : (index d b i).text.toList ++ rest =
        (displacementText d).toList ++
          '(' :: (b.text.toList ++ ',' :: (i.text.toList ++ ')' :: rest)) := by
      simp [text]
    rw [htext, scan_displacement, ← List.cons_append, scanBased_index d h.1 h.2]
  | absShort a => exact scan_absShort a
  | absLong a => exact scan_absLong a
  | immediate size v => exact scan_constant h hrest

end Operand

end Compare68k
