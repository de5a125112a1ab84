import Compare68k.Proofs.Memory
import Mathlib.Logic.Function.Basic
/-!
# A memory that repeats

Four accounts of what a memory does with a sequence of accesses: a RAM, which answers words in its
own way; a bus that has nothing but the RAM's bytes; a function from residues of addresses to bytes;
and an array, addressed through two masks, that refuses every position which it does not have.  Main
statement: from the same contents all four give the same replies and end with the same contents, and
the array never refuses.
-/

namespace Compare68k

inductive Command where
  | peekByte (a : Address)
  | readByte (a : Address)
  | writeByte (a : Address) (value : UInt8)
  | peekWord (a : Address)
  | readWord (a : Address)
  | writeWord (a : Address) (value : UInt16)
deriving DecidableEq, Repr

inductive Reply where
  | byte (value : UInt8)
  | word (value : UInt16)
  | stored
deriving DecidableEq, Repr

namespace Command

variable {σ τ : Type}

def run (obey : σ → Command → Reply × σ) (s : σ) : List Command → List Reply × σ
  | [] => ([], s)
  | c :: cs =>
    let first := obey s c
    let others := run obey first.2 cs
    (first.1 :: others.1, others.2)

def run? (obey? : σ → Command → Option (Reply × σ)) (s : σ) :
    List Command → Option (List Reply × σ)
  | [] => some ([], s)
  | c :: cs => do
    let (reply, s) ← obey? s c
    let (replies, s) ← run? obey? s cs
    return (reply :: replies, s)

theorem run_related {obey : σ → Command → Reply × σ} {obey' : τ → Command → Reply × τ}
    {related : σ → τ → Prop}
    (hstep : ∀ s t c, related s t →
      (obey' t c).1 = (obey s c).1 ∧ related (obey s c).2 (obey' t c).2)
    (cs : List Command) {s : σ} {t : τ} (h : related s t) :
    (run obey' t cs).1 = (run obey s cs).1 ∧ related (run obey s cs).2 (run obey' t cs).2 := by
  induction cs generalizing s t with
  | nil => exact ⟨rfl, h⟩
  | cons c cs ih =>
    obtain ⟨hreply, hnext⟩ := hstep s t c h
    obtain ⟨hreplies, hlast⟩ := ih hnext
    exact ⟨congrArg₂ List.cons hreply hreplies, hlast⟩

theorem run?_related {obey : σ → Command → Reply × σ} {obey? : τ → Command → Option (Reply × τ)}
    {related : σ → τ → Prop}
    (hstep : ∀ s t c, related s t →
      ∃ t', obey? t c = some ((obey s c).1, t') ∧ related (obey s c).2 t')
    (cs : List Command) {s : σ} {t : τ} (h : related s t) :
    ∃ t', run? obey? t cs = some ((run obey s cs).1, t') ∧ related (run obey s cs).2 t' := by
  induction cs generalizing s t with
  | nil => exact ⟨t, rfl, h⟩
  | cons c cs ih =>
    obtain ⟨next, hobey, hnext⟩ := hstep s t c h
    obtain ⟨last, hrun, hlast⟩ := ih hnext
    refine ⟨last, ?_, hlast⟩
    rw [run?, hobey]
    dsimp only [bind, Option.bind]
    rw [hrun]
    rfl

end Command

/-! ## The four memories -/

def Bus.obey {β : Type} [Bus β] (bus : β) : Command → Reply × β
  | .peekByte a => (.byte (peekByte bus a), bus)
  | .readByte a =>
    let read := readByte bus a
    (.byte read.1, read.2)
  | .writeByte a value => (.stored, writeByte bus a value)
  | .peekWord a => (.word (peekWord bus a), bus)
  | .readWord a =>
    let read := readWord bus a
    (.word read.1, read.2)
  | .writeWord a value => (.stored, writeWord bus a value)

/-- A bus that passes bytes on to another one and has no way of its own with words. -/
structure Bytewise (β : Type) where
  inner : β

instance {β : Type} [Bus β] : Bus (Bytewise β) where
  description bus := Bus.description bus.inner
  peekByte bus a := Bus.peekByte bus.inner a
  readByte bus a :=
    let read := Bus.readByte bus.inner a
    (read.1, ⟨read.2⟩)
  writeByte bus a value := ⟨Bus.writeByte bus.inner a value⟩

/-- The byte at each residue of addresses. -/
abbrev Residues (bits : Nat) := Fin (2 ^ bits) → UInt8

namespace Residues

variable {bits : Nat}

def residue (bits n : Nat) : Fin (2 ^ bits) :=
  ⟨n % 2 ^ bits, Nat.mod_lt n (Nat.two_pow_pos bits)⟩

def cell (m : Residues bits) (n : Nat) : UInt8 :=
  m (residue bits n)

def put (m : Residues bits) (n : Nat) (value : UInt8) : Residues bits :=
  Function.update m (residue bits n) value

/-- A word is the pair of bytes at an address and behind it, the high byte first. -/
def obey (m : Residues bits) : Command → Reply × Residues bits
  | .peekByte a | .readByte a => (.byte (m.cell a.toNat), m)
  | .writeByte a value => (.stored, m.put a.toNat value)
  | .peekWord a | .readWord a =>
    (.word (Word.ofBytes (m.cell a.toNat) (m.cell (a.toNat + 1))), m)
  | .writeWord a value =>
    (.stored, (m.put a.toNat (Word.highByte value)).put (a.toNat + 1) (Word.lowByte value))

end Residues

/-- The contents of a memory, with nothing to be had from a position outside them. -/
abbrev Cells := Array UInt8

namespace Cells

def position (cells : Cells) (a : Address) : Nat :=
  (a &&& 0xFFFFFF).toNat &&& (cells.size - 1)

/-- The position behind another one, which is the first behind the last. -/
def after (cells : Cells) (i : Nat) : Nat :=
  if i + 1 < cells.size then i + 1 else 0

def put? (cells : Cells) (i : Nat) (value : UInt8) : Option Cells :=
  if h : i < cells.size then some (cells.set i value h) else none

def obey? (cells : Cells) : Command → Option (Reply × Cells)
  | .peekByte a | .readByte a => do
    let value ← cells[cells.position a]?
    return (.byte value, cells)
  | .writeByte a value => do
    let cells ← cells.put? (cells.position a) value
    return (.stored, cells)
  | .peekWord a | .readWord a => do
    let i := cells.position a
    let high ← cells[i]?
    let low ← cells[cells.after i]?
    return (.word (Word.ofBytes high low), cells)
  | .writeWord a value => do
    let i := cells.position a
    let cells ← cells.put? i (Word.highByte value)
    let cells ← cells.put? (cells.after i) (Word.lowByte value)
    return (.stored, cells)

end Cells

namespace Ram

variable {ram : Ram} {bits : Nat}

def cells (ram : Ram) : Cells :=
  ram.bytes.data

structure Holds (ram : Ram) (m : Residues bits) : Prop where
  bits_eq : ram.bits = bits
  cell : ∀ i : Fin (2 ^ bits), ram.cells[i.val]? = some (m i)

theorem size_cells (ram : Ram) : ram.cells.size = ram.size := rfl

theorem getElem?_cells (ram : Ram) (i : Fin ram.size) : ram.cells[i.val]? = some (ram.get i) :=
  Array.getElem?_eq_getElem i.isLt

theorem cells_set (ram : Ram) (i : Fin ram.size) (value : UInt8) (h : i.val < ram.cells.size) :
    (ram.set i value).cells = ram.cells.set i.val value h :=
  ByteArray.data_set

theorem getElem?_cells_set (ram : Ram) (i : Fin ram.size) (value : UInt8) (j : Nat) :
    (ram.set i value).cells[j]? = if i.val = j then some value else ram.cells[j]? := by
  have hlt : i.val < ram.cells.size := i.isLt
  rw [ram.cells_set i value hlt]
  exact Array.getElem?_set hlt

theorem exists_holds (ram : Ram) : ∃ m : Residues ram.bits, ram.Holds m := by
  refine ⟨fun i => ram.get ⟨i.val, ?_⟩, rfl, fun i => ?_⟩
  · rw [ram.size_eq_two_pow]
    exact i.isLt
  · exact ram.getElem?_cells ⟨i.val, _⟩

@[simp] theorem val_index_set (i : Fin ram.size) (value : UInt8) (a : Address) :
    ((ram.set i value).index a).val = (ram.index a).val := by
  simp only [index, size_set]

/-- Storing a word stores its bytes one after the other, also where the second one comes first in
the array. -/
theorem setWord_eq (hbits : ram.bits ≤ 24) (a : Address) (w : UInt16) :
    ram.setWord a w =
      Bus.writeByte (Bus.writeByte ram a (Word.highByte w)) (a + 1) (Word.lowByte w) := by
  let stored := ram.set (ram.index a) (Word.highByte w)
  have hnext : (stored.index (a + 1)).val = ((ram.index a).val + 1) % ram.size := by
    rw [val_index_set, index_add_one hbits]
  have hlt := (ram.index a).isLt
  show ram.setWord a w = stored.set (stored.index (a + 1)) (Word.lowByte w)
  unfold setWord
  dsimp only
  split
  · rename_i hin
    rw [Nat.mod_eq_of_lt hin] at hnext
    exact congrArg (stored.set · (Word.lowByte w)) (Fin.ext hnext.symm)
  · rename_i hlast
    have hend : (ram.index a).val + 1 = ram.size := by omega
    rw [hend, Nat.mod_self] at hnext
    exact congrArg (stored.set · (Word.lowByte w)) (Fin.ext hnext.symm)

/-! ## A RAM as bytes -/

theorem obey_bytewise (hbits : ram.bits ≤ 24) (c : Command) :
    (Bus.obey (Bytewise.mk ram) c).1 = (Bus.obey ram c).1 ∧
      (Bus.obey (Bytewise.mk ram) c).2 = ⟨(Bus.obey ram c).2⟩ := by
  cases c with
  | peekByte a | readByte a | writeByte a value => exact ⟨rfl, rfl⟩
  | peekWord a | readWord a => exact ⟨congrArg Reply.word (word_eq_memory_word hbits a).symm, rfl⟩
  | writeWord a value => exact ⟨rfl, congrArg Bytewise.mk (setWord_eq hbits a value).symm⟩

theorem bits_obey (c : Command) : (Bus.obey ram c).2.bits = ram.bits := by
  cases c with
  | peekByte a | readByte a | writeByte a value | peekWord a | readWord a => rfl
  | writeWord a value =>
    show (ram.setWord a value).bits = ram.bits
    unfold setWord
    dsimp only
    split <;> rfl

/-! ## A RAM as a function of residues -/

theorem Holds.get {m : Residues bits} (h : ram.Holds m) {i : Fin ram.size} {n : Nat}
    (hi : i.val = n % 2 ^ bits) : ram.get i = m.cell n := by
  have hcell := h.cell (Residues.residue bits n)
  have hposition : (Residues.residue bits n).val = i.val := hi.symm
  rw [hposition, getElem?_cells] at hcell
  exact Option.some.inj hcell

theorem Holds.set {m : Residues bits} (h : ram.Holds m) {i : Fin ram.size} {n : Nat}
    (hi : i.val = n % 2 ^ bits) (value : UInt8) : (ram.set i value).Holds (m.put n value) where
  bits_eq := h.bits_eq
  cell := by
    intro j
    rw [getElem?_cells_set, Residues.put, Function.update_apply, h.cell j]
    by_cases hj : i.val = j.val
    · have heq : j = Residues.residue bits n := Fin.ext (hj.symm.trans hi)
      rw [if_pos hj, if_pos heq]
    · have hne : j ≠ Residues.residue bits n := by
        intro heq
        apply hj
        rw [hi, heq]
        rfl
      rw [if_neg hj, if_neg hne]

theorem Holds.index {m : Residues bits} (h : ram.Holds m) (hbits : bits ≤ 24) (a : Address) :
    (ram.index a).val = a.toNat % 2 ^ bits := by
  rw [index_eq_mod (h.bits_eq ▸ hbits), size_eq_two_pow, h.bits_eq]

theorem Holds.index_next {m : Residues bits} (h : ram.Holds m) (hbits : bits ≤ 24) (a : Address) :
    (ram.index (a + 1)).val = (a.toNat + 1) % 2 ^ bits := by
  rw [index_add_one (h.bits_eq ▸ hbits), h.index hbits, size_eq_two_pow, h.bits_eq, Nat.mod_add_mod]

theorem Holds.word {m : Residues bits} (h : ram.Holds m) (hbits : bits ≤ 24) (a : Address) :
    ram.word a = Word.ofBytes (m.cell a.toNat) (m.cell (a.toNat + 1)) := by
  rw [word_eq_memory_word (h.bits_eq ▸ hbits), Memory.word, memory, memory, h.get (h.index hbits a),
    h.get (h.index_next hbits a)]

theorem Holds.obey {m : Residues bits} (h : ram.Holds m) (hbits : bits ≤ 24) (c : Command) :
    (m.obey c).1 = (Bus.obey ram c).1 ∧ (Bus.obey ram c).2.Holds (m.obey c).2 := by
  cases c with
  | peekByte a | readByte a =>
    exact ⟨congrArg Reply.byte (h.get (h.index hbits a)).symm, h⟩
  | writeByte a value => exact ⟨rfl, h.set (h.index hbits a) value⟩
  | peekWord a | readWord a => exact ⟨congrArg Reply.word (h.word hbits a).symm, h⟩
  | writeWord a value =>
    refine ⟨rfl, ?_⟩
    have hfirst := h.set (h.index hbits a) (Word.highByte value)
    show (ram.setWord a value).Holds _
    rw [setWord_eq (h.bits_eq ▸ hbits)]
    exact hfirst.set (hfirst.index_next hbits a) (Word.lowByte value)

/-! ## A RAM as an array -/

theorem position_cells (ram : Ram) (a : Address) : ram.cells.position a = (ram.index a).val := by
  have hlines : (0xFFFFFF : UInt32).toNat = 2 ^ 24 - 1 := rfl
  rw [Cells.position, UInt32.toNat_and, hlines, Nat.and_two_pow_sub_one_eq_mod, size_cells]
  show a.toNat % 2 ^ 24 &&& (ram.size - 1) = a.toNat % 2 ^ 24 % ram.size
  rw [size_eq_two_pow, Nat.and_two_pow_sub_one_eq_mod]

theorem after_cells (hbits : ram.bits ≤ 24) (a : Address) :
    ram.cells.after (ram.index a).val = (ram.index (a + 1)).val := by
  have hlt := (ram.index a).isLt
  rw [index_add_one hbits, Cells.after, size_cells]
  by_cases hin : (ram.index a).val + 1 < ram.size
  · rw [if_pos hin, Nat.mod_eq_of_lt hin]
  · have hend : (ram.index a).val + 1 = ram.size := by omega
    rw [if_neg hin, hend, Nat.mod_self]

theorem put?_cells (i : Fin ram.size) (value : UInt8) :
    ram.cells.put? i.val value = some (ram.set i value).cells := by
  have hlt : i.val < ram.cells.size := i.isLt
  rw [Cells.put?, dif_pos hlt, ram.cells_set i value hlt]

theorem obey?_cells (hbits : ram.bits ≤ 24) (c : Command) :
    ram.cells.obey? c = some ((Bus.obey ram c).1, (Bus.obey ram c).2.cells) := by
  cases c with
  | peekByte a | readByte a =>
    rw [Cells.obey?, position_cells, getElem?_cells]
    rfl
  | writeByte a value =>
    rw [Cells.obey?, position_cells, put?_cells]
    rfl
  | peekWord a | readWord a =>
    have hword : Word.ofBytes (ram.get (ram.index a)) (ram.get (ram.index (a + 1))) = ram.word a :=
      (word_eq_memory_word hbits a).symm
    rw [Cells.obey?, position_cells, after_cells hbits, getElem?_cells, getElem?_cells]
    dsimp only [bind, Option.bind]
    rw [hword]
    rfl
  | writeWord a value =>
    have hnext := val_index_set (ram.index a) (Word.highByte value) (a + 1)
    have hbits' : (ram.set (ram.index a) (Word.highByte value)).bits ≤ 24 := hbits
    have hafter := after_cells hbits' a
    rw [val_index_set] at hafter
    rw [Cells.obey?, position_cells, put?_cells]
    dsimp only [bind, Option.bind]
    rw [hafter, put?_cells]
    show some (Reply.stored, _) = some (Reply.stored, (ram.setWord a value).cells)
    rw [setWord_eq hbits]
    rfl

/-! ## Sequences of accesses -/

theorem run_bytewise (hbits : ram.bits ≤ 24) (cs : List Command) :
    Command.run Bus.obey (Bytewise.mk ram) cs =
      ((Command.run Bus.obey ram cs).1, ⟨(Command.run Bus.obey ram cs).2⟩) := by
  let related (r : Ram) (b : Bytewise Ram) : Prop := r.bits ≤ 24 ∧ b = ⟨r⟩
  have hstep : ∀ r b c, related r b →
      (Bus.obey b c).1 = (Bus.obey r c).1 ∧ related (Bus.obey r c).2 (Bus.obey b c).2 := by
    rintro r b c ⟨hr, rfl⟩
    obtain ⟨hreply, hafter⟩ := obey_bytewise hr c
    exact ⟨hreply, (bits_obey c).trans_le hr, hafter⟩
  obtain ⟨hreplies, -, hlast⟩ := Command.run_related hstep cs (s := ram) (t := ⟨ram⟩) ⟨hbits, rfl⟩
  exact Prod.ext hreplies hlast

theorem Holds.run {m : Residues bits} (h : ram.Holds m) (hbits : bits ≤ 24) (cs : List Command) :
    (Command.run Residues.obey m cs).1 = (Command.run Bus.obey ram cs).1 ∧
      (Command.run Bus.obey ram cs).2.Holds (Command.run Residues.obey m cs).2 :=
  Command.run_related (fun _ _ c hr => hr.obey hbits c) cs h

theorem run?_cells (hbits : ram.bits ≤ 24) (cs : List Command) :
    Command.run? Cells.obey? ram.cells cs =
      some ((Command.run Bus.obey ram cs).1, (Command.run Bus.obey ram cs).2.cells) := by
  let related (r : Ram) (cells : Cells) : Prop := r.bits ≤ 24 ∧ cells = r.cells
  have hstep : ∀ r cells c, related r cells →
      ∃ cells', Cells.obey? cells c = some ((Bus.obey r c).1, cells') ∧
        related (Bus.obey r c).2 cells' := by
    rintro r cells c ⟨hr, rfl⟩
    exact ⟨_, obey?_cells hr c, (bits_obey c).trans_le hr, rfl⟩
  obtain ⟨last, hrun, -, hlast⟩ :=
    Command.run?_related hstep cs (s := ram) (t := ram.cells) ⟨hbits, rfl⟩
  rw [hrun, hlast]

/-- A RAM of at most `2 ^ 24` bytes, a bus with its bytes alone, the function of residues that it
holds, and an array that refuses what it does not have answer every sequence of accesses alike and
end alike. -/
theorem run_mirrored (hbits : ram.bits ≤ 24) (cs : List Command) :
    ∃ (replies : List Reply) (last : Ram) (m m' : Residues ram.bits),
      Command.run Bus.obey ram cs = (replies, last) ∧
      Command.run Bus.obey (Bytewise.mk ram) cs = (replies, ⟨last⟩) ∧
      ram.Holds m ∧ Command.run Residues.obey m cs = (replies, m') ∧ last.Holds m' ∧
      Command.run? Cells.obey? ram.cells cs = some (replies, last.cells) := by
  obtain ⟨m, hm⟩ := ram.exists_holds
  obtain ⟨hreplies, hlast⟩ := hm.run hbits cs
  refine ⟨_, _, m, _, rfl, run_bytewise hbits cs, hm, Prod.ext hreplies rfl, hlast,
    run?_cells hbits cs⟩

/-- Two words stored across the end of a memory of two bytes, at addresses that wrap. -/
theorem run_mirrored_overlapping :
    let cs : List Command :=
      [.writeWord 0xFFFFFFFF 0x1234, .writeWord 2 0x5678, .writeByte 0x1000001 0x9A, .readWord 3]
    let ram := Ram.zeroed 1 (by decide)
    ∃ (last : Ram) (m m' : Residues 1),
      Command.run Bus.obey ram cs = ([.stored, .stored, .stored, .word 0x9A56], last) ∧
      Command.run Bus.obey (Bytewise.mk ram) cs =
        ([.stored, .stored, .stored, .word 0x9A56], ⟨last⟩) ∧
      ram.Holds m ∧
      Command.run Residues.obey m cs = ([.stored, .stored, .stored, .word 0x9A56], m') ∧
      last.Holds m' ∧
      Command.run? Cells.obey? ram.cells cs =
        some ([.stored, .stored, .stored, .word 0x9A56], last.cells) := by
  intro cs ram
  have hbits : ram.bits ≤ 24 := by decide
  obtain ⟨replies, last, m, m', hram, hbytes, hm, hresidues, hlast, hcells⟩ :=
    run_mirrored hbits cs
  have hreplies : (Command.run Bus.obey ram cs).1 = [.stored, .stored, .stored, .word 0x9A56] := by
    decide
  rw [hram] at hreplies
  subst hreplies
  exact ⟨last, m, m', hram, hbytes, hm, hresidues, hlast, hcells⟩

end Ram

end Compare68k
