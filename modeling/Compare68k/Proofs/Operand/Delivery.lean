import Compare68k.Proofs.Denotation
import Compare68k.Proofs.Operand.Pattern
import Compare68k.Proofs.Operand.Resolve
import Compare68k.Proofs.Width
/-!
# What a resolution delivers

On any bus, a resolution that runs without interference takes its extension words, reads the operand
at the address that they and the registers give, and leaves the registers as the mode says.  The
modes fall into groups by the extension words they take before the operand's address is known; from
there on all of them read the operand in the same way.  On a RAM of at most `2 ^ 24` bytes the
operand is what its mode denotes.
-/

namespace Compare68k

namespace Registers

theorem position_and_seven (w : UInt16) : position (w &&& 7).toUInt8 = position w.toUInt8 := by
  apply Fin.ext
  have hseven : (7 : UInt16).toNat = 2 ^ 3 - 1 := rfl
  simp only [position, UInt16.toNat_toUInt8, UInt16.toNat_and, hseven,
    Nat.and_two_pow_sub_one_eq_mod]
  omega

theorem get_data_and_seven (regs : Registers) (w : UInt16) :
    regs.get (.data (w &&& 7).toUInt8) = regs.get (.data w.toUInt8) := by
  simp only [get, position_and_seven]

theorem get_address_and_seven (regs : Registers) (w : UInt16) :
    regs.get (.address (w &&& 7).toUInt8) = regs.get (.address w.toUInt8) := by
  simp only [get, position_and_seven]

/-- A brief extension word names its index register by three bits, with the register file in the
fourth. -/
theorem briefOffset_eq_indexed (regs : Registers) (words : Nat) (ext : UInt16) :
    (regs.skip words).briefOffset ext = regs.indexed ext := by
  have hnumber : (Index.ofExtension ext).number = ((ext >>> 12) &&& 7).toUInt8 := rfl
  have hlong : (Index.ofExtension ext).isLong = (ext &&& 0x0800 != 0) := rfl
  rw [indexed, briefDisplacement, ← Word.signExtendByte_eq_ofInt, UInt32.add_comm]
  by_cases haddress : (ext &&& 0x8000 != 0) = true
  · have hindex : (Index.ofExtension ext).isAddress = true := haddress
    simp only [briefOffset, indexValue, if_pos haddress, if_pos hindex, hnumber, hlong,
      get_address_and_seven, get_address_skip, Word.signed, Word.signExtend_eq_ofInt]
  · have hindex : ¬ (Index.ofExtension ext).isAddress = true := haddress
    simp only [briefOffset, indexValue, if_neg haddress, if_neg hindex, hnumber, hlong,
      get_data_and_seven, get_data_skip, Word.signed, Word.signExtend_eq_ofInt]

end Registers

namespace Bus

variable {β : Type} [Bus β]

def words (bus : β) (a : Address) : Nat → List UInt16 × β
  | 0 => ([], bus)
  | n + 1 =>
    let first := readWord bus a
    let others := words first.2 (a + 2) n
    (first.1 :: others.1, others.2)

def operand (bus : β) (size : Size) (a : Address) : UInt32 × β :=
  match size with
  | .byte =>
    let byte := readByte bus a
    (byte.1.toUInt32, byte.2)
  | .word =>
    let word := readWord bus a
    (word.1.toUInt32, word.2)
  | .long =>
    let high := readWord bus a
    let low := readWord high.2 (a + 2)
    (Word.long high.1 low.1, low.2)

theorem operand_lt (bus : β) (size : Size) (a : Address) :
    (operand bus size a).1.toNat < 2 ^ size.bitWidth := by
  cases size with
  | byte => exact (readByte bus a).1.toNat_lt
  | word => exact (readWord bus a).1.toNat_lt
  | long => exact (operand bus .long a).1.toNat_lt

end Bus

namespace Mode

/-- Where the operand of a mode stands in memory, with the program counter at its extension words.
Registers and constants stand nowhere in memory; no activity asks for their address. -/
def address (m : Mode) (size : Size) (words : List UInt16) (regs : Registers) : Address :=
  let ext := words.headD 0
  match m with
  | indirect n | postInc n => regs.get (.address n)
  | preDec n => regs.get (.address n) - size.step n
  | disp n => regs.get (.address n) + Word.signed ext
  | index n => regs.get (.address n) + regs.indexed ext
  | absShort => Word.signed ext
  | absLong => Word.long ext (words.tail.headD 0)
  | pcDisp => regs.pc + Word.signed ext
  | pcIndex => regs.pc + regs.indexed ext
  | dataReg _ | addrReg _ | immediate => 0

def constant (size : Size) (words : List UInt16) : UInt32 :=
  match size with
  | .byte | .word => (words.headD 0).toUInt32
  | .long => Word.long (words.headD 0) (words.tail.headD 0)

def read {β : Type} [Bus β] (m : Mode) (size : Size) (regs : Registers) (bus : β) : UInt32 × β :=
  let taken := Bus.words bus regs.pc (m.extensionWords size)
  match m with
  | dataReg n => (regs.get (.data n) &&& size.mask, taken.2)
  | addrReg n => (regs.get (.address n) &&& size.mask, taken.2)
  | immediate => (constant size taken.1 &&& size.mask, taken.2)
  | _ => Bus.operand taken.2 size (m.address size taken.1 regs)

end Mode

namespace Resolution

variable {β : Type} [Bus β] {r : Resolution} {regs : Registers} {bus : β}

def take (r : Resolution) (a : Address) (w : UInt16) : Resolution :=
  { r with words := r.words ++ [w], base := if r.words.isEmpty then a else r.base }

def latch (r : Resolution) (a : Address) (v : UInt32) : Resolution :=
  { r with address := some a, value := v }

theorem gather_prefetch (r : Resolution) (regs : Registers) (bus : β) (cs : List Cycle) :
    r.gather regs bus (.prefetch :: cs) =
      ((r.take regs.pc (Bus.readWord bus regs.pc).1).next .prefetch cs).gather (regs.skip 1)
        (Bus.readWord bus regs.pc).2 cs := rfl

theorem perform_idle (h : ∀ n, r.mode ≠ .preDec n) (regs : Registers) (bus : β) :
    r.perform .idle regs bus = .ok (r, regs, bus) := by
  unfold perform
  dsimp only
  split
  · rename_i n hmode
    exact absurd hmode (h n)
  · rfl

theorem gather_idle (h : ∀ n, r.mode ≠ .preDec n) (regs : Registers) (bus : β) (cs : List Cycle) :
    r.gather regs bus (.idle :: cs) = (r.next .idle cs).gather regs bus cs := by
  rw [gather, perform_idle h]
  rfl

theorem finish_of_memory
    (h : r.mode.category = .memory ∨ r.mode.category = .pcRelative) (regs : Registers) :
    r.finish regs = .ok (r.value &&& r.size.mask) := by
  unfold finish
  cases hmode : r.mode with
  | dataReg n | addrReg n | immediate =>
    rw [hmode] at h
    rcases h with h | h <;> cases h
  | _ => rfl

def lastRead (r : Resolution) (bus : β) (a : Address) : UInt32 × β :=
  match r.size with
  | .byte => ((Bus.readByte bus a).1.toUInt32, (Bus.readByte bus a).2)
  | .word => ((Bus.readWord bus a).1.toUInt32, (Bus.readWord bus a).2)
  | .long =>
    (r.value ||| (Bus.readWord bus (a + 2)).1.toUInt32, (Bus.readWord bus (a + 2)).2)

theorem perform_read {a : Address} (ha : r.effectiveAddress regs = .ok a) (bus : β) :
    r.perform .read regs bus =
      .ok (r.latch a (r.lastRead bus a).1, regs, (r.lastRead bus a).2) := by
  obtain ⟨mode, size, pending, wait, started, words, base, address, value⟩ := r
  simp only [perform, ha]
  cases size <;> rfl

theorem perform_readHigh {a : Address} (ha : r.effectiveAddress regs = .ok a) (bus : β) :
    r.perform .readHigh regs bus =
      .ok (r.latch a (Word.long (Bus.readWord bus a).1 0), regs, (Bus.readWord bus a).2) := by
  simp only [perform, ha]
  rfl

/-- The last read brings an operand in that fits its size. -/
theorem gather_read {a : Address} (ha : r.effectiveAddress regs = .ok a)
    (h : r.mode.category = .memory ∨ r.mode.category = .pcRelative) (bus : β)
    (hlt : (r.lastRead bus a).1.toNat < 2 ^ r.size.bitWidth) :
    r.gather regs bus [.read] = .ok ((r.lastRead bus a).1, regs, (r.lastRead bus a).2) := by
  have hfinish : ((r.latch a (r.lastRead bus a).1).next .read []).finish regs =
      .ok ((r.lastRead bus a).1 &&& r.size.mask) :=
    finish_of_memory (r := (r.latch a _).next .read []) h regs
  rw [Size.and_mask_of_lt hlt] at hfinish
  rw [gather, perform_read ha]
  show gather ((r.latch a _).next .read []) regs _ [] = _
  rw [gather, hfinish]
  rfl

theorem gather_fetch {a : Address} (ha : r.effectiveAddress regs = .ok a)
    (h : r.mode.category = .memory ∨ r.mode.category = .pcRelative) (bus : β) :
    r.gather regs bus (Mode.fetch r.size) =
      .ok ((Bus.operand bus r.size a).1, regs, (Bus.operand bus r.size a).2) := by
  have hlt := Bus.operand_lt bus r.size a
  cases hsize : r.size with
  | byte | word =>
    have hlast : r.lastRead bus a = Bus.operand bus r.size a := by
      rw [lastRead, hsize]
      rfl
    rw [← hlast] at hlt
    have hread := gather_read ha h bus hlt
    rw [hlast, hsize] at hread
    exact hread
  | long =>
    let r' := (r.latch a (Word.long (Bus.readWord bus a).1 0)).next .readHigh [.read]
    have haddress : r'.effectiveAddress regs = .ok a := rfl
    have hlast : r'.lastRead (Bus.readWord bus a).2 a = Bus.operand bus r.size a := by
      rw [lastRead, show r'.size = .long from hsize, hsize]
      exact congrArg (Prod.mk · _) (Word.long_zero_or _ _)
    rw [← hlast] at hlt
    have hread := gather_read haddress h (Bus.readWord bus a).2 hlt
    rw [hlast, hsize] at hread
    rw [Mode.fetch, gather, perform_readHigh ha]
    exact hread

/-! ## Modes by the extension words they take -/

variable {m : Mode} {size : Size}

def begun (m : Mode) (size : Size) : Resolution :=
  { ofMode m size with started := true }

theorem prepare_indirect {n : UInt8} (hn : n < 8) (size : Size) (regs : Registers) :
    (ofMode (.indirect n) size).prepare regs =
      .ok ({ begun (.indirect n) size with address := some (regs.get (.address n)) }, regs) := by
  simp only [prepare, start, ofMode, regs.address?_of_lt hn]
  rfl

theorem prepare_postInc {n : UInt8} (hn : n < 8) (size : Size) (regs : Registers) :
    (ofMode (.postInc n) size).prepare regs =
      .ok ({ begun (.postInc n) size with address := some (regs.get (.address n)) },
        (Mode.postInc n).moved size regs) := by
  simp only [prepare, start, ofMode, regs.address?_of_lt hn]
  rfl

theorem perform_preDec {n : UInt8} (hn : n < 8) (size : Size) (regs : Registers) (bus : β) :
    (begun (.preDec n) size).perform .idle regs bus =
      .ok ({ begun (.preDec n) size with
          address := some (regs.get (.address n) - size.step n) },
        (Mode.preDec n).moved size regs, bus) := by
  simp only [perform, begun, ofMode, regs.address?_of_lt hn]
  rfl

theorem finish_dataReg {n : UInt8} (hn : n < 8) (size : Size) (regs : Registers) :
    (begun (.dataReg n) size).finish regs = .ok (regs.get (.data n) &&& size.mask) := by
  simp only [finish, begun, ofMode, regs.data?_of_lt hn]
  rfl

theorem finish_addrReg {n : UInt8} (hn : n < 8) (size : Size) (regs : Registers) :
    (begun (.addrReg n) size).finish regs = .ok (regs.get (.address n) &&& size.mask) := by
  simp only [finish, begun, ofMode, regs.address?_of_lt hn]
  rfl

theorem prepare_eq_begun (h : ∀ n, m ≠ .indirect n ∧ m ≠ .postInc n) (size : Size)
    (regs : Registers) : (ofMode m size).prepare regs = .ok (begun m size, regs) := by
  unfold prepare start
  rw [if_neg (by simp [ofMode])]
  split
  case h_1 n hmode => exact absurd hmode (h n).1
  case h_2 n hmode => exact absurd hmode (h n).2
  case h_3 => rfl

theorem resolve_eq_begun (h : ∀ n, m ≠ .indirect n ∧ m ≠ .postInc n) (size : Size)
    (regs : Registers) (bus : β) :
    (ofMode m size).resolve regs bus = (begun m size).gather regs bus (m.pattern size) :=
  resolve_of_prepare (prepare_eq_begun h size regs) bus

theorem gather_extended {a : Address} (h : m.category = .memory ∨ m.category = .pcRelative)
    (bus : β)
    (ha : ((begun m size).take regs.pc (Bus.readWord bus regs.pc).1).computeAddress
      (regs.skip 1) = .ok a) :
    (begun m size).gather regs bus (.prefetch :: Mode.fetch size) =
      .ok ((Bus.operand (Bus.readWord bus regs.pc).2 size a).1, regs.skip 1,
        (Bus.operand (Bus.readWord bus regs.pc).2 size a).2) := by
  rw [gather_prefetch]
  exact gather_fetch (r := ((begun m size).take _ _).next .prefetch (Mode.fetch size)) ha h _

theorem gather_indexed {a : Address} (h : m.category = .memory ∨ m.category = .pcRelative)
    (hpreDec : ∀ n, m ≠ .preDec n) (bus : β)
    (ha : ((begun m size).take regs.pc (Bus.readWord bus regs.pc).1).computeAddress
      (regs.skip 1) = .ok a) :
    (begun m size).gather regs bus (.idle :: .prefetch :: Mode.fetch size) =
      .ok ((Bus.operand (Bus.readWord bus regs.pc).2 size a).1, regs.skip 1,
        (Bus.operand (Bus.readWord bus regs.pc).2 size a).2) := by
  rw [gather_idle hpreDec, gather_prefetch]
  exact gather_fetch (r := (((begun m size).next _ _).take _ _).next .prefetch (Mode.fetch size))
    ha h _

/-! ## Every mode -/

theorem resolve_eq_read (h : m.wellFormed = true) (size : Size) (regs : Registers) (bus : β) :
    (ofMode m size).resolve regs bus =
      .ok ((m.read size regs bus).1, m.after size regs, (m.read size regs bus).2) := by
  have hcodes := Mode.codes_lt h
  cases m with
  | dataReg n =>
    have hn : n < 8 := hcodes
    rw [resolve_eq_begun (by simp), Mode.pattern, gather, finish_dataReg hn, Mode.after,
      Mode.extensionWords, Registers.skip_zero]
    rfl
  | addrReg n =>
    have hn : n < 8 := hcodes
    rw [resolve_eq_begun (by simp), Mode.pattern, gather, finish_addrReg hn, Mode.after,
      Mode.extensionWords, Registers.skip_zero]
    rfl
  | indirect n =>
    have hn : n < 8 := hcodes
    rw [resolve_of_prepare (prepare_indirect hn size regs), Mode.after, Mode.extensionWords,
      Registers.skip_zero]
    exact gather_fetch rfl (.inl rfl) bus
  | postInc n =>
    have hn : n < 8 := hcodes
    rw [resolve_of_prepare (prepare_postInc hn size regs), Mode.after, Mode.extensionWords,
      Registers.skip_zero]
    exact gather_fetch rfl (.inl rfl) bus
  | preDec n =>
    have hn : n < 8 := hcodes
    rw [resolve_eq_begun (by simp), Mode.pattern, gather, perform_preDec hn, Mode.after,
      Mode.extensionWords, Registers.skip_zero]
    exact gather_fetch rfl (.inl rfl) bus
  | disp n =>
    have hn : n < 8 := hcodes
    rw [resolve_eq_begun (by simp), Mode.pattern]
    refine gather_extended (.inl rfl) bus ?_
    rw [Mode.address, Word.signed, ← Word.signExtend_eq_ofInt]
    simp only [computeAddress, begun, take, ofMode, Registers.address?_of_lt _ hn]
    rfl
  | index n =>
    have hn : n < 8 := hcodes
    rw [resolve_eq_begun (by simp), Mode.pattern]
    refine gather_indexed (.inl rfl) (by simp) bus ?_
    simp only [computeAddress, begun, take, ofMode, Registers.address?_of_lt _ hn,
      Registers.briefOffset_eq_indexed]
    rfl
  | absShort =>
    rw [resolve_eq_begun (by simp), Mode.pattern]
    refine gather_extended (.inl rfl) bus ?_
    rw [Mode.address, Word.signed, ← Word.signExtend_eq_ofInt]
    rfl
  | absLong =>
    rw [resolve_eq_begun (by simp), Mode.pattern, gather_prefetch, gather_prefetch,
      Registers.skip_skip]
    refine gather_fetch ?_ (.inl rfl) _
    rfl
  | pcDisp =>
    rw [resolve_eq_begun (by simp), Mode.pattern]
    refine gather_extended (.inr rfl) bus ?_
    rw [Mode.address, Word.signed, ← Word.signExtend_eq_ofInt]
    rfl
  | pcIndex =>
    rw [resolve_eq_begun (by simp), Mode.pattern]
    refine gather_indexed (.inr rfl) (by simp) bus ?_
    simp only [computeAddress, begun, take, ofMode, Registers.briefOffset_eq_indexed]
    rfl
  | immediate =>
    rw [resolve_eq_begun (by simp)]
    cases size with
    | byte | word =>
      rw [Mode.pattern, if_neg (by decide), gather_prefetch]
      rfl
    | long =>
      rw [Mode.pattern, if_pos rfl, gather_prefetch, gather_prefetch, Registers.skip_skip]
      rfl

end Resolution

/-! ## On a RAM -/

def Memory.extensions (mem : Memory) (a : Address) : List UInt16 :=
  [mem.word a, mem.word (a + 2)]

theorem Mode.place_eq_address {m : Mode}
    (h : m.category = .memory ∨ m.category = .pcRelative) (size : Size) (mem : Memory)
    (regs : Registers) :
    m.place size mem regs =
      .memory (m.address size ((mem.extensions regs.pc).take (m.extensionWords size)) regs) := by
  cases m with
  | dataReg n | addrReg n | immediate => rcases h with h | h <;> cases h
  | _ => rfl

variable {ram : Ram}

theorem Ram.words_eq (hbits : ram.bits ≤ 24) (a : Address) {n : Nat} (hn : n ≤ 2) :
    Bus.words ram a n = ((ram.memory.extensions a).take n, ram) := by
  match n, hn with
  | 0, _ => rfl
  | 1, _ | 2, _ =>
    simp only [Bus.words, Ram.readWord_eq hbits]
    rfl

theorem Ram.operand_eq (hbits : ram.bits ≤ 24) (size : Size) (a : Address) :
    Bus.operand ram size a = (ram.memory.operand size a, ram) := by
  unfold Bus.operand
  cases size with
  | byte => rfl
  | word | long =>
    simp only [Ram.readWord_eq hbits]
    rfl

theorem Mode.constant_ram (size : Size) (mem : Memory) (regs : Registers) :
    constant size ((mem.extensions regs.pc).take (immediate.extensionWords size)) &&& size.mask =
      immediate.value size mem regs := by
  cases size with
  | byte =>
    show (mem.word regs.pc).toUInt32 &&& Size.byte.mask = _
    rw [Word.toUInt32_and_mask, Memory.word, Word.lowByte_ofBytes]
    rfl
  | word => exact Size.and_mask_of_lt (mem.operand_lt .word regs.pc)
  | long => exact Size.and_mask_of_lt (mem.operand_lt .long regs.pc)

theorem Mode.read_ram (hbits : ram.bits ≤ 24) (m : Mode) (size : Size) (regs : Registers) :
    m.read size regs ram = (m.value size ram.memory regs, ram) := by
  have hwords := Ram.words_eq hbits regs.pc (m.extensionWords_le size)
  unfold Mode.read
  rw [hwords]
  cases m with
  | dataReg n | addrReg n => rfl
  | immediate => exact congrArg (Prod.mk · ram) (constant_ram size ram.memory regs)
  | indirect n | postInc n | preDec n | disp n | index n | absShort | absLong =>
    dsimp only
    rw [Ram.operand_eq hbits, value, place_eq_address (.inl rfl), Place.operand]
  | pcDisp | pcIndex =>
    dsimp only
    rw [Ram.operand_eq hbits, value, place_eq_address (.inr rfl), Place.operand]

/-- On an undisturbed RAM a mode's operand is what the mode denotes. -/
theorem Resolution.resolve_ofMode (hbits : ram.bits ≤ 24) {m : Mode} (h : m.wellFormed = true)
    (size : Size) (regs : Registers) :
    (ofMode m size).resolve regs ram =
      .ok (m.value size ram.memory regs, m.after size regs, ram) := by
  rw [resolve_eq_read h, Mode.read_ram hbits]

end Compare68k
