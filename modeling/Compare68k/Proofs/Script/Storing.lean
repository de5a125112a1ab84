import Compare68k.Proofs.Bus.Mirror
import Compare68k.Script.Run
/-!
# Words in a row

Words are stored in a row as their bytes or one word at a time.  In a memory that repeats, the row
may run over the end of the memory, over the end of the addresses and over itself.  Main statement:
a statement that stores bytes leaves the memory as the words one after another would; words that fit
in the memory can be read back, and no byte beside them changes.
-/

namespace Compare68k

open Script (bytesOf)

/-! ## Addresses some words along -/

theorem Address.add_words (a : Address) (j k : Nat) :
    a + 2 * UInt32.ofNat j + 2 * UInt32.ofNat k = a + 2 * UInt32.ofNat (j + k) := by
  rw [UInt32.ofNat_add, UInt32.mul_add, ← UInt32.add_assoc]

theorem Address.words_eq_bytes (a : Address) (k : Nat) :
    a + 2 * UInt32.ofNat k = a + UInt32.ofNat (2 * k) := by
  rw [UInt32.ofNat_mul]
  rfl

/-! ## The bytes of words -/

namespace Word

theorem toNat_ofBytes (high low : UInt8) :
    (ofBytes high low).toNat = 256 * high.toNat + low.toNat := by
  have hhigh : high.toNat <<< 8 % 65536 = 256 * high.toNat := by
    have hlt := high.toNat_lt
    rw [Nat.shiftLeft_eq]
    omega
  calc (ofBytes high low).toNat
    _ = high.toNat <<< 8 % 65536 ||| low.toNat := by simp [ofBytes]
    _ = high.toNat <<< 8 ||| low.toNat := by rw [hhigh, Nat.shiftLeft_eq, Nat.mul_comm]
    _ = 256 * high.toNat + low.toNat := by
      rw [← Nat.shiftLeft_add_eq_or_of_lt low.toNat_lt, Nat.shiftLeft_eq, Nat.mul_comm]

theorem ofBytes_highByte_lowByte (w : UInt16) : ofBytes (highByte w) (lowByte w) = w := by
  have hhigh : (highByte w).toNat = w.toNat / 256 := by
    have hlt := w.toNat_lt
    show w.toNat >>> 8 % 256 = w.toNat / 256
    rw [Nat.shiftRight_eq_div_pow]
    omega
  have hlow : (lowByte w).toNat = w.toNat % 256 := rfl
  apply UInt16.toNat_inj.mp
  rw [toNat_ofBytes, hhigh, hlow, Nat.div_add_mod]

end Word

namespace Script

theorem length_bytesOf (words : List UInt16) : (bytesOf words).length = 2 * words.length := by
  induction words with
  | nil => rfl
  | cons w words ih =>
    have hcons : (bytesOf (w :: words)).length = (bytesOf words).length + 2 := rfl
    rw [hcons, ih, List.length_cons]
    omega

theorem getElem?_bytesOf (words : List UInt16) (i : Nat) :
    (bytesOf words)[2 * i]? = words[i]?.map Word.highByte ∧
      (bytesOf words)[2 * i + 1]? = words[i]?.map Word.lowByte := by
  induction words generalizing i with
  | nil => exact ⟨rfl, rfl⟩
  | cons w words ih =>
    cases i with
    | zero => exact ⟨rfl, rfl⟩
    | succ i => exact ih i

end Script

/-! ## Storing in a row -/

namespace Bus

variable {β : Type} [Bus β]

theorem writeWords_eq_foldl (bus : β) (a : Address) (k : Nat) (words : List UInt16) :
    writeWords bus (a + 2 * UInt32.ofNat k) words =
      (words.zipIdx k).foldl
        (fun bus entry => Bus.writeWord bus (a + 2 * UInt32.ofNat entry.2) entry.1) bus := by
  induction words generalizing bus k with
  | nil => rfl
  | cons w words ih =>
    have hnext : a + 2 * UInt32.ofNat k + 2 = a + 2 * UInt32.ofNat (k + 1) :=
      Address.add_words a k 1
    rw [writeWords, hnext, ih]
    rfl

end Bus

namespace Residues

variable {bits n k : Nat} {m : Residues bits} {bytes : List UInt8}

/-- Changes the bytes from one residue on, one after another. -/
def putBytes (m : Residues bits) (n : Nat) : List UInt8 → Residues bits
  | [] => m
  | b :: bytes => (m.put n b).putBytes (n + 1) bytes

theorem residue_add_ne (hpos : 0 < k) (hlt : k < 2 ^ bits) :
    residue bits (n + k) ≠ residue bits n := by
  intro h
  have hmod : n + k ≡ n + 0 [MOD 2 ^ bits] := congrArg Fin.val h
  have hzero : k % 2 ^ bits = 0 % 2 ^ bits := Nat.ModEq.add_left_cancel' n hmod
  rw [Nat.mod_eq_of_lt hlt, Nat.zero_mod] at hzero
  omega

theorem residue_toNat_add (hbits : bits ≤ 32) (a : Address) (k : Nat) :
    residue bits (a + UInt32.ofNat k).toNat = residue bits (a.toNat + k) := by
  have hdvd : 2 ^ bits ∣ 2 ^ 32 := Nat.pow_dvd_pow 2 hbits
  apply Fin.ext
  show (a + UInt32.ofNat k).toNat % 2 ^ bits = (a.toNat + k) % 2 ^ bits
  rw [UInt32.toNat_add, UInt32.toNat_ofNat', Nat.add_mod_mod, Nat.mod_mod_of_dvd _ hdvd]

theorem putBytes_of_ne {i : Fin (2 ^ bits)}
    (h : ∀ k < bytes.length, residue bits (n + k) ≠ i) : m.putBytes n bytes i = m i := by
  induction bytes generalizing m n with
  | nil => rfl
  | cons b bytes ih =>
    have hfirst : i ≠ residue bits n := (h 0 (Nat.succ_pos _)).symm
    rw [putBytes, ih, put, Function.update_of_ne hfirst]
    intro k hk
    rw [Nat.add_assoc, Nat.add_comm 1]
    exact h (k + 1) (Nat.succ_lt_succ hk)

theorem cell_putBytes (hfit : bytes.length ≤ 2 ^ bits) {b : UInt8} (hk : bytes[k]? = some b) :
    (m.putBytes n bytes).cell (n + k) = b := by
  induction bytes generalizing m n k with
  | nil => cases hk
  | cons c bytes ih =>
    rw [List.length_cons] at hfit
    cases k with
    | zero =>
      -- none of the later bytes comes round to the first
      have hlater : ∀ j < bytes.length, residue bits (n + 1 + j) ≠ residue bits n := by
        intro j hj
        rw [Nat.add_assoc]
        exact residue_add_ne (by omega) (by omega)
      cases hk
      calc (m.putBytes n (b :: bytes)).cell (n + 0)
        _ = (m.put n b).putBytes (n + 1) bytes (residue bits n) := rfl
        _ = m.put n b (residue bits n) := putBytes_of_ne hlater
        _ = b := Function.update_self _ _ _
    | succ k =>
      rw [putBytes, Nat.add_comm k, ← Nat.add_assoc]
      exact ih (by omega) hk

end Residues

namespace Ram

variable {ram : Ram} {bits : Nat} {m : Residues bits} {words : List UInt16}

theorem Holds.peekByte (h : ram.Holds m) (hbits : bits ≤ 24) (a : Address) :
    Bus.peekByte ram a = m.cell a.toNat :=
  h.get (h.index hbits a)

theorem Holds.writeBytes (h : ram.Holds m) (hbits : bits ≤ 24) {a : Address} {n : Nat}
    (hn : Residues.residue bits a.toNat = Residues.residue bits n) (bytes : List UInt8) :
    (Bus.writeBytes ram a bytes).Holds (m.putBytes n bytes) := by
  induction bytes generalizing ram m a n with
  | nil => exact h
  | cons b bytes ih =>
    have hindex : (ram.index a).val = n % 2 ^ bits :=
      (h.index hbits a).trans (congrArg Fin.val hn)
    have hnext : Residues.residue bits (a + 1).toNat = Residues.residue bits (n + 1) := by
      have hone := Residues.residue_toNat_add (show bits ≤ 32 by omega) a 1
      apply hone.trans
      apply Fin.ext
      exact Nat.ModEq.add_right 1 (congrArg Fin.val hn)
    exact ih (h.set hindex b) hnext

/-- Storing the bytes of words stores the words. -/
theorem writeBytes_bytesOf (hbits : ram.bits ≤ 24) (a : Address) (words : List UInt16) :
    Bus.writeBytes ram a (bytesOf words) = Bus.writeWords ram a words := by
  induction words generalizing ram a with
  | nil => rfl
  | cons w words ih =>
    have hword : (Bus.writeWord ram a w).bits ≤ 24 :=
      (bits_obey (.writeWord a w)).trans_le hbits
    calc Bus.writeBytes ram a (bytesOf (w :: words))
      _ = Bus.writeBytes (Bus.writeByte (Bus.writeByte ram a (Word.highByte w)) (a + 1)
            (Word.lowByte w)) (a + 1 + 1) (bytesOf words) := rfl
      _ = Bus.writeBytes (Bus.writeWord ram a w) (a + 2) (bytesOf words) := by
        rw [← setWord_eq hbits, UInt32.add_assoc]
        rfl
      _ = Bus.writeWords ram a (w :: words) := ih hword (a + 2)

theorem Holds.writeWords (h : ram.Holds m) (hbits : bits ≤ 24) (a : Address)
    (words : List UInt16) :
    (Bus.writeWords ram a words).Holds (m.putBytes a.toNat (bytesOf words)) := by
  rw [← writeBytes_bytesOf (h.bits_eq ▸ hbits)]
  exact h.writeBytes hbits rfl (bytesOf words)

theorem peekWord_writeWords (hbits : ram.bits ≤ 24) (hfit : 2 * words.length ≤ 2 ^ ram.bits)
    (a : Address) {i : Nat} {w : UInt16} (hi : words[i]? = some w) :
    Bus.peekWord (Bus.writeWords ram a words) (a + 2 * UInt32.ofNat i) = w := by
  obtain ⟨m, hm⟩ := ram.exists_holds
  have hstored := hm.writeWords hbits a words
  obtain ⟨hhigh, hlow⟩ := Script.getElem?_bytesOf words i
  rw [hi] at hhigh hlow
  rw [← Script.length_bytesOf] at hfit
  have hresidue := Residues.residue_toNat_add (show ram.bits ≤ 32 by omega) a (2 * i)
  have hnext : Residues.residue ram.bits ((a + UInt32.ofNat (2 * i)).toNat + 1) =
      Residues.residue ram.bits (a.toNat + (2 * i + 1)) :=
    Fin.ext (Nat.ModEq.add_right 1 (congrArg Fin.val hresidue))
  have hfirst : (m.putBytes a.toNat (bytesOf words)).cell (a + UInt32.ofNat (2 * i)).toNat =
      Word.highByte w :=
    (congrArg _ hresidue).trans (Residues.cell_putBytes hfit hhigh)
  have hsecond : (m.putBytes a.toNat (bytesOf words)).cell
      ((a + UInt32.ofNat (2 * i)).toNat + 1) = Word.lowByte w :=
    (congrArg _ hnext).trans (Residues.cell_putBytes hfit hlow)
  rw [Address.words_eq_bytes]
  calc Bus.peekWord (Bus.writeWords ram a words) (a + UInt32.ofNat (2 * i))
    _ = Word.ofBytes (Word.highByte w) (Word.lowByte w) := by
      rw [← hfirst, ← hsecond]
      exact hstored.word hbits _
    _ = w := Word.ofBytes_highByte_lowByte w

theorem peekByte_writeWords (hbits : ram.bits ≤ 24) {a b : Address}
    (h : ∀ k < 2 * words.length, b.toNat % 2 ^ ram.bits ≠ (a.toNat + k) % 2 ^ ram.bits) :
    Bus.peekByte (Bus.writeWords ram a words) b = Bus.peekByte ram b := by
  obtain ⟨m, hm⟩ := ram.exists_holds
  rw [(hm.writeWords hbits a words).peekByte hbits, hm.peekByte hbits]
  apply Residues.putBytes_of_ne
  intro k hk heq
  rw [Script.length_bytesOf] at hk
  exact h k hk (congrArg Fin.val heq).symm

theorem peekByte_writeWords_behind (hbits : ram.bits ≤ 24) (a : Address) {k : Nat}
    (hle : 2 * words.length ≤ k) (hlt : k < 2 ^ ram.bits) :
    Bus.peekByte (Bus.writeWords ram a words) (a + UInt32.ofNat k) =
      Bus.peekByte ram (a + UInt32.ofNat k) := by
  apply peekByte_writeWords hbits
  intro j hj heq
  have hresidue := Residues.residue_toNat_add (show ram.bits ≤ 32 by omega) a k
  have hsame : Residues.residue ram.bits (a.toNat + j + (k - j)) =
      Residues.residue ram.bits (a.toNat + j) := by
    rw [Nat.add_assoc, Nat.add_sub_cancel' (by omega), ← hresidue]
    exact Fin.ext heq
  exact Residues.residue_add_ne (by omega) (by omega) hsame

theorem bits_writeWords (hbits : ram.bits ≤ 24) (a : Address) (words : List UInt16) :
    (Bus.writeWords ram a words).bits = ram.bits := by
  obtain ⟨m, hm⟩ := ram.exists_holds
  exact (hm.writeWords hbits a words).bits_eq

/-! ## A clear memory -/

theorem data_zeros (k : Nat) : (zeros k).data = Array.replicate (2 ^ k) 0 := by
  induction k with
  | zero => rfl
  | succ k ih =>
    rw [zeros, ByteArray.data_append, ih, Array.replicate_append_replicate, Nat.pow_succ,
      Nat.mul_two]

theorem peekByte_zeroed (h : 1 ≤ bits) (a : Address) : Bus.peekByte (zeroed bits h) a = 0 := by
  have hlt : ((zeroed bits h).index a).val < 2 ^ bits := by
    have hsize := (zeroed bits h).size_eq_two_pow
    exact hsize ▸ ((zeroed bits h).index a).isLt
  have hcell := getElem?_cells (zeroed bits h) ((zeroed bits h).index a)
  have hcells : (zeroed bits h).cells = Array.replicate (2 ^ bits) 0 := data_zeros bits
  rw [hcells, Array.getElem?_replicate, if_pos hlt] at hcell
  exact (Option.some.inj hcell).symm

end Ram

/-! ## Statements that store words -/

namespace Script.Run

/-- A statement that stores words does to the memory what storing the words one after another does,
and nothing to the processor.  Words that fit in the memory can be read back, and a byte whose
residue is not among theirs stays as it is. -/
theorem statements_poke {s : Statement} {a : Address} {words : List UInt16} {r : Run Ram}
    (hs : s.action = .poke a words) (hbits : r.bus.bits ≤ 24) :
    ∃ r', statements [s] r = .ok r' ∧
      r'.processor = r.processor ∧ r'.stopped = r.stopped ∧ r'.reports = r.reports ∧
      r'.bus = words.zipIdx.foldl
        (fun ram entry => Bus.writeWord ram (a + 2 * UInt32.ofNat entry.2) entry.1) r.bus ∧
      (2 * words.length ≤ 2 ^ r.bus.bits → ∀ i w, words[i]? = some w →
        Bus.peekWord r'.bus (a + 2 * UInt32.ofNat i) = w) ∧
      ∀ b : Address,
        (∀ k < 2 * words.length,
          b.toNat % 2 ^ r.bus.bits ≠ (a.toNat + k) % 2 ^ r.bus.bits) →
        Bus.peekByte r'.bus b = Bus.peekByte r.bus b := by
  have hact : r.act s.action = .ok (r.poke a words) := by
    rw [hs]
    rfl
  have hbus : (r.poke a words).bus = Bus.writeWords r.bus a words :=
    Ram.writeBytes_bytesOf hbits a words
  refine ⟨r.poke a words, ?_, rfl, rfl, ?_, ?_, ?_, ?_⟩
  · show (r.act s.action >>= fun r => if r.stopped.isSome then pure r else .ok r) = _
    rw [hact]
    show (if r.stopped.isSome then Except.ok (r.poke a words) else .ok (r.poke a words)) = _
    rw [ite_self]
  · have hjournal : (r.poke a words).journal = r.journal.push (.poked a words.length) := rfl
    rw [reports, reports, hjournal, Array.toList_push, List.filterMap_append]
    exact List.append_nil _
  · have hfirst : a + 2 * UInt32.ofNat 0 = a := UInt32.add_zero a
    rw [hbus, ← Bus.writeWords_eq_foldl r.bus a 0 words, hfirst]
  · intro hfit i w hi
    rw [hbus]
    exact Ram.peekWord_writeWords hbits hfit a hi
  · intro b hb
    rw [hbus]
    exact Ram.peekByte_writeWords hbits hb

/-- Three words from an odd address on, the second of them across the end of a memory of eight bytes
and of the addresses. -/
theorem statements_poke_wrapping :
    let s : Statement := ⟨.point 0, .poke 0xFFFFFFFD [0x1234, 0x5678, 0x9ABC]⟩
    let r : Run Ram := { processor := .ofTable .standard, bus := .zeroed 3 (by decide) }
    r.bus.bits ≤ 24 ∧ ∃ r', statements [s] r = .ok r' ∧ r'.processor = r.processor ∧
      Bus.peekWord r'.bus 0xFFFFFFFF = 0x5678 ∧ Bus.peekByte r'.bus 0x1003 = 0 := by
  intro s r
  have hbits : r.bus.bits ≤ 24 := by decide
  obtain ⟨r', hrun, hprocessor, -, -, -, hread, hframe⟩ := statements_poke (s := s) rfl hbits
  refine ⟨hbits, r', hrun, hprocessor, hread (by decide) 1 0x5678 rfl, ?_⟩
  exact (hframe 0x1003 (by decide)).trans (Ram.peekByte_zeroed (by decide) 0x1003)

end Script.Run

end Compare68k
