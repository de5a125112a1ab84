import Compare68k.Cli.Run
import Compare68k.Proofs.Listing.Words
import Compare68k.Proofs.Script.Storing
import Mathlib.Algebra.Order.BigOperators.Group.List
import Mathlib.Algebra.Order.Group.Nat
import Mathlib.Data.List.Chain
/-!
# What a listing covers

Words are listed by storing them in a clear memory and going through it line by line, counting the
words that are left.  Main statement: the lines are those of a loop that goes by addresses alone,
which wrap; each of the words belongs to exactly one line, and a line is made from the words at its
address and behind, as if zero words followed the last one.
-/

namespace Compare68k

/-! ## The words of a line -/

def Line.words (l : Line) : Nat :=
  l.size.toNat / 2

theorem Instruction.address_line (i : Instruction) (peek : Peek) (a : Address) :
    (i.line peek a).address = a := by
  rw [line]
  simp only [Cursor.close, Mode.cursor_operand]

namespace Table

variable (t : Table) (peek : Peek) (a : Address)

theorem address_disassemble : (t.disassemble peek a).address = a := by
  unfold disassemble
  cases t.lookup (peek a) with
  | none => rfl
  | some i => exact i.address_line peek a

theorem toNat_size_disassemble :
    ∃ extra ≤ 4, (t.disassemble peek a).size.toNat = 2 * (extra + 1) := by
  unfold disassemble
  cases t.lookup (peek a) with
  | none => exact ⟨0, by omega, rfl⟩
  | some i =>
    have hsource := i.source.extensionWords_le i.size
    have hdestination := i.destination.extensionWords_le i.size
    exact ⟨_, by omega, i.toNat_size_line peek a⟩

theorem toNat_size_eq : (t.disassemble peek a).size.toNat = 2 * (t.disassemble peek a).words := by
  obtain ⟨extra, -, hsize⟩ := t.toNat_size_disassemble peek a
  rw [Line.words, hsize]
  omega

theorem words_pos : 0 < (t.disassemble peek a).words := by
  obtain ⟨extra, -, hsize⟩ := t.toNat_size_disassemble peek a
  rw [Line.words, hsize]
  omega

theorem words_le : (t.disassemble peek a).words ≤ 5 := by
  obtain ⟨extra, hextra, hsize⟩ := t.toNat_size_disassemble peek a
  rw [Line.words, hsize]
  omega

theorem next_disassemble :
    (t.disassemble peek a).next = a + 2 * UInt32.ofNat (t.disassemble peek a).words := by
  have hfew := t.words_le peek a
  have hsize : (t.disassemble peek a).size = UInt32.ofNat (2 * (t.disassemble peek a).words) := by
    apply UInt32.toNat_inj.mp
    rw [t.toNat_size_eq, UInt32.toNat_ofNat']
    omega
  rw [Line.next, address_disassemble, hsize, Address.words_eq_bytes]

end Table

namespace Cli

/-! ## Counting words -/

section

variable {t : Table} {peek : Peek} {a : Address} {n : Nat}

def wordsBefore (ls : List Line) (i : Nat) : Nat :=
  ((ls.take i).map Line.words).sum

@[simp] theorem wordsBefore_zero (ls : List Line) : wordsBefore ls 0 = 0 := rfl

@[simp] theorem wordsBefore_cons (l : Line) (ls : List Line) (i : Nat) :
    wordsBefore (l :: ls) (i + 1) = l.words + wordsBefore ls i := rfl

theorem sweep_zero : sweep t peek a 0 = [] := by
  rw [sweep]

theorem sweep_of_pos (hn : 0 < n) :
    sweep t peek a n = t.disassemble peek a ::
      sweep t peek (t.disassemble peek a).next (n - (t.disassemble peek a).words) := by
  obtain ⟨extra, -, hsize⟩ := t.toNat_size_disassemble peek a
  obtain ⟨k, rfl⟩ : ∃ k, n = k + 1 := ⟨n - 1, by omega⟩
  have hleft : k - ((t.disassemble peek a).size.toNat - 2) / 2 =
      k + 1 - (t.disassemble peek a).words := by
    rw [Line.words, hsize]
    omega
  rw [sweep, hleft]

theorem sweep_eq_nil_iff : sweep t peek a n = [] ↔ n = 0 := by
  constructor
  · intro h
    by_contra hn
    rw [sweep_of_pos (Nat.pos_of_ne_zero hn)] at h
    cases h
  · rintro rfl
    exact sweep_zero

/-- Induction along the lines, by the words that are left in front of each. -/
theorem sweep_induction (t : Table) (peek : Peek) {motive : Address → Nat → Prop}
    (done : ∀ a, motive a 0)
    (line : ∀ a n, 0 < n →
      motive (t.disassemble peek a).next (n - (t.disassemble peek a).words) → motive a n)
    (a : Address) (n : Nat) : motive a n := by
  induction n using Nat.strongRecOn generalizing a with
  | ind n ih =>
    by_cases hn : 0 < n
    · have hwords := t.words_pos peek a
      exact line a n hn (ih _ (by omega) _)
    · obtain rfl : n = 0 := by omega
      exact done a

theorem length_sweep_le : (sweep t peek a n).length ≤ n := by
  induction a, n using sweep_induction t peek with
  | done a =>
    rw [sweep_zero]
    exact Nat.le_refl 0
  | line a n hn ih =>
    have hwords := t.words_pos peek a
    rw [sweep_of_pos hn, List.length_cons]
    omega

theorem le_words_sweep : n ≤ ((sweep t peek a n).map Line.words).sum := by
  induction a, n using sweep_induction t peek with
  | done a => exact Nat.zero_le _
  | line a n hn ih =>
    rw [sweep_of_pos hn, List.map_cons, List.sum_cons]
    omega

theorem address_of_head? : ∀ l ∈ (sweep t peek a n).head?, l.address = a := by
  intro l hl
  by_cases hn : 0 < n
  · rw [sweep_of_pos hn] at hl
    cases hl
    exact t.address_disassemble peek a
  · obtain rfl : n = 0 := by omega
    rw [sweep_zero] at hl
    cases hl

theorem isChain_sweep : (sweep t peek a n).IsChain fun l l' => l'.address = l.next := by
  induction a, n using sweep_induction t peek with
  | done a =>
    rw [sweep_zero]
    exact .nil
  | line a n hn ih =>
    rw [sweep_of_pos hn, List.isChain_cons]
    exact ⟨address_of_head?, ih⟩

theorem sweep_getElem? {i : Nat} {l : Line} (h : (sweep t peek a n)[i]? = some l) :
    wordsBefore (sweep t peek a n) i < n ∧
      l = t.disassemble peek (a + 2 * UInt32.ofNat (wordsBefore (sweep t peek a n) i)) ∧
      (i + 1 = (sweep t peek a n).length ↔ n ≤ wordsBefore (sweep t peek a n) i + l.words) := by
  induction a, n using sweep_induction t peek generalizing i with
  | done a =>
    rw [sweep_zero] at h
    cases h
  | line a n hn ih =>
    rw [sweep_of_pos hn] at h ⊢
    cases i with
    | zero =>
      cases h
      have hfirst : a + 2 * UInt32.ofNat 0 = a := UInt32.add_zero a
      refine ⟨hn, ?_, ?_⟩
      · rw [wordsBefore_zero, hfirst]
      · rw [wordsBefore_zero, List.length_cons, Nat.add_right_cancel_iff, eq_comm,
          List.length_eq_zero_iff, sweep_eq_nil_iff]
        omega
    | succ i =>
      obtain ⟨hlt, hline, hlast⟩ := ih h
      refine ⟨?_, ?_, ?_⟩
      · rw [wordsBefore_cons]
        omega
      · rw [wordsBefore_cons, ← Address.add_words, ← t.next_disassemble]
        exact hline
      · rw [wordsBefore_cons, List.length_cons, Nat.add_right_cancel_iff, hlast]
        omega

/-! ## The line of a word -/

theorem wordsBefore_succ {ls : List Line} {i : Nat} (hi : i < ls.length) :
    wordsBefore ls (i + 1) = wordsBefore ls i + ls[i].words := by
  rw [wordsBefore, wordsBefore, List.take_add_one, List.getElem?_eq_getElem hi, List.map_append,
    List.sum_append]
  rfl

theorem wordsBefore_mono (ls : List Line) : Monotone (wordsBefore ls) := by
  intro i j hij
  simp only [wordsBefore, List.map_take]
  exact List.monotone_sum_take (ls.map Line.words) hij

theorem exists_wordsBefore {ls : List Line} {k : Nat} (h : k < (ls.map Line.words).sum) :
    ∃ i, ∃ hi : i < ls.length, wordsBefore ls i ≤ k ∧ k < wordsBefore ls i + ls[i].words := by
  induction ls generalizing k with
  | nil => cases h
  | cons l ls ih =>
    rw [List.map_cons, List.sum_cons] at h
    by_cases hk : k < l.words
    · exact ⟨0, Nat.succ_pos _, Nat.zero_le k, by simpa using hk⟩
    · obtain ⟨i, hi, hle, hlt⟩ := ih (k := k - l.words) (by omega)
      refine ⟨i + 1, Nat.succ_lt_succ hi, ?_, ?_⟩
      · rw [wordsBefore_cons]
        omega
      · rw [wordsBefore_cons, List.getElem_cons_succ]
        omega

/-- Every word that is taken is in one line and in no other. -/
theorem existsUnique_wordsBefore {ls : List Line} {k : Nat} (h : k < (ls.map Line.words).sum) :
    ∃! i : Fin ls.length, wordsBefore ls i ≤ k ∧ k < wordsBefore ls i + ls[i].words := by
  obtain ⟨i, hi, hle, hlt⟩ := exists_wordsBefore h
  refine ⟨⟨i, hi⟩, ⟨hle, hlt⟩, ?_⟩
  rintro ⟨j, hj⟩ ⟨hle', hlt'⟩
  have hstart : wordsBefore ls j ≤ k := hle'
  have hstop : k < wordsBefore ls j + ls[j].words := hlt'
  rw [← wordsBefore_succ] at hlt hstop
  rcases Nat.lt_trichotomy i j with hij | rfl | hij
  · have hmono := wordsBefore_mono ls (show i + 1 ≤ j from hij)
    omega
  · rfl
  · have hmono := wordsBefore_mono ls (show j + 1 ≤ i from hij)
    omega

end

/-! ## Going by addresses -/

/-- Listing from an address on, with nothing to go by but addresses, which wrap: the loop ends at
the address `stop`, or behind a line that reaches farther from `base` than `stop` is. -/
inductive Loop (t : Table) (peek : Peek) (base stop : Address) : Address → List Line → Prop
  | done : Loop t peek base stop stop []
  | overrun {a : Address} (hstop : a ≠ stop)
      (hpast : stop - base < (t.disassemble peek a).next - base) :
      Loop t peek base stop a [t.disassemble peek a]
  | again {a : Address} {ls : List Line} (hstop : a ≠ stop)
      (hpast : ¬stop - base < (t.disassemble peek a).next - base)
      (hrest : Loop t peek base stop (t.disassemble peek a).next ls) :
      Loop t peek base stop a (t.disassemble peek a :: ls)

section

variable {t : Table} {peek : Peek} {base stop a : Address} {ls ls' : List Line}

theorem Loop.unique (h : Loop t peek base stop a ls) (h' : Loop t peek base stop a ls') :
    ls' = ls := by
  induction h generalizing ls' with
  | done =>
    cases h' with
    | done => rfl
    | overrun hstop | again hstop => exact absurd rfl hstop
  | overrun hstop hpast =>
    cases h' with
    | done => exact absurd rfl hstop
    | overrun => rfl
    | again hstop' hpast' => exact absurd hpast hpast'
  | again hstop hpast hrest ih =>
    cases h' with
    | done => exact absurd rfl hstop
    | overrun hstop' hpast' => exact absurd hpast' hpast
    | again hstop' hpast' hrest' => rw [ih hrest']

theorem toNat_offset (base : Address) {k : Nat} (hk : k < 2 ^ 31) :
    (base + 2 * UInt32.ofNat k - base).toNat = 2 * k := by
  rw [UInt32.add_comm, UInt32.add_sub_cancel, UInt32.toNat_mul, UInt32.toNat_ofNat']
  show 2 * (k % 2 ^ 32) % 2 ^ 32 = 2 * k
  omega

/-- Counting words comes to the same lines, as long as a last line that takes more words than there
are does not come round to the first address. -/
theorem loop_sweep {k n : Nat} (ha : a = base + 2 * UInt32.ofNat k) (hn : k + n + 5 < 2 ^ 31) :
    Loop t peek base (base + 2 * UInt32.ofNat (k + n)) a (sweep t peek a n) := by
  induction a, n using sweep_induction t peek generalizing k with
  | done a =>
    rw [sweep_zero, ha]
    exact .done
  | line a n hpos ih =>
    have hwords := t.words_pos peek a
    have hfew := t.words_le peek a
    have hnext : (t.disassemble peek a).next =
        base + 2 * UInt32.ofNat (k + (t.disassemble peek a).words) := by
      rw [← Address.add_words, ← ha]
      exact t.next_disassemble peek a
    have hplace : (a - base).toNat = 2 * k := by
      rw [ha]
      exact toNat_offset base (by omega)
    have hreach : ((t.disassemble peek a).next - base).toNat =
        2 * (k + (t.disassemble peek a).words) := by
      rw [hnext]
      exact toNat_offset base (by omega)
    have hend : (base + 2 * UInt32.ofNat (k + n) - base).toNat = 2 * (k + n) :=
      toNat_offset base (by omega)
    have hstop : a ≠ base + 2 * UInt32.ofNat (k + n) := by
      intro heq
      rw [← heq, hplace] at hend
      omega
    rw [sweep_of_pos hpos]
    by_cases hover : n < (t.disassemble peek a).words
    · have hleft : n - (t.disassemble peek a).words = 0 := by omega
      rw [hleft, sweep_zero]
      apply Loop.overrun hstop
      rw [UInt32.lt_iff_toNat_lt, hreach, hend]
      omega
    · have hrest := ih hnext (by omega)
      rw [Nat.add_assoc, Nat.add_sub_cancel' (by omega)] at hrest
      apply Loop.again hstop _ hrest
      rw [UInt32.lt_iff_toNat_lt, hreach, hend]
      omega

end

/-! ## The words that are listed -/

def wordsFrom (a : Address) (words : List UInt16) : Peek := fun b =>
  words.getD ((b - a).toNat / 2) 0

theorem wordsFrom_add (a : Address) (words : List UInt16) {k : Nat} (hk : k < 2 ^ 31) :
    wordsFrom a words (a + 2 * UInt32.ofNat k) = words.getD k 0 := by
  rw [wordsFrom, toNat_offset a hk, Nat.mul_div_cancel_left k Nat.two_pos]

section

variable {words : List UInt16} {base : Address}

/-- The memory of a listing holds the words, and zero words up to where it comes round to them. -/
theorem peekWord_fullMemory (hfit : words.length ≤ 2 ^ 23) {k : Nat} (hk : k < 2 ^ 23) :
    Bus.peekWord (Bus.writeWords fullMemory base words) (base + 2 * UInt32.ofNat k) =
      words.getD k 0 := by
  have hbits : fullMemory.bits ≤ 24 := Nat.le_refl 24
  have hsize : 2 ^ fullMemory.bits = 2 ^ 24 := rfl
  by_cases hin : k < words.length
  · have hword : words[k]? = some words[k] := List.getElem?_eq_getElem hin
    rw [List.getD_eq_getElem?_getD, hword]
    exact Ram.peekWord_writeWords hbits (by omega) base hword
  · have hclear (j : Nat) (hle : 2 * words.length ≤ j) (hlt : j < 2 ^ 24) :
        Bus.peekByte (Bus.writeWords fullMemory base words) (base + UInt32.ofNat j) = 0 :=
      (Ram.peekByte_writeWords_behind hbits base hle hlt).trans (Ram.peekByte_zeroed _ _)
    have hstored : (Bus.writeWords fullMemory base words).bits ≤ 24 :=
      (Ram.bits_writeWords hbits base words).le
    have hsecond : base + UInt32.ofNat (2 * k) + 1 = base + UInt32.ofNat (2 * k + 1) := by
      rw [UInt32.ofNat_add, UInt32.add_assoc]
      rfl
    have hhigh := hclear (2 * k) (by omega) (by omega)
    have hlow := hclear (2 * k + 1) (by omega) (by omega)
    have hnone : words[k]? = none := List.getElem?_eq_none (by omega)
    rw [List.getD_eq_getElem?_getD, hnone, Ram.peekWord_eq hstored,
      Address.words_eq_bytes]
    calc (Bus.writeWords fullMemory base words).memory.word (base + UInt32.ofNat (2 * k))
      _ = Word.ofBytes (Bus.peekByte (Bus.writeWords fullMemory base words)
            (base + UInt32.ofNat (2 * k)))
          (Bus.peekByte (Bus.writeWords fullMemory base words)
            (base + UInt32.ofNat (2 * k) + 1)) := rfl
      _ = 0 := by
        rw [hsecond, hhigh, hlow]
        rfl

theorem disassemble_fullMemory {t : Table} {k : Nat} (hlast : k + 4 < 2 ^ 23)
    (hfit : words.length ≤ 2 ^ 23) :
    t.disassemble (Bus.peekWord (Bus.writeWords fullMemory base words))
        (base + 2 * UInt32.ofNat k) =
      t.disassemble (wordsFrom (base + 2 * UInt32.ofNat k) (words.drop k))
        (base + 2 * UInt32.ofNat k) := by
  apply Table.disassemble_congr
  intro j hj
  have hfew := t.words_le (Bus.peekWord (Bus.writeWords fullMemory base words))
    (base + 2 * UInt32.ofNat k)
  rw [t.toNat_size_eq] at hj
  rw [wordsFrom_add _ _ (by omega), Address.add_words, peekWord_fullMemory hfit (by omega),
    List.getD_eq_getElem?_getD, List.getD_eq_getElem?_getD, List.getElem?_drop]

/-! ## The listing -/

/-- How the lines of a listing lie over the words that are listed.  Places are counted in bytes from
the first word on. -/
structure Covers (words : List UInt16) (base : Address) (ls : List Line) : Prop where
  length_le : ls.length ≤ words.length
  first : ∃ l, ls.head? = some l ∧ l.address = base
  /-- A line begins where the one before it ends. -/
  follows : ls.IsChain fun l l' => l'.address = l.next
  inside : ∀ l ∈ ls, (l.address - base).toNat < 2 * words.length
  /-- The last line is the one that reaches the end of the words. -/
  ends : ∀ i l, ls[i]? = some l →
    (i + 1 = ls.length ↔ 2 * words.length ≤ (l.next - base).toNat)
  once : ∀ k < words.length, ∃! i : Fin ls.length,
    (ls[i].address - base).toNat ≤ 2 * k ∧
      2 * k < (ls[i].address - base).toNat + ls[i].size.toNat
  /-- A line is made from the words at its place and from zero words behind the last of them. -/
  listed : ∀ l ∈ ls, ∃ k < words.length, l.address = base + 2 * UInt32.ofNat k ∧
    l = Table.standard.disassemble (wordsFrom l.address (words.drop k)) l.address

theorem Covers.line_at {ls : List Line} (h : Covers words base ls) (hfit : words.length < 2 ^ 31)
    {l : Line} (hl : l ∈ ls) {k : Nat} (hk : k < 2 ^ 31)
    (haddress : l.address = base + 2 * UInt32.ofNat k) :
    l = Table.standard.disassemble (wordsFrom l.address (words.drop k)) l.address := by
  obtain ⟨j, hj, haddress', hline⟩ := h.listed l hl
  have hsame : 2 * j = 2 * k := by
    rw [← toNat_offset base (by omega), ← haddress', haddress, toNat_offset base hk]
  obtain rfl : j = k := by omega
  exact hline

structure Placed (words : List UInt16) (base : Address) (k : Nat) (l : Line) : Prop where
  lt : k < words.length
  line : l = Table.standard.disassemble (Bus.peekWord (Bus.writeWords fullMemory base words))
    (base + 2 * UInt32.ofNat k)
  address : l.address = base + 2 * UInt32.ofNat k
  place : (l.address - base).toNat = 2 * k
  size : l.size.toNat = 2 * l.words
  reach : (l.next - base).toNat = 2 * (k + l.words)

theorem placed_of_getElem? (hfit : words.length < 2 ^ 23) {i : Nat} {l : Line}
    (h : (listWords words base)[i]? = some l) :
    Placed words base (wordsBefore (listWords words base) i) l := by
  obtain ⟨hlt, hline, -⟩ := sweep_getElem? h
  have hlt : wordsBefore (listWords words base) i < words.length := hlt
  have haddress : l.address = base + 2 * UInt32.ofNat (wordsBefore (listWords words base) i) := by
    rw [hline]
    exact Table.address_disassemble _ _ _
  have hfew : l.words ≤ 5 := by
    rw [hline]
    exact Table.words_le _ _ _
  have hnext : l.next = base +
      2 * UInt32.ofNat (wordsBefore (listWords words base) i + l.words) := by
    rw [← Address.add_words, hline]
    exact Table.next_disassemble _ _ _
  refine ⟨hlt, hline, haddress, ?_, ?_, ?_⟩
  · rw [haddress]
    exact toNat_offset base (by omega)
  · rw [hline]
    exact Table.toNat_size_eq _ _ _
  · rw [hnext]
    exact toNat_offset base (by omega)

theorem covers_listWords (hpos : 1 ≤ words.length) (hfit : words.length ≤ 2 ^ 23 - 4) :
    Covers words base (listWords words base) where
  length_le := length_sweep_le
  first := by
    have hne : listWords words base ≠ [] := by
      intro h
      have hzero := sweep_eq_nil_iff.mp h
      omega
    exact ⟨_, List.head?_eq_some_head hne, address_of_head? _ (List.head?_eq_some_head hne)⟩
  follows := isChain_sweep
  inside := by
    intro l hl
    obtain ⟨i, hi⟩ := List.getElem?_of_mem hl
    have hplaced := placed_of_getElem? (by omega) hi
    have hlt := hplaced.lt
    rw [hplaced.place]
    omega
  ends := by
    intro i l hi
    have hlast := (sweep_getElem? hi).2.2
    rw [(placed_of_getElem? (by omega) hi).reach]
    apply hlast.trans
    exact (Nat.mul_le_mul_left_iff Nat.two_pos).symm
  once := by
    intro k hk
    have hsum : k < ((listWords words base).map Line.words).sum := hk.trans_le le_words_sweep
    have hplaces (i : Fin (listWords words base).length) :
        ((listWords words base)[i].address - base).toNat ≤ 2 * k ∧
            2 * k < ((listWords words base)[i].address - base).toNat +
              (listWords words base)[i].size.toNat ↔
          wordsBefore (listWords words base) i ≤ k ∧
            k < wordsBefore (listWords words base) i + (listWords words base)[i].words := by
      have hi : (listWords words base)[i.val]? = some (listWords words base)[i] :=
        List.getElem?_eq_getElem i.isLt
      have hplaced := placed_of_getElem? (by omega) hi
      rw [hplaced.place, hplaced.size]
      omega
    simp only [hplaces]
    exact existsUnique_wordsBefore hsum
  listed := by
    intro l hl
    obtain ⟨i, hi⟩ := List.getElem?_of_mem hl
    have hplaced := placed_of_getElem? (by omega) hi
    have hlt := hplaced.lt
    refine ⟨_, hlt, hplaced.address, ?_⟩
    rw [hplaced.address, ← disassemble_fullMemory (by omega) (by omega)]
    exact hplaced.line

theorem loop_listWords (hfit : words.length ≤ 2 ^ 23 - 4) :
    Loop .standard (Bus.peekWord (Bus.writeWords fullMemory base words)) base
      (base + 2 * UInt32.ofNat words.length) base (listWords words base) := by
  have hfirst : base = base + 2 * UInt32.ofNat 0 := (UInt32.add_zero base).symm
  have hloop : Loop .standard (Bus.peekWord (Bus.writeWords fullMemory base words)) base
      (base + 2 * UInt32.ofNat (0 + words.length)) base (listWords words base) :=
    loop_sweep hfirst (by omega)
  rwa [Nat.zero_add] at hloop

/-! ## The command -/

theorem instructionWords_of_forall₂ {texts : List String}
    (h : List.Forall₂ (fun text w => instructionWord? text = some w) texts words) :
    instructionWords texts = .ok words := by
  induction h with
  | nil => rfl
  | cons hword h ih =>
    rw [instructionWords, hword, ih]
    rfl

theorem instructionWords_of_none {texts : List String} {text : String} (hmem : text ∈ texts)
    (h : instructionWord? text = none) :
    ∃ before bad after, texts = before ++ bad :: after ∧
      (∀ s ∈ before, (instructionWord? s).isSome) ∧ instructionWord? bad = none ∧
      instructionWords texts = .error bad := by
  induction texts with
  | nil => cases hmem
  | cons s texts ih =>
    cases hs : instructionWord? s with
    | none =>
      refine ⟨[], s, texts, rfl, by simp, hs, ?_⟩
      rw [instructionWords, hs]
    | some w =>
      have htail : text ∈ texts := by
        rcases List.mem_cons.mp hmem with rfl | htail
        · cases hs.symm.trans h
        · exact htail
      obtain ⟨before, bad, after, rfl, hbefore, hbad, herror⟩ := ih htail
      refine ⟨s :: before, bad, after, rfl, ?_, hbad, ?_⟩
      · intro u hu
        rcases List.mem_cons.mp hu with rfl | hu
        · rw [hs]
          rfl
        · exact hbefore u hu
      · rw [instructionWords, hs, herror]
        rfl

end

/-- A list of words is printed in lines that cover it, and a list with something else in it is not
printed at all. -/
theorem runDis_covers (verbosity : Nat) (texts : List String) (base : Address) :
    (∀ words, List.Forall₂ (fun text w => instructionWord? text = some w) texts words →
      1 ≤ words.length → words.length ≤ 2 ^ 23 - 4 →
      ∃ ls,
        runDis verbosity texts base =
          { output := lines (ls.map listingText), errors := lines (tableLog verbosity) } ∧
        (∀ ls', Loop .standard (Bus.peekWord (Bus.writeWords fullMemory base words)) base
          (base + 2 * UInt32.ofNat words.length) base ls' ↔ ls' = ls) ∧
        Covers words base ls) ∧
    ∀ text ∈ texts, instructionWord? text = none →
      (runDis verbosity texts base).output = "" ∧ (runDis verbosity texts base).exit = 1 ∧
      ∃ before bad after, texts = before ++ bad :: after ∧
        (∀ s ∈ before, (instructionWord? s).isSome) ∧ instructionWord? bad = none ∧
        runDis verbosity texts base = failed (tableLog verbosity) (.invalidWord bad) := by
  constructor
  · intro words hwords hpos hfit
    have hloop : Loop .standard _ base _ base (listWords words base) := loop_listWords hfit
    refine ⟨listWords words base, ?_, fun ls' => ⟨hloop.unique, ?_⟩, covers_listWords hpos hfit⟩
    · rw [runDis, instructionWords_of_forall₂ hwords]
    · rintro rfl
      exact hloop
  · intro text hmem hnone
    obtain ⟨before, bad, after, htexts, hbefore, hbad, herror⟩ :=
      instructionWords_of_none hmem hnone
    have hrun : runDis verbosity texts base = failed (tableLog verbosity) (.invalidWord bad) := by
      rw [runDis, herror]
    refine ⟨?_, ?_, before, bad, after, htexts, hbefore, hbad, hrun⟩
    · rw [hrun]
      rfl
    · rw [hrun]
      rfl

/-- Two words, the second of which begins an instruction that goes on behind them, listed across the
end of the addresses; and a text that is no word behind one of them. -/
theorem runDis_covers_overrun :
    List.Forall₂ (fun text w => instructionWord? text = some w) ["b6a0", "$0c79"]
      [0xB6A0, 0x0C79] ∧
    runDis 0 ["b6a0", "$0c79"] 0xFFFFFFFF =
      { output := "$FFFFFFFF  CMP.L -(A0),D3\n$000001  CMPI.W #$0000,$00000000.L\n" } ∧
    (runDis 0 ["b6a0", "xyz"] 0xFFFFFFFF).output = "" := by
  have hwords : List.Forall₂ (fun text w => instructionWord? text = some w) ["b6a0", "$0c79"]
      [0xB6A0, 0x0C79] :=
    .cons (by decide +kernel) (.cons (by decide +kernel) .nil)
  have hrefused := (runDis_covers 0 ["b6a0", "xyz"] 0xFFFFFFFF).2 "xyz" (by decide)
    (by decide +kernel)
  obtain ⟨ls, hrun, -, hcovers⟩ :=
    (runDis_covers 0 ["b6a0", "$0c79"] 0xFFFFFFFF).1 _ hwords (by decide) (by decide)
  obtain ⟨l, hhead, haddress⟩ := hcovers.first
  obtain ⟨rest, rfl⟩ := List.head?_eq_some_iff.mp hhead
  have hfirst : l = ⟨0xFFFFFFFF, 2, "CMP.L", "-(A0),D3"⟩ := by
    rw [hcovers.line_at (by decide) List.mem_cons_self (k := 0) (by decide) haddress, haddress]
    decide +kernel
  subst hfirst
  cases rest with
  | nil => exact absurd ((hcovers.ends 0 _ rfl).mp rfl) (by decide)
  | cons l rest =>
    have haddress : l.address = 1 := (List.isChain_cons_cons.mp hcovers.follows).1
    have hsecond : l = ⟨1, 8, "CMPI.W", "#$0000,$00000000.L"⟩ := by
      have hmem : l ∈ ⟨0xFFFFFFFF, 2, "CMP.L", "-(A0),D3"⟩ :: l :: rest :=
        List.mem_cons_of_mem _ List.mem_cons_self
      rw [hcovers.line_at (by decide) hmem (k := 1) (by decide) haddress, haddress]
      decide +kernel
    subst hsecond
    have hend := (hcovers.ends 1 _ rfl).mpr (by decide)
    obtain rfl : rest = [] := List.length_eq_zero_iff.mp (by simpa using hend)
    refine ⟨hwords, hrun.trans ?_, hrefused.1⟩
    decide +kernel

end Cli

end Compare68k
