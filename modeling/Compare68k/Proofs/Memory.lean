import Compare68k.Bus.Ram
import Compare68k.Proofs.Width
import Mathlib.Data.Nat.ModEq
/-!
# Memory as bytes at addresses

What a processor finds in memory depends on nothing but the byte at each of the `2 ^ 32`
addresses.  A RAM of at most `2 ^ 24` bytes is such a memory: its words, which it finds in a
way of its own at its last byte, are the pairs of bytes at consecutive addresses.
-/

namespace Compare68k

/-- The byte at each address. -/
abbrev Memory := Address → UInt8

namespace Memory

def word (m : Memory) (a : Address) : UInt16 :=
  Word.ofBytes (m a) (m (a + 1))

def long (m : Memory) (a : Address) : UInt32 :=
  Word.long (m.word a) (m.word (a + 2))

def operand (m : Memory) (size : Size) (a : Address) : UInt32 :=
  match size with
  | .byte => (m a).toUInt32
  | .word => (m.word a).toUInt32
  | .long => m.long a

theorem operand_lt (m : Memory) (size : Size) (a : Address) :
    (m.operand size a).toNat < 2 ^ size.bitWidth := by
  cases size with
  | byte => exact (m a).toNat_lt
  | word => exact (m.word a).toNat_lt
  | long => exact (m.long a).toNat_lt

end Memory

namespace Ram

/-- The bytes of a RAM, which repeat over the whole range of addresses. -/
def memory (r : Ram) : Memory := fun a => r.get (r.index a)

theorem size_eq_two_pow (r : Ram) : r.size = 2 ^ r.bits := by
  rw [size, r.size_bytes, Nat.one_shiftLeft]

theorem size_dvd_two_pow {r : Ram} {n : Nat} (h : r.bits ≤ n) : r.size ∣ 2 ^ n := by
  rw [r.size_eq_two_pow]
  exact Nat.pow_dvd_pow 2 h

theorem index_eq_mod {r : Ram} (h : r.bits ≤ 24) (a : Address) :
    (r.index a).val = a.toNat % r.size :=
  Nat.mod_mod_of_dvd a.toNat (size_dvd_two_pow h)

/-- After the last byte comes the first, also where addresses wrap. -/
theorem index_add_one {r : Ram} (h : r.bits ≤ 24) (a : Address) :
    (r.index (a + 1)).val = ((r.index a).val + 1) % r.size := by
  have hdvd : r.size ∣ 2 ^ 32 := size_dvd_two_pow (by omega)
  rw [index_eq_mod h, index_eq_mod h, UInt32.toNat_add, Nat.mod_mod_of_dvd _ hdvd, Nat.mod_add_mod]
  rfl

theorem word_eq_memory_word {r : Ram} (h : r.bits ≤ 24) (a : Address) :
    r.word a = r.memory.word a := by
  have hi : (r.index a).val < r.size := (r.index a).isLt
  have hnext := index_add_one h a
  unfold word
  dsimp only
  split
  · rename_i hlt
    rw [Nat.mod_eq_of_lt hlt] at hnext
    have hindex : r.index (a + 1) = ⟨(r.index a).val + 1, hlt⟩ := Fin.ext hnext
    rw [Memory.word, memory, memory, hindex]
  · rename_i hge
    have hlast : (r.index a).val + 1 = r.size := by omega
    rw [hlast, Nat.mod_self] at hnext
    have hindex : r.index (a + 1) = ⟨0, r.size_pos⟩ := Fin.ext hnext
    rw [Memory.word, memory, memory, hindex]

theorem readWord_eq {r : Ram} (h : r.bits ≤ 24) (a : Address) :
    Bus.readWord r a = (r.memory.word a, r) := by
  rw [← word_eq_memory_word h]
  rfl

theorem peekWord_eq {r : Ram} (h : r.bits ≤ 24) : Bus.peekWord r = r.memory.word := by
  funext a
  exact word_eq_memory_word h a

end Ram

end Compare68k
