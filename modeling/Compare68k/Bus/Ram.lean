import Compare68k.Bus.Basic
/-!
# Random-access memory

A bus of plain memory.  The processor drives twenty-four address lines, and the memory is
repeated over the whole range they select, so its size has to be a power of two.
-/

namespace Compare68k

/-- The addresses that the connected address lines tell apart. -/
def addressSpace : Nat := 1 <<< 24

/-- A memory of `1 <<< bits` bytes, at least two. -/
structure Ram where
  bits : Nat
  bytes : ByteArray
  size_bytes : bytes.size = 1 <<< bits
  one_le_bits : 1 ≤ bits

namespace Ram

def zeros : Nat → ByteArray
  | 0 => ByteArray.empty.push 0
  | k + 1 => let half := zeros k; half ++ half

theorem size_bytes_set (bytes : ByteArray) (i : Nat) (b : UInt8) (h : i < bytes.size) :
    (bytes.set i b h).size = bytes.size := by
  rw [← ByteArray.size_data, ByteArray.data_set, Array.size_set, ByteArray.size_data]

theorem size_zeros (k : Nat) : (zeros k).size = 1 <<< k := by
  induction k with
  | zero => rfl
  | succ k ih => simp only [zeros, ByteArray.size_append, ih, Nat.shiftLeft_succ]; omega

def zeroed (bits : Nat) (h : 1 ≤ bits) : Ram :=
  ⟨bits, zeros bits, size_zeros bits, h⟩

/-- A memory of `1 <<< bits` zero bytes.  A single byte is not a memory. -/
def zeroed? (bits : Nat) : Option Ram :=
  if h : 1 ≤ bits then some (zeroed bits h) else none

/-- A memory with the given contents, if their number is a power of two and more than one. -/
def ofBytes? (bytes : ByteArray) : Option Ram :=
  if h : bytes.size = 1 <<< bytes.size.log2 ∧ 1 ≤ bytes.size.log2 then
    some ⟨bytes.size.log2, bytes, h.1, h.2⟩
  else
    none

def size (r : Ram) : Nat :=
  r.bytes.size

theorem shift_pos (k : Nat) : 0 < 1 <<< k := by
  induction k with
  | zero => decide
  | succ k ih => rw [Nat.shiftLeft_succ]; omega

theorem size_pos (r : Ram) : 0 < r.size := by
  rw [size, r.size_bytes]
  exact shift_pos _

def index (r : Ram) (a : Address) : Fin r.size :=
  ⟨a.toNat % addressSpace % r.size, Nat.mod_lt _ r.size_pos⟩

def get (r : Ram) (i : Fin r.size) : UInt8 :=
  r.bytes.get i.val i.isLt

def set (r : Ram) (i : Fin r.size) (b : UInt8) : Ram :=
  { r with
    bytes := r.bytes.set i.val b i.isLt
    size_bytes := (size_bytes_set r.bytes i.val b i.isLt).trans r.size_bytes }

@[simp] theorem size_set (r : Ram) (i : Fin r.size) (b : UInt8) : (r.set i b).size = r.size :=
  size_bytes_set r.bytes i.val b i.isLt

def slice (r : Ram) (start stop : Nat) : Option ByteArray :=
  if start ≤ stop ∧ stop ≤ r.size then some (r.bytes.extract start stop) else none

def description (r : Ram) : String :=
  if r.size < 1 <<< 10 then toString r.size ++ "B RAM"
  else if r.size < 1 <<< 20 then toString (r.size >>> 10) ++ "kB RAM"
  else toString (r.size >>> 20) ++ "MB RAM"

/-- The word at an address.  After the last byte of the memory comes its first. -/
def word (r : Ram) (a : Address) : UInt16 :=
  let i := r.index a
  if h : i.val + 1 < r.size then
    Word.ofBytes (r.get i) (r.get ⟨i.val + 1, h⟩)
  else
    Word.ofBytes (r.get i) (r.get ⟨0, r.size_pos⟩)

def setWord (r : Ram) (a : Address) (w : UInt16) : Ram :=
  let i := r.index a
  if h : i.val + 1 < r.size then
    (r.set i (Word.highByte w)).set ⟨i.val + 1, by simpa using h⟩ (Word.lowByte w)
  else
    (r.set i (Word.highByte w)).set ⟨0, by simpa using r.size_pos⟩ (Word.lowByte w)

instance : Bus Ram where
  description := description
  peekByte r a := r.get (r.index a)
  readByte r a := (r.get (r.index a), r)
  writeByte r a b := r.set (r.index a) b
  peekWord := word
  readWord r a := (r.word a, r)
  writeWord := setWord

end Ram

end Compare68k
