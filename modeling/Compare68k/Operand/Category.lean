/-!
# Operand categories

The categories that addressing modes fall into, and sets of them.  An instruction says which
modes it refuses by a set of categories.
-/

namespace Compare68k

inductive Category where
  | dataRegister
  | addressRegister
  /-- Memory addressed through a register or by its absolute address. -/
  | memory
  /-- Memory addressed relative to the program counter. -/
  | pcRelative
  | immediate
deriving DecidableEq, Repr, Inhabited

structure CategorySet where
  dataRegister : Bool := false
  addressRegister : Bool := false
  memory : Bool := false
  pcRelative : Bool := false
  immediate : Bool := false
deriving DecidableEq, Repr, Inhabited

namespace CategorySet

def has (s : CategorySet) : Category → Bool
  | .dataRegister => s.dataRegister
  | .addressRegister => s.addressRegister
  | .memory => s.memory
  | .pcRelative => s.pcRelative
  | .immediate => s.immediate

def empty : CategorySet := {}

def singleton : Category → CategorySet
  | .dataRegister => { dataRegister := true }
  | .addressRegister => { addressRegister := true }
  | .memory => { memory := true }
  | .pcRelative => { pcRelative := true }
  | .immediate => { immediate := true }

def union (s t : CategorySet) : CategorySet where
  dataRegister := s.dataRegister || t.dataRegister
  addressRegister := s.addressRegister || t.addressRegister
  memory := s.memory || t.memory
  pcRelative := s.pcRelative || t.pcRelative
  immediate := s.immediate || t.immediate

/-- The categories that instructions cannot alter as data. -/
def notDataAlterable : CategorySet :=
  { addressRegister := true, pcRelative := true, immediate := true }

def order : List Category :=
  [.dataRegister, .addressRegister, .memory, .pcRelative, .immediate]

def toList (s : CategorySet) : List Category :=
  order.filter s.has

def includes (s t : CategorySet) : Bool :=
  order.all fun c => !t.has c || s.has c

end CategorySet

end Compare68k
