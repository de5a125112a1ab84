import Compare68k.Proofs.Operand.Calls
import Compare68k.Proofs.Operand.Polls
/-!
# Operands under disturbance

What a resolution delivers when registers and memory change before each of its polls.  A poll makes
the accesses of the activities that it records, on the bus that it finds.  The address of the
operand is made from the extension words, the place of the first of them, and the registers at one
moment, which depends on the mode: the first poll, the idle activity of pre-decrement, or the first
read of the operand.  Main statement: whatever the changes are, the polls of an operand follow its
mode's activities tick by tick, read the operand at that one address, and bring what was read.
-/

namespace Compare68k

variable {β : Type}

def Request.read? [Bus β] (bus : β) : Request → Option Call
  | readByte a => some (.readByte a (Bus.readByte bus a).1)
  | readWord a => some (.readWord a (Bus.readWord bus a).1)
  | writeByte _ | writeWord _ => none

namespace Cycle

def calls [Bus β] (size : Size) (a pc : Address) (bus : β) (c : Cycle) : List Call :=
  ((c.request? size a pc).bind (Request.read? bus)).toList

def isDataRead : Cycle → Bool
  | read | readHigh => true
  | idle | prefetch | write | writeHigh => false

end Cycle

def Call.operand (size : Size) (calls : List Call) : UInt32 :=
  match size, calls with
  | .byte, [.readByte _ value] => value.toUInt32
  | .word, [.readWord _ value] => value.toUInt32
  | .long, [.readWord _ high, .readWord _ low] => Word.long high low
  | _, _ => 0

namespace Poll

structure Performs [Bus β] (poll : Poll β) (size : Size) (a : Address) : Prop where
  calls : poll.calls = poll.recorded.flatMap (Cycle.calls size a poll.found.pc poll.bus)
  left : poll.left = poll.found.skip (poll.recorded.count .prefetch)

def foundAt (kind : Cycle → Bool) (polls : List (Poll β)) : Registers :=
  ((polls.find? fun poll => poll.recorded.any kind).map Poll.found).getD {}

end Poll

namespace Mode

/-- The registers at the moment at which a mode fixes its address. -/
def latched (m : Mode) (first : Poll β) (later : List (Poll β)) : Registers :=
  match m with
  | indirect _ | postInc _ => first.found
  | preDec _ => Poll.foundAt (· = .idle) (first :: later)
  | _ => Poll.foundAt Cycle.isDataRead (first :: later)

def fixedAddress (m : Mode) (size : Size) (first : Poll β) (later : List (Poll β)) : Address :=
  m.address size (Call.wordsRead ((first :: later).flatMap Poll.calls))
    { m.latched first later with pc := (Poll.foundAt (· = .prefetch) (first :: later)).pc }

/-- The operand that polls bring.  A register is read by the first poll, which is the only one. -/
def delivered (m : Mode) (size : Size) (first : Poll β) (later : List (Poll β)) : UInt32 :=
  let calls := (first :: later).flatMap Poll.calls
  match m with
  | dataReg n => first.found.get (.data n) &&& size.mask
  | addrReg n => first.found.get (.address n) &&& size.mask
  | immediate => constant size (Call.wordsRead calls) &&& size.mask
  | _ => Call.operand size (calls.drop (m.extensionWords size))

/-- Polls do what they have to do at the one address of their operand, and bring the operand.  The
register that a mode moves is moved by the first poll, before anything else. -/
structure Brings [Bus β] (m : Mode) (size : Size) (first : Poll β) (later : List (Poll β))
    (value : UInt32) : Prop where
  first_performs : { first with found := m.moved size first.found }.Performs size
    (m.fixedAddress size first later)
  later_perform : ∀ poll ∈ later, poll.Performs size (m.fixedAddress size first later)
  value_eq : value = m.delivered size first later

/-- Polls bring the operand of a mode in time.  Each activity is recorded once the ticks of those
before it have passed, and no poll but the last one answers. -/
structure Delivery [Bus β] (m : Mode) (size : Size) (first : Poll β) (later : List (Poll β))
    (value : UInt32) : Prop extends m.Brings size first later value where
  answers : (first :: later).map Poll.answer =
    List.replicate (Cycle.totalTicks (m.pattern size)) none ++ [some value]
  recorded : (first :: later).flatMap Poll.recorded = m.pattern size
  begins : ∀ j c, (m.pattern size)[j]? = some c →
    ((first :: later).map Poll.recorded)[Cycle.totalTicks ((m.pattern size).take j)]? = some [c]

end Mode

/-! ## One activity after another -/

namespace Poll

structure Rests (poll : Poll β) : Prop where
  recorded : poll.recorded = []
  calls : poll.calls = []
  left : poll.left = poll.found

variable {poll : Poll β} {polls others : List (Poll β)} {c : Cycle} {size : Size} {a : Address}

theorem Rests.performs [Bus β] (h : poll.Rests) (size : Size) (a : Address) :
    poll.Performs size a where
  calls := by
    rw [h.calls, h.recorded]
    rfl
  left := by
    rw [h.left, h.recorded, List.count_nil, Registers.skip_zero]

theorem Rests.performs_singleton [Bus β] (h : poll.Rests) (size : Size) (a : Address) :
    ∀ p ∈ [poll], p.Performs size a := by
  intro p hp
  rw [List.mem_singleton.mp hp]
  exact h.performs size a

theorem foundAt_cons (kind : Cycle → Bool) (poll : Poll β) (polls : List (Poll β)) :
    foundAt kind (poll :: polls) =
      if poll.recorded.any kind then poll.found else foundAt kind polls := by
  rw [foundAt, List.find?_cons]
  split <;> rename_i h <;> rw [h] <;> rfl

structure Spans (poll : Poll β) (c : Cycle) (polls others : List (Poll β)) : Prop where
  recorded : poll.recorded = [c]
  waits : ∃ waits, polls = poll :: (waits ++ others) ∧ ∀ wait ∈ waits, wait.Rests

theorem Spans.foundAt_self (h : poll.Spans c polls others) {kind : Cycle → Bool}
    (hkind : kind c = true) : foundAt kind polls = poll.found := by
  obtain ⟨hrecorded, waits, rfl, -⟩ := h
  rw [foundAt_cons, hrecorded, List.any_cons, hkind]
  rfl

theorem Spans.foundAt_others (h : poll.Spans c polls others) {kind : Cycle → Bool}
    (hkind : kind c = false) : foundAt kind polls = foundAt kind others := by
  obtain ⟨hrecorded, waits, rfl, hrests⟩ := h
  rw [foundAt_cons, hrecorded, List.any_cons, hkind]
  clear hrecorded
  induction waits with
  | nil => rfl
  | cons wait waits ih =>
    rw [List.cons_append, foundAt_cons, (hrests wait List.mem_cons_self).recorded]
    exact ih fun w hw => hrests w (List.mem_cons_of_mem wait hw)

theorem Spans.calls_eq (h : poll.Spans c polls others) :
    polls.flatMap Poll.calls = poll.calls ++ others.flatMap Poll.calls := by
  obtain ⟨-, waits, rfl, hrests⟩ := h
  have hwaits : waits.flatMap Poll.calls = [] :=
    List.flatMap_eq_nil_iff.mpr fun wait hwait => (hrests wait hwait).calls
  rw [List.flatMap_cons, List.flatMap_append, hwaits, List.nil_append]

theorem Spans.performs_first [Bus β] (h : poll.Spans c polls others)
    (hcalls : poll.calls = c.calls size a poll.found.pc poll.bus)
    (hleft : poll.left = poll.found.skip ([c].count .prefetch)) : poll.Performs size a where
  calls := by
    rw [hcalls, h.recorded, List.flatMap_singleton]
  left := by
    rw [hleft, h.recorded]

theorem Spans.performs [Bus β] (h : poll.Spans c polls others) (hpoll : poll.Performs size a)
    (hothers : ∀ other ∈ others, other.Performs size a) : ∀ p ∈ polls, p.Performs size a := by
  obtain ⟨-, waits, rfl, hrests⟩ := h
  intro p hp
  rcases List.mem_cons.mp hp with rfl | hp
  · exact hpoll
  · rcases List.mem_append.mp hp with hwait | hother
    · exact (hrests p hwait).performs size a
    · exact hothers p hother

end Poll

namespace Resolution

variable [Bus β] {r : Resolution} {polls : List (Poll β)} {value : UInt32} {c : Cycle}
  {cs : List Cycle}

theorem withWait_of_wait (h : r.wait = 0) : r.withWait 0 = r := by
  cases r
  cases h
  rfl

theorem Course.settle (h : r.Course polls value) :
    ∃ waits others, polls = waits ++ others ∧ (∀ wait ∈ waits, wait.Rests) ∧
      (r.withWait 0).Course others value := by
  induction h with
  | wait k regs bus hwait later ih =>
    obtain ⟨waits, others, rfl, hrests, hcourse⟩ := ih
    refine ⟨_ :: waits, others, rfl, ?_, hcourse⟩
    intro poll hpoll
    rcases List.mem_cons.mp hpoll with rfl | hpoll
    · exact ⟨rfl, rfl, rfl⟩
    · exact hrests poll hpoll
  | activity c cs r' regs regs' bus logged hwait hpending hperform later ih =>
    refine ⟨[], _, rfl, by simp, ?_⟩
    rw [withWait_of_wait hwait]
    exact .activity c cs r' regs regs' bus logged hwait hpending hperform later
  | operand regs bus hwait hpending hfinish =>
    refine ⟨[], _, rfl, by simp, ?_⟩
    rw [withWait_of_wait hwait]
    exact .operand regs bus hwait hpending hfinish

/-- The first activity of a course, all of it. -/
theorem Course.exists_spans (h : r.Course polls value) (hwait : r.wait = 0)
    (hpending : r.pending = c :: cs) :
    ∃ (poll : Poll β) (others : List (Poll β)) (r' : Resolution) (logged : Logged β),
      poll.Spans c polls others ∧
      r.perform c poll.found (⟨poll.bus, []⟩ : Logged β) = .ok (r', poll.left, logged) ∧
      poll.calls = logged.calls ∧ ((r'.next c cs).withWait 0).Course others value := by
  cases h with
  | wait k regs bus hwait' later =>
    rw [hwait] at hwait'
    cases hwait'
  | activity d ds r' regs regs' bus logged _ hpending' hperform later =>
    cases hpending.symm.trans hpending'
    obtain ⟨waits, others, rfl, hrests, hcourse⟩ := later.settle
    exact ⟨_, others, r', logged, ⟨rfl, waits, rfl, hrests⟩, hperform, rfl, hcourse⟩
  | operand regs bus _ hpending' hfinish =>
    rw [hpending] at hpending'
    cases hpending'

theorem Course.exists_prefetch (h : r.Course polls value) (hwait : r.wait = 0)
    (hpending : r.pending = .prefetch :: cs) :
    ∃ (poll : Poll β) (others : List (Poll β)) (w : UInt16), poll.Spans .prefetch polls others ∧
      (∀ size a, poll.Performs size a) ∧ poll.calls = [.readWord poll.found.pc w] ∧
      (((r.take poll.found.pc w).next .prefetch cs).withWait 0).Course others value := by
  obtain ⟨poll, others, r', logged, hspans, hperform, hcalls, hcourse⟩ :=
    h.exists_spans hwait hpending
  simp only [perform, Except.ok.injEq, Prod.mk.injEq] at hperform
  obtain ⟨rfl, hleft, rfl⟩ := hperform
  exact ⟨poll, others, (Bus.readWord poll.bus poll.found.pc).1, hspans,
    fun size a => hspans.performs_first hcalls hleft.symm, hcalls, hcourse⟩

theorem Course.exists_idle (h : r.Course polls value) (hwait : r.wait = 0)
    (hpending : r.pending = .idle :: cs) (hmode : ∀ n, r.mode ≠ .preDec n) :
    ∃ (poll : Poll β) (others : List (Poll β)), poll.Spans .idle polls others ∧
      (∀ size a, poll.Performs size a) ∧ poll.calls = [] ∧
      ((r.next .idle cs).withWait 0).Course others value := by
  obtain ⟨poll, others, r', logged, hspans, hperform, hcalls, hcourse⟩ :=
    h.exists_spans hwait hpending
  rw [perform_idle hmode] at hperform
  simp only [Except.ok.injEq, Prod.mk.injEq] at hperform
  obtain ⟨rfl, hleft, rfl⟩ := hperform
  have hskip : poll.left = poll.found.skip 0 := by
    rw [Registers.skip_zero, hleft]
  exact ⟨poll, others, hspans, fun size a => hspans.performs_first hcalls hskip, hcalls, hcourse⟩

theorem Course.exists_operand (h : r.Course polls value) (hwait : r.wait = 0)
    (hpending : r.pending = []) :
    ∃ poll : Poll β, polls = [poll] ∧ poll.Rests ∧ r.finish poll.found = .ok value := by
  cases h with
  | wait k regs bus hwait' later =>
    rw [hwait] at hwait'
    cases hwait'
  | activity c cs r' regs regs' bus logged _ hpending' hperform later =>
    rw [hpending] at hpending'
    cases hpending'
  | operand regs bus _ _ hfinish => exact ⟨_, rfl, ⟨rfl, rfl, rfl⟩, hfinish⟩

/-! ## The operand in memory -/

variable {a : Address} {size : Size}

theorem lastRead_logged (r : Resolution) (bus : β) (a pc : Address) :
    (r.lastRead (⟨bus, []⟩ : Logged β) a).1 = (r.lastRead bus a).1 ∧
      (r.lastRead (⟨bus, []⟩ : Logged β) a).2.calls = Cycle.calls r.size a pc bus .read := by
  unfold lastRead Cycle.calls
  cases r.size <;> exact ⟨rfl, rfl⟩

theorem Course.exists_read (h : r.Course polls value) (hsize : r.size = size) (hwait : r.wait = 0)
    (hpending : r.pending = [.read])
    (hmode : r.mode.category = .memory ∨ r.mode.category = .pcRelative)
    (ha : r.effectiveAddress (Poll.foundAt Cycle.isDataRead polls) = .ok a) :
    ∃ bus : β, polls.flatMap Poll.calls = Cycle.calls size a 0 bus .read ∧
      value = (r.lastRead bus a).1 &&& size.mask ∧ ∀ poll ∈ polls, poll.Performs size a := by
  obtain ⟨poll, others, r', logged, hspans, hperform, hcalls, hcourse⟩ :=
    h.exists_spans hwait hpending
  rw [hspans.foundAt_self rfl] at ha
  rw [perform_read ha] at hperform
  simp only [Except.ok.injEq, Prod.mk.injEq] at hperform
  obtain ⟨rfl, hleft, rfl⟩ := hperform
  obtain ⟨last, rfl, hrests, hfinish⟩ := hcourse.exists_operand rfl rfl
  have hread (pc : Address) := lastRead_logged r poll.bus a pc
  rw [hsize] at hread
  have hskip : poll.left = poll.found.skip 0 := by
    rw [Registers.skip_zero, hleft]
  have hpoll := hspans.performs_first (hcalls.trans (hread poll.found.pc).2) hskip
  refine ⟨poll.bus, ?_, ?_, hspans.performs hpoll (hrests.performs_singleton size a)⟩
  · rw [hspans.calls_eq, hcalls, (hread 0).2, List.flatMap_singleton, hrests.calls,
      List.append_nil]
  · have hvalue := finish_of_memory
      (r := ((r.latch a (r.lastRead (⟨poll.bus, []⟩ : Logged β) a).1).next .read []).withWait 0)
      hmode last.found
    rw [hfinish] at hvalue
    rw [← (hread 0).1, ← hsize]
    exact Except.ok.inj hvalue

theorem Course.performs_of_fetch (h : r.Course polls value) (hsize : r.size = size)
    (hwait : r.wait = 0) (hpending : r.pending = Mode.fetch size)
    (hmode : r.mode.category = .memory ∨ r.mode.category = .pcRelative)
    (ha : r.effectiveAddress (Poll.foundAt Cycle.isDataRead polls) = .ok a) :
    (∀ poll ∈ polls, poll.Performs size a) ∧
      value = Call.operand size (polls.flatMap Poll.calls) := by
  cases size with
  | byte | word =>
    obtain ⟨bus, hcalls, hvalue, hperforms⟩ := h.exists_read hsize hwait hpending hmode ha
    refine ⟨hperforms, ?_⟩
    have hlast : r.lastRead bus a = Bus.operand bus r.size a := by
      rw [lastRead, hsize]
      rfl
    rw [hvalue, hlast, hsize, Size.and_mask_of_lt (Bus.operand_lt bus _ a), hcalls]
    rfl
  | long =>
    obtain ⟨poll, others, r', logged, hspans, hperform, hcalls, hcourse⟩ :=
      h.exists_spans hwait hpending
    rw [hspans.foundAt_self rfl] at ha
    rw [perform_readHigh ha] at hperform
    simp only [Except.ok.injEq, Prod.mk.injEq] at hperform
    obtain ⟨rfl, hleft, rfl⟩ := hperform
    obtain ⟨bus, hlow, hvalue, hperforms⟩ := hcourse.exists_read hsize rfl rfl hmode rfl
    have hskip : poll.left = poll.found.skip 0 := by
      rw [Registers.skip_zero, hleft]
    refine ⟨hspans.performs (hspans.performs_first hcalls hskip) hperforms, ?_⟩
    rw [hspans.calls_eq, hcalls, hlow]
    simp only [lastRead, withWait, next, latch, hsize, Word.long_zero_or] at hvalue
    rw [hvalue]
    exact Size.and_mask_of_lt (UInt32.toNat_lt _)

/-- Polls read an operand in memory at the address that a mode gives from the extension words, from
the registers at the first read, and from the program counter at the first extension word. -/
def ReadsExtended (m : Mode) (size : Size) (polls : List (Poll β)) (value : UInt32) : Prop :=
  (∀ poll ∈ polls, poll.Performs size
    (m.address size (Call.wordsRead (polls.flatMap Poll.calls))
      { Poll.foundAt Cycle.isDataRead polls with
        pc := (Poll.foundAt (· = .prefetch) polls).pc })) ∧
    value = Call.operand size ((polls.flatMap Poll.calls).drop (m.extensionWords size))

variable {m : Mode}

theorem computeAddress_take (hm : m.wellFormed = true)
    (hmode : m.category = .memory ∨ m.category = .pcRelative) (hext : m.extensionWords size = 1)
    (hr : r.mode = m) (hwords : r.words = []) (pc : Address) (w : UInt16) (regs : Registers) :
    (r.take pc w).computeAddress regs = .ok (m.address size [w] { regs with pc }) := by
  have hcodes := Mode.codes_lt hm
  obtain ⟨mode, _, _, _, _, _, _, _, _⟩ := r
  cases hr
  cases hwords
  cases mode with
  | disp n =>
    have hn : n < 8 := hcodes
    simp only [computeAddress, take, Mode.address, Word.signed, ← Word.signExtend_eq_ofInt,
      regs.address?_of_lt hn]
    rfl
  | index n =>
    have hn : n < 8 := hcodes
    have hoffset := regs.briefOffset_eq_indexed 0 w
    rw [Registers.skip_zero] at hoffset
    simp only [computeAddress, take, Mode.address, regs.address?_of_lt hn,
      Registers.indexed_withPc, List.headD_cons, ← hoffset]
    rfl
  | absShort | pcDisp =>
    simp only [Mode.address, Word.signed, ← Word.signExtend_eq_ofInt]
    rfl
  | pcIndex =>
    have hoffset := regs.briefOffset_eq_indexed 0 w
    rw [Registers.skip_zero] at hoffset
    simp only [Mode.address, Registers.indexed_withPc, List.headD_cons, ← hoffset]
    rfl
  | dataReg n | addrReg n | immediate => rcases hmode with h | h <;> cases h
  | indirect n | postInc n | preDec n | absLong => cases hext

theorem effectiveAddress_of_none (h : r.address = none) (regs : Registers) :
    r.effectiveAddress regs = r.computeAddress regs := by
  rw [effectiveAddress, h]

theorem Course.readsExtended_of_word (h : r.Course polls value) (hm : m.wellFormed = true)
    (hmode : m.category = .memory ∨ m.category = .pcRelative) (hext : m.extensionWords size = 1)
    (hr : r.mode = m) (hsize : r.size = size) (hwords : r.words = []) (haddress : r.address = none)
    (hwait : r.wait = 0) (hpending : r.pending = .prefetch :: Mode.fetch size) :
    ReadsExtended m size polls value := by
  obtain ⟨poll, others, w, hspans, hpoll, hcalls, hcourse⟩ := h.exists_prefetch hwait hpending
  have hnone : (((r.take poll.found.pc w).next .prefetch (Mode.fetch size)).withWait 0).address =
      none := haddress
  have ha := (effectiveAddress_of_none hnone (Poll.foundAt Cycle.isDataRead others)).trans
    (computeAddress_take hm hmode hext hr hwords poll.found.pc w _)
  obtain ⟨hothers, hvalue⟩ := hcourse.performs_of_fetch hsize rfl rfl (by rwa [← hr] at hmode) ha
  have hlength : [w].length = m.extensionWords size := hext.symm
  have hread_words : Call.wordsRead (polls.flatMap Poll.calls) =
      [w] ++ Call.wordsRead (others.flatMap Poll.calls) := by
    rw [hspans.calls_eq, hcalls]
    rfl
  have hread : Poll.foundAt Cycle.isDataRead polls = Poll.foundAt Cycle.isDataRead others :=
    hspans.foundAt_others rfl
  rw [ReadsExtended, hread_words, Mode.address_append hlength, hread, hspans.foundAt_self rfl]
  refine ⟨hspans.performs (hpoll size _) hothers, ?_⟩
  rw [hspans.calls_eq, hcalls, hext]
  exact hvalue

/-- An idle activity before everything else makes no difference. -/
theorem ReadsExtended.of_idle {poll : Poll β} {others : List (Poll β)}
    (hspans : poll.Spans .idle polls others) (hpoll : ∀ size a, poll.Performs size a)
    (hcalls : poll.calls = []) (h : ReadsExtended m size others value) :
    ReadsExtended m size polls value := by
  obtain ⟨hothers, hvalue⟩ := h
  have hread : Poll.foundAt Cycle.isDataRead polls = Poll.foundAt Cycle.isDataRead others :=
    hspans.foundAt_others rfl
  have hword : Poll.foundAt (· = .prefetch) polls = Poll.foundAt (· = .prefetch) others :=
    hspans.foundAt_others rfl
  have hall : polls.flatMap Poll.calls = others.flatMap Poll.calls := by
    rw [hspans.calls_eq, hcalls, List.nil_append]
  rw [ReadsExtended, hall, hread, hword]
  exact ⟨hspans.performs (hpoll size _) hothers, hvalue⟩

theorem Course.readsExtended_absLong (h : (begun .absLong size).Course polls value) :
    ReadsExtended .absLong size polls value := by
  obtain ⟨poll, others, high, hspans, hpoll, hcalls, hcourse⟩ := h.exists_prefetch rfl rfl
  obtain ⟨poll', others', low, hspans', hpoll', hcalls', hcourse'⟩ :=
    hcourse.exists_prefetch rfl rfl
  obtain ⟨hothers, hvalue⟩ := hcourse'.performs_of_fetch rfl rfl rfl (.inl rfl) rfl
  have hall : polls.flatMap Poll.calls = .readWord poll.found.pc high ::
      .readWord poll'.found.pc low :: others'.flatMap Poll.calls := by
    rw [hspans.calls_eq, hspans'.calls_eq, hcalls, hcalls']
    rfl
  rw [ReadsExtended, hall]
  exact ⟨hspans.performs (hpoll size _) (hspans'.performs (hpoll' size _) hothers), hvalue⟩

/-! ## Every mode -/

variable {first : Poll β} {later : List (Poll β)}

theorem brings_of_performs (hmode : m.category = .memory ∨ m.category = .pcRelative)
    (hmoved : m.moved size first.found = first.found)
    (h : ∀ poll ∈ first :: later, poll.Performs size (m.fixedAddress size first later))
    (hvalue : value = Call.operand size
      (((first :: later).flatMap Poll.calls).drop (m.extensionWords size))) :
    m.Brings size first later value where
  first_performs := by
    rw [hmoved]
    exact h first List.mem_cons_self
  later_perform poll hpoll := h poll (List.mem_cons_of_mem first hpoll)
  value_eq := by
    rw [hvalue]
    cases m with
    | dataReg n | addrReg n | immediate => rcases hmode with h | h <;> cases h
    | _ => rfl

theorem ReadsExtended.brings (h : ReadsExtended m size (first :: later) value)
    (hmode : m.category = .memory ∨ m.category = .pcRelative)
    (hmoved : m.moved size first.found = first.found)
    (hlatched : m.latched first later = Poll.foundAt Cycle.isDataRead (first :: later)) :
    m.Brings size first later value := by
  obtain ⟨hperforms, hvalue⟩ := h
  refine brings_of_performs hmode hmoved ?_ hvalue
  rw [Mode.fixedAddress, hlatched]
  exact hperforms

theorem Course.brings_preDec {n : UInt8} (hn : n < 8)
    (h : (begun (.preDec n) size).Course (first :: later) value) :
    (Mode.preDec n).Brings size first later value := by
  obtain ⟨poll, others, r', logged, hspans, hperform, hcalls, hcourse⟩ := h.exists_spans rfl rfl
  obtain ⟨waits, hpolls, hrests⟩ := hspans.waits
  cases hpolls
  rw [perform_preDec hn] at hperform
  simp only [Except.ok.injEq, Prod.mk.injEq] at hperform
  obtain ⟨rfl, hleft, rfl⟩ := hperform
  obtain ⟨hothers, hvalue⟩ := hcourse.performs_of_fetch rfl rfl rfl (.inl rfl) rfl
  have hfixed : (Mode.preDec n).fixedAddress size first (waits ++ others) =
      first.found.get (.address n) - size.step n := by
    show (Poll.foundAt _ _).get (.address n) - size.step n = _
    rw [hspans.foundAt_self rfl]
  -- as if the register had been moved before the first poll
  let moved : Poll β := { first with found := (Mode.preDec n).moved size first.found }
  have hmoved : moved.Spans .idle (moved :: (waits ++ others)) others :=
    ⟨hspans.recorded, waits, rfl, hrests⟩
  have hskip : moved.left = moved.found.skip 0 := by
    rw [Registers.skip_zero]
    exact hleft.symm
  have hall := hmoved.performs (hmoved.performs_first hcalls hskip) hothers
  refine ⟨?_, ?_, ?_⟩
  · rw [hfixed]
    exact hall moved List.mem_cons_self
  · rw [hfixed]
    exact fun poll hpoll => hall poll (List.mem_cons_of_mem moved hpoll)
  · rw [hvalue]
    show _ = Call.operand size _
    rw [hspans.calls_eq, hcalls]
    rfl

theorem Course.brings_of_finish (h : (begun m size).Course (first :: later) value)
    (hpattern : m.pattern size = []) (hmoved : m.moved size first.found = first.found)
    (hfinish : (begun m size).finish first.found = .ok (m.delivered size first later)) :
    m.Brings size first later value := by
  obtain ⟨poll, hpolls, hrests, hfinish'⟩ := h.exists_operand rfl hpattern
  cases hpolls
  refine ⟨?_, List.forall_mem_nil _, Except.ok.inj (hfinish'.symm.trans hfinish)⟩
  rw [hmoved]
  exact hrests.performs size _

theorem Course.brings_immediate (h : (begun .immediate size).Course (first :: later) value) :
    Mode.immediate.Brings size first later value := by
  -- one word or two, and no activity after them
  suffices hall : (∀ a, ∀ poll ∈ first :: later, poll.Performs size a) ∧
      value = Mode.immediate.delivered size first later by
    obtain ⟨hperforms, hvalue⟩ := hall
    exact ⟨hperforms _ first List.mem_cons_self,
      fun poll hpoll => hperforms _ poll (List.mem_cons_of_mem first hpoll), hvalue⟩
  show _ ∧ value = Mode.constant size _ &&& size.mask
  cases size with
  | byte | word =>
    obtain ⟨poll, others, w, hspans, hpoll, hcalls, hcourse⟩ := h.exists_prefetch rfl rfl
    obtain ⟨last, rfl, hrests, hfinish⟩ := hcourse.exists_operand rfl rfl
    refine ⟨fun a => hspans.performs (hpoll _ a) (hrests.performs_singleton _ a), ?_⟩
    rw [hspans.calls_eq, hcalls]
    exact (Except.ok.inj hfinish).symm
  | long =>
    obtain ⟨poll, others, high, hspans, hpoll, hcalls, hcourse⟩ := h.exists_prefetch rfl rfl
    obtain ⟨poll', others', low, hspans', hpoll', hcalls', hcourse'⟩ :=
      hcourse.exists_prefetch rfl rfl
    obtain ⟨last, rfl, hrests, hfinish⟩ := hcourse'.exists_operand rfl rfl
    refine ⟨fun a => hspans.performs (hpoll _ a)
      (hspans'.performs (hpoll' _ a) (hrests.performs_singleton _ a)), ?_⟩
    rw [hspans.calls_eq, hspans'.calls_eq, hcalls, hcalls']
    exact (Except.ok.inj hfinish).symm

/-- Whatever the mode is, a course from what the first poll prepares brings its operand. -/
theorem Course.brings (hm : m.wellFormed = true) {prepared : Resolution} {regs : Registers}
    (hprepare : (ofMode m size).prepare first.found = .ok (prepared, regs))
    (h : prepared.Course ({ first with found := regs } :: later) value) :
    m.Brings size first later value := by
  have hcodes := Mode.codes_lt hm
  cases m with
  | indirect n =>
    have hn : n < 8 := hcodes
    cases (prepare_indirect hn size first.found).symm.trans hprepare
    obtain ⟨hperforms, hvalue⟩ := h.performs_of_fetch rfl rfl rfl (.inl rfl) rfl
    exact brings_of_performs (.inl rfl) rfl hperforms hvalue
  | postInc n =>
    have hn : n < 8 := hcodes
    cases (prepare_postInc hn size first.found).symm.trans hprepare
    obtain ⟨hperforms, hvalue⟩ := h.performs_of_fetch rfl rfl rfl (.inl rfl) rfl
    exact ⟨hperforms _ List.mem_cons_self, fun poll hpoll => hperforms poll (.tail _ hpoll), hvalue⟩
  | dataReg n =>
    have hn : n < 8 := hcodes
    cases (prepare_eq_begun (by simp) size first.found).symm.trans hprepare
    exact brings_of_finish h rfl rfl (finish_dataReg hn size first.found)
  | addrReg n =>
    have hn : n < 8 := hcodes
    cases (prepare_eq_begun (by simp) size first.found).symm.trans hprepare
    exact brings_of_finish h rfl rfl (finish_addrReg hn size first.found)
  | preDec n =>
    have hn : n < 8 := hcodes
    cases (prepare_eq_begun (by simp) size first.found).symm.trans hprepare
    exact brings_preDec hn h
  | disp n | absShort =>
    cases (prepare_eq_begun (by simp) size first.found).symm.trans hprepare
    exact (h.readsExtended_of_word hm (.inl rfl) rfl rfl rfl rfl rfl rfl rfl).brings (.inl rfl) rfl
      rfl
  | pcDisp =>
    cases (prepare_eq_begun (by simp) size first.found).symm.trans hprepare
    exact (h.readsExtended_of_word hm (.inr rfl) rfl rfl rfl rfl rfl rfl rfl).brings (.inr rfl) rfl
      rfl
  | index n =>
    cases (prepare_eq_begun (by simp) size first.found).symm.trans hprepare
    obtain ⟨poll, others, hspans, hpoll, hcalls, hcourse⟩ :=
      h.exists_idle rfl rfl (by simp [begun, ofMode])
    have hothers := hcourse.readsExtended_of_word hm (.inl rfl) rfl rfl rfl rfl rfl rfl rfl
    exact (hothers.of_idle hspans hpoll hcalls).brings (.inl rfl) rfl rfl
  | pcIndex =>
    cases (prepare_eq_begun (by simp) size first.found).symm.trans hprepare
    obtain ⟨poll, others, hspans, hpoll, hcalls, hcourse⟩ :=
      h.exists_idle rfl rfl (by simp [begun, ofMode])
    have hothers := hcourse.readsExtended_of_word hm (.inr rfl) rfl rfl rfl rfl rfl rfl rfl
    exact (hothers.of_idle hspans hpoll hcalls).brings (.inr rfl) rfl rfl
  | absLong =>
    cases (prepare_eq_begun (by simp) size first.found).symm.trans hprepare
    exact (readsExtended_absLong h).brings (.inl rfl) rfl rfl
  | immediate =>
    cases (prepare_eq_begun (by simp) size first.found).symm.trans hprepare
    exact brings_immediate h

end Resolution

theorem Mode.Brings.halves [Bus β] {m : Mode} {first high low : Poll β} {later : List (Poll β)}
    {value : UInt32} (h : m.Brings .long first later value) (hhigh : high ∈ first :: later)
    (hlow : low ∈ first :: later) (hreadHigh : high.recorded = [.readHigh])
    (hread : low.recorded = [.read]) :
    ∃ a v w, high.calls = [.readWord a v] ∧ low.calls = [.readWord (a + 2) w] := by
  let a := m.fixedAddress .long first later
  have hcalls (poll : Poll β) (hpoll : poll ∈ first :: later) :
      ∃ pc, poll.calls = poll.recorded.flatMap (Cycle.calls .long a pc poll.bus) := by
    rcases List.mem_cons.mp hpoll with rfl | hlater
    · exact ⟨_, h.first_performs.calls⟩
    · exact ⟨_, (h.later_perform poll hlater).calls⟩
  obtain ⟨_, hhighCalls⟩ := hcalls high hhigh
  obtain ⟨_, hlowCalls⟩ := hcalls low hlow
  rw [hreadHigh] at hhighCalls
  rw [hread] at hlowCalls
  exact ⟨a, _, _, hhighCalls, hlowCalls⟩

/-! ## Any changes -/

namespace Cpu

variable [Bus β] {m : Mode} {cpu : Cpu} {size : Size}

theorem delivery_of_course (hm : m.wellFormed = true) {first : Poll β} {later : List (Poll β)}
    {prepared : Resolution} {regs : Registers} {value : UInt32}
    (hprepare : (Resolution.ofMode m size).prepare first.found = .ok (prepared, regs))
    (h : prepared.Course ({ first with found := regs } :: later) value) :
    m.Delivery size first later value := by
  obtain ⟨hextends, -⟩ := Resolution.extends_of_prepare hprepare
  have hwait : prepared.wait = 0 := hextends.wait
  have hpending : prepared.pending = m.pattern size := hextends.pending
  have hticks : prepared.ticksLeft = Cycle.totalTicks (m.pattern size) := by
    rw [Resolution.ticksLeft, hwait, hpending, Nat.zero_add]
  refine ⟨h.brings hm hprepare, ?_, ?_, ?_⟩
  · rw [← hticks]
    exact h.answers
  · rw [← hpending]
    exact h.recorded
  · intro j c hc
    rw [← hpending] at hc ⊢
    have hbegins := h.begins hc
    rw [hwait, Nat.zero_add] at hbegins
    exact hbegins

/-- Whatever changes come before its polls, an operand is delivered. -/
theorem exists_delivery (hm : m.wellFormed = true) (size : Size) (hidle : cpu.operand = none)
    (bus : β) {changes : List (Change β)}
    (hlength : changes.length = Cycle.totalTicks (m.pattern size) + 1) :
    ∃ begun first later value last bus',
      cpu.beginOperand m size = .ok begun ∧
      begun.polls bus changes = .ok (first :: later, last, bus') ∧
      m.Delivery size first later value ∧
      (size = .long → ∀ high ∈ first :: later, ∀ low ∈ first :: later,
        high.recorded = [.readHigh] → low.recorded = [.read] →
          ∃ a v w, high.calls = [.readWord a v] ∧ low.calls = [.readWord (a + 2) w]) ∧
      last.operand = none ∧
      last.ledger.transactions = cpu.ledger.transactions ++ m.pattern size := by
  let begun : Cpu := { cpu with operand := some (.ofMode m size) }
  have hbegin : cpu.beginOperand m size = .ok begun := by
    rw [beginOperand, hidle]
  have hoperand : begun.operand = some (.ofMode m size) := rfl
  have hticks : changes.length = (Resolution.ofMode m size).ticksLeft + 1 := by
    rw [hlength, Resolution.ticksLeft]
    exact congrArg (· + 1) (Nat.zero_add _).symm
  obtain ⟨first, later, prepared, regs, value, last, bus', hpolls, hprepare, hcourse, hlast⟩ :=
    exists_course hoperand (Resolution.sound_ofMode size hm) bus hticks
  have hdelivery := delivery_of_course hm hprepare hcourse
  refine ⟨begun, first, later, value, last, bus', hbegin, hpolls, hdelivery, ?_, hlast⟩
  rintro rfl high hhigh low hlow hreadHigh hread
  exact hdelivery.halves hhigh hlow hreadHigh hread

/-- 0(A0) at long size, with the program counter set before the extension word is taken, the
address register before the high word is read and both it and the low word before the low word is
read. -/
theorem exists_delivery_disturbed :
    let cpu : Cpu := {}
    let ram := (Ram.zeroed 4 (by decide)).setWord 8 0x1234
    let changes : List (Change Ram) :=
      [fun (regs, ram) => ({ regs with pc := 4 }, ram), id,
        fun (regs, ram) => (regs.set (.address 0) 8, ram), id,
        fun (regs, ram) => (regs.set (.address 0) 0, ram.setWord 10 0x5678), id, id]
    (Mode.disp 0).wellFormed = true ∧ cpu.operand = none ∧
      changes.length = Cycle.totalTicks ((Mode.disp 0).pattern .long) + 1 ∧
      ∃ begun first later last bus',
        cpu.beginOperand (.disp 0) .long = .ok begun ∧
        begun.polls ram changes = .ok (first :: later, last, bus') ∧
        (Mode.disp 0).Delivery .long first later 0x12345678 := by
  intro cpu ram changes
  have hm : (Mode.disp 0).wellFormed = true := rfl
  have hidle : cpu.operand = none := rfl
  have hlength : changes.length = Cycle.totalTicks ((Mode.disp 0).pattern .long) + 1 := rfl
  obtain ⟨begun, first, later, value, last, bus', hbegin, hpolls, hdelivery, -⟩ :=
    exists_delivery hm .long hidle ram hlength
  have hanswers : (do
      let begun ← cpu.beginOperand (.disp 0) .long
      let (polls, _) ← begun.polls ram changes
      return polls.map Poll.answer) =
        .ok (List.replicate 6 none ++ [some 0x12345678]) := by
    decide
  rw [hbegin] at hanswers
  dsimp only [bind, Except.bind] at hanswers
  rw [hpolls] at hanswers
  cases hdelivery.answers.symm.trans (Except.ok.inj hanswers)
  exact ⟨hm, hidle, hlength, begun, first, later, last, bus', hbegin, hpolls, hdelivery⟩

end Cpu

end Compare68k
