import Compare68k.Instruction.Descent
import Mathlib.Data.List.Infix
/-!
# Resolutions that cannot fail

A resolution that was begun for a mode with a register that the processor has stays sound under
polls, and under every change of registers and memory between them.  Main statement: in a sound
resolution the next bus activity always succeeds, because the operand's address is known by the
time of the first read.
-/

namespace Compare68k

namespace Registers

theorem address?_of_lt (regs : Registers) {n : UInt8} (h : n < 8) :
    regs.address? n = .ok (regs.get (.address n)) := by
  have hlt : n.toNat < 8 := h
  have hposition : position n = ⟨n.toNat, hlt⟩ := Fin.ext (Nat.mod_eq_of_lt hlt)
  simp only [address?, dif_pos hlt, get, hposition, Fin.getElem_fin]

theorem data?_of_lt (regs : Registers) {n : UInt8} (h : n < 8) :
    regs.data? n = .ok (regs.get (.data n)) := by
  have hlt : n.toNat < 8 := h
  have hposition : position n = ⟨n.toNat, hlt⟩ := Fin.ext (Nat.mod_eq_of_lt hlt)
  simp only [data?, dif_pos hlt, get, hposition, Fin.getElem_fin]

end Registers

theorem Mode.codes_lt {m : Mode} (h : m.wellFormed = true) : m.codes.2 < 8 :=
  of_decide_eq_true h

namespace Resolution

variable {β : Type} [Bus β] {r r' : Resolution} {c : Cycle} {cs : List Cycle}

/-- What is true of a resolution from its beginning to its end.  The modes that need no extension
word know their address early: pre-decrement from its idle activity on, the others from the
first poll on. -/
structure Sound (r : Resolution) : Prop where
  wellFormed : r.mode.wellFormed = true
  pending_suffix : r.pending <:+ r.mode.pattern r.size
  wait_le : r.wait ≤ 1
  address_of_started : ∀ n, r.mode = .indirect n ∨ r.mode = .postInc n → r.started = true →
    r.address.isSome = true
  address_of_moved : ∀ n, r.mode = .preDec n → .idle ∉ r.pending → r.address.isSome = true

structure Extends (r r' : Resolution) : Prop where
  mode : r'.mode = r.mode
  size : r'.size = r.size
  pending : r'.pending = r.pending
  wait : r'.wait = r.wait
  started : r.started = true → r'.started = true
  address : r.address.isSome = true → r'.address.isSome = true

theorem sound_ofMode {m : Mode} (size : Size) (h : m.wellFormed = true) :
    (ofMode m size).Sound where
  wellFormed := h
  pending_suffix := List.suffix_refl _
  wait_le := Nat.zero_le 1
  address_of_started := by
    intro n _ hstarted
    cases hstarted
  address_of_moved := by
    intro n hmode hidle
    have hm : m = .preDec n := hmode
    rw [hm] at hidle
    exact absurd (List.mem_cons_self) hidle

/-! ## Preparation -/

theorem extends_of_prepare {regs regs' : Registers} (h : r.prepare regs = .ok (r', regs')) :
    r.Extends r' ∧ r'.started = true := by
  unfold prepare at h
  split at h
  · rename_i hstarted
    cases h
    exact ⟨⟨rfl, rfl, rfl, rfl, id, id⟩, hstarted⟩
  · unfold start at h
    split at h
    case h_3 =>
      cases h
      exact ⟨⟨rfl, rfl, rfl, rfl, fun _ => rfl, id⟩, rfl⟩
    all_goals
      obtain ⟨a, -, h⟩ := exists_of_bind h
      cases h
      exact ⟨⟨rfl, rfl, rfl, rfl, fun _ => rfl, fun _ => rfl⟩, rfl⟩

theorem exists_prepare (h : r.Sound) (regs : Registers) :
    ∃ r' regs', r.prepare regs = .ok (r', regs') ∧ r'.Sound := by
  have hcodes := Mode.codes_lt h.wellFormed
  unfold prepare
  split
  · exact ⟨r, regs, rfl, h⟩
  · unfold start
    split
    case h_1 n hmode | h_2 n hmode =>
      have hn : n < 8 := by rwa [hmode] at hcodes
      rw [regs.address?_of_lt hn]
      exact ⟨_, _, rfl, h.wellFormed, h.pending_suffix, h.wait_le, fun _ _ _ => rfl,
        fun _ _ _ => rfl⟩
    case h_3 hindirect hpostInc =>
      refine ⟨_, _, rfl, h.wellFormed, h.pending_suffix, h.wait_le, ?_, h.address_of_moved⟩
      rintro n (hmode | hmode)
      · exact absurd hmode (hindirect n)
      · exact absurd hmode (hpostInc n)

/-! ## Bus activities -/

theorem extends_of_perform {regs regs' : Registers} {bus bus' : β}
    (h : r.perform c regs bus = .ok (r', regs', bus')) : r.Extends r' := by
  unfold perform at h
  split at h
  · split at h
    · obtain ⟨a, -, h⟩ := exists_of_bind h
      cases h
      exact ⟨rfl, rfl, rfl, rfl, id, fun _ => rfl⟩
    · cases h
      exact ⟨rfl, rfl, rfl, rfl, id, id⟩
  · cases h
    exact ⟨rfl, rfl, rfl, rfl, id, id⟩
  · obtain ⟨a, -, h⟩ := exists_of_bind h
    cases h
    exact ⟨rfl, rfl, rfl, rfl, id, fun _ => rfl⟩
  · obtain ⟨a, -, h⟩ := exists_of_bind h
    split at h <;>
    · cases h
      exact ⟨rfl, rfl, rfl, rfl, id, fun _ => rfl⟩
  · cases h
    exact ⟨rfl, rfl, rfl, rfl, id, id⟩
  · cases h
    exact ⟨rfl, rfl, rfl, rfl, id, id⟩

theorem Sound.idle_notMem {n : UInt8} (h : r.Sound) (hmode : r.mode = .preDec n)
    (hpending : r.pending = c :: cs) (hc : c ≠ .idle) : .idle ∉ r.pending := by
  have hsuffix := h.pending_suffix
  rw [hmode, hpending] at hsuffix
  rw [hpending]
  intro hidle
  rcases List.suffix_cons_iff.mp hsuffix with heq | hfetch
  · exact hc (List.cons.inj heq).1
  · have hmem := hfetch.mem hidle
    cases hsize : r.size <;> simp [hsize, Mode.fetch] at hmem

theorem Sound.exists_effectiveAddress (h : r.Sound) (hstarted : r.started = true)
    (hpending : r.pending = c :: cs) (hc : c = .readHigh ∨ c = .read) (regs : Registers) :
    ∃ a, r.effectiveAddress regs = .ok a := by
  have hcodes := Mode.codes_lt h.wellFormed
  have hmem : c ∈ r.mode.pattern r.size := h.pending_suffix.mem (by simp [hpending])
  unfold effectiveAddress
  cases haddress : r.address with
  | some a => exact ⟨a, rfl⟩
  | none =>
    -- the modes that compute their address can do so at any time; the others have fixed it by now
    have hnone : ¬ r.address.isSome = true := by simp [haddress]
    unfold computeAddress
    cases hmode : r.mode with
    | dataReg n | addrReg n => simp [hmode, Mode.pattern] at hmem
    | immediate =>
      rw [hmode, Mode.pattern] at hmem
      rcases hc with rfl | rfl <;> split at hmem <;> simp at hmem
    | indirect n => exact absurd (h.address_of_started n (.inl hmode) hstarted) hnone
    | postInc n => exact absurd (h.address_of_started n (.inr hmode) hstarted) hnone
    | preDec n =>
      have hidle : c ≠ .idle := by rcases hc with rfl | rfl <;> decide
      exact absurd (h.address_of_moved n hmode (h.idle_notMem hmode hpending hidle)) hnone
    | disp n | index n =>
      have hn : n < 8 := by rwa [hmode] at hcodes
      dsimp only
      rw [regs.address?_of_lt hn]
      exact ⟨_, rfl⟩
    | absShort | absLong | pcDisp | pcIndex => exact ⟨_, rfl⟩

def next (r : Resolution) (c : Cycle) (cs : List Cycle) : Resolution :=
  { r with pending := cs, wait := c.ticks - 1 }

theorem Sound.next (h : r.Sound) (hstarted : r.started = true) (hpending : r.pending = c :: cs)
    (hextends : r.Extends r')
    (hmoved : ∀ n, r.mode = .preDec n → c = .idle → r'.address.isSome = true) :
    (r'.next c cs).Sound where
  wellFormed := by
    have hmode : r'.mode.wellFormed = true := hextends.mode ▸ h.wellFormed
    exact hmode
  pending_suffix := by
    have hsuffix : cs <:+ r'.mode.pattern r'.size := by
      rw [hextends.mode, hextends.size]
      exact (List.suffix_cons c cs).trans (hpending ▸ h.pending_suffix)
    exact hsuffix
  wait_le := by
    show c.ticks - 1 ≤ 1
    cases c <;> decide
  address_of_started := by
    intro n hmode _
    have hmode' : r.mode = .indirect n ∨ r.mode = .postInc n := hextends.mode ▸ hmode
    exact hextends.address (h.address_of_started n hmode' hstarted)
  address_of_moved := by
    intro n hmode _
    have hmode' : r.mode = .preDec n := hextends.mode.symm.trans hmode
    by_cases hc : c = .idle
    · exact hmoved n hmode' hc
    · exact hextends.address (h.address_of_moved n hmode' (h.idle_notMem hmode' hpending hc))

theorem Sound.exists_perform_idle (h : r.Sound) (regs : Registers) (bus : β) :
    ∃ r' regs', r.perform .idle regs bus = .ok (r', regs', bus) ∧
      ∀ n, r.mode = .preDec n → r'.address.isSome = true := by
  have hcodes := Mode.codes_lt h.wellFormed
  unfold perform
  dsimp only
  split
  · rename_i n hmode
    have hn : n < 8 := by rwa [hmode] at hcodes
    rw [regs.address?_of_lt hn]
    exact ⟨_, _, rfl, fun _ _ => rfl⟩
  · rename_i hmode
    exact ⟨r, regs, rfl, fun n hn => absurd hn (hmode n)⟩

theorem Sound.exists_perform (h : r.Sound) (hstarted : r.started = true)
    (hpending : r.pending = c :: cs) (regs : Registers) (bus : β) :
    ∃ r' regs' bus', r.perform c regs bus = .ok (r', regs', bus') ∧ (r'.next c cs).Sound := by
  have hnext : ∀ {r' : Resolution} {regs' : Registers} {bus' : β}, c ≠ .idle →
      r.perform c regs bus = .ok (r', regs', bus') → (r'.next c cs).Sound := by
    intro r' regs' bus' hc hperform
    exact h.next hstarted hpending (extends_of_perform hperform)
      (fun _ _ hidle => absurd hidle hc)
  cases c with
  | idle =>
    obtain ⟨r', regs', hperform, hmoved⟩ := h.exists_perform_idle regs bus
    exact ⟨r', regs', bus, hperform, h.next hstarted hpending (extends_of_perform hperform)
      (fun n hmode _ => hmoved n hmode)⟩
  | prefetch | write | writeHigh => exact ⟨_, _, _, rfl, hnext (by decide) rfl⟩
  | readHigh =>
    obtain ⟨a, ha⟩ := h.exists_effectiveAddress hstarted hpending (.inl rfl) regs
    have hperform : r.perform .readHigh regs bus =
        .ok ({ r with address := some a, value := Word.long (Bus.readWord bus a).1 0 }, regs,
          (Bus.readWord bus a).2) := by
      simp only [perform, ha]
      rfl
    exact ⟨_, _, _, hperform, hnext (by decide) hperform⟩
  | read =>
    obtain ⟨a, ha⟩ := h.exists_effectiveAddress hstarted hpending (.inr rfl) regs
    cases hresult : r.perform .read regs bus with
    | ok result => exact ⟨_, _, _, rfl, hnext (by decide) hresult⟩
    | error f =>
      simp only [perform, ha] at hresult
      cases hsize : r.size <;> simp [hsize, bind, Except.bind, pure, Except.pure] at hresult

theorem Sound.exists_finish (h : r.Sound) (regs : Registers) :
    ∃ value, r.finish regs = .ok value := by
  have hcodes := Mode.codes_lt h.wellFormed
  unfold finish
  cases hmode : r.mode with
  | dataReg n =>
    have hn : n < 8 := by rwa [hmode] at hcodes
    dsimp only
    rw [regs.data?_of_lt hn]
    exact ⟨_, rfl⟩
  | addrReg n =>
    have hn : n < 8 := by rwa [hmode] at hcodes
    dsimp only
    rw [regs.address?_of_lt hn]
    exact ⟨_, rfl⟩
  | immediate => cases r.size <;> exact ⟨_, rfl⟩
  | _ => exact ⟨_, rfl⟩

end Resolution

end Compare68k
