import Compare68k.Proofs.Operand.Resolve
/-!
# What reading an operand changes

Reading an operand moves the program counter past extension words, and two of the modes move the
address register that they name.  `Mode.stride` is that movement and `Resolution.shift` the part of
it that a resolution has made.  Main statement: a poll leaves the data registers and the status
register alone, and moves each address register by what its resolution adds to its shift.
-/

namespace Compare68k

def Mode.stride (m : Mode) (size : Size) (n : Fin 8) : UInt32 :=
  match m with
  | postInc r => if Registers.position r = n then size.step r else 0
  | preDec r => if Registers.position r = n then -size.step r else 0
  | _ => 0

namespace Registers

/-- The second register file is the first with address registers moved by the given amounts.  The
program counter may be anywhere. -/
structure Moved (regs : Registers) (shift : Fin 8 → UInt32) (regs' : Registers) : Prop where
  data : regs'.data = regs.data
  status : regs'.status = regs.status
  address : ∀ n, regs'.address[n] = regs.address[n] + shift n

variable {regs regs' regs'' : Registers} {x y z : Fin 8 → UInt32}

theorem Moved.of_eq (hdata : regs'.data = regs.data) (hstatus : regs'.status = regs.status)
    (haddress : regs'.address = regs.address) : regs.Moved (fun n => x n - x n) regs' where
  data := hdata
  status := hstatus
  address n := by rw [haddress, UInt32.sub_self, UInt32.add_zero]

theorem Moved.congr (h : regs.Moved x regs') (heq : ∀ n, x n = y n) : regs.Moved y regs' where
  data := h.data
  status := h.status
  address n := by rw [h.address, heq]

theorem Moved.trans (h : regs.Moved (fun n => y n - x n) regs')
    (h' : regs'.Moved (fun n => z n - y n) regs'') : regs.Moved (fun n => z n - x n) regs'' where
  data := h'.data.trans h.data
  status := h'.status.trans h.status
  address n := by
    rw [h'.address, h.address]
    grind

theorem moved_set_address {regs : Registers} {r : UInt8} {a : UInt32} (d : UInt32)
    (h : regs.address? r = .ok a) :
    regs.Moved (fun n => if position r = n then d else 0) (regs.set (.address r) (a + d)) where
  data := rfl
  status := rfl
  address n := by
    unfold address? at h
    split at h
    case isFalse => cases h
    case isTrue hlt =>
      cases h
      have hposition : position r = ⟨r.toNat, hlt⟩ := Fin.ext (Nat.mod_eq_of_lt hlt)
      simp only [set, hposition, Fin.getElem_fin, Vector.getElem_set, Fin.ext_iff]
      split
      · rename_i heq
        simp only [heq]
      · rw [UInt32.add_zero]

end Registers

namespace Resolution

variable {β : Type} [Bus β] {r r' : Resolution} {c : Cycle} {cs : List Cycle}
  {regs regs' : Registers} {bus bus' : β}

/-- Whether a resolution has got to the point at which its mode moves its register: the idle
activity of pre-decrement, and the first poll of post-increment. -/
def hasMoved (r : Resolution) : Bool :=
  match r.mode with
  | .preDec _ => .idle ∉ r.pending
  | _ => r.started

def shift (r : Resolution) (n : Fin 8) : UInt32 :=
  if r.hasMoved then r.mode.stride r.size n else 0

theorem shift_ofMode (m : Mode) (size : Size) (n : Fin 8) : (ofMode m size).shift n = 0 := by
  cases m with
  | preDec r => simp [shift, hasMoved, ofMode, Mode.pattern]
  | _ => rfl

theorem shift_of_prepared (hstarted : r.started = true) (hpending : r.pending = []) (n : Fin 8) :
    r.shift n = r.mode.stride r.size n := by
  have hmoved : r.hasMoved = true := by
    unfold hasMoved
    rw [hpending, hstarted]
    cases r.mode <;> simp
  rw [shift, if_pos hmoved]

theorem moved_of_prepare (h : r.prepare regs = .ok (r', regs')) :
    regs.Moved (fun n => r'.shift n - r.shift n) regs' := by
  unfold prepare at h
  split at h
  case isTrue =>
    cases h
    exact .of_eq rfl rfl rfl
  case isFalse hstarted =>
    unfold start at h
    split at h
    case h_1 m hmode =>
      obtain ⟨a, -, h⟩ := exists_of_bind h
      cases h
      have hstays : ∀ n, ({ r with started := true, address := some a } : Resolution).shift n =
          r.shift n := by
        intro n
        simp [shift, hmode, Mode.stride]
      simp only [hstays]
      exact .of_eq rfl rfl rfl
    case h_2 m hmode =>
      obtain ⟨a, ha, h⟩ := exists_of_bind h
      cases h
      have hbefore : ∀ n, r.shift n = 0 := by
        intro n
        simp [shift, hasMoved, hmode, hstarted]
      have hafter : ∀ n, ({ r with started := true, address := some a } : Resolution).shift n =
          if Registers.position m = n then r.size.step m else 0 := by
        intro n
        simp [shift, hasMoved, hmode, Mode.stride]
      simp only [hbefore, hafter, UInt32.sub_zero]
      exact Registers.moved_set_address (r.size.step m) ha
    case h_3 hindirect hpostInc =>
      cases h
      have hstays : ∀ n, ({ r with started := true } : Resolution).shift n = r.shift n := by
        intro n
        unfold shift hasMoved Mode.stride
        cases hmode : r.mode with
        | postInc m => exact absurd hmode (hpostInc m)
        | preDec m => rfl
        | _ => simp
      simp only [hstays]
      exact .of_eq rfl rfl rfl

theorem still_of_perform (hc : ∀ m, r.mode = .preDec m → c ≠ .idle)
    (h : r.perform c regs bus = .ok (r', regs', bus')) :
    r'.started = r.started ∧ regs'.data = regs.data ∧ regs'.status = regs.status ∧
      regs'.address = regs.address := by
  cases c with
  | idle =>
    simp only [perform] at h
    split at h
    · rename_i m hmode
      exact absurd rfl (hc m hmode)
    · cases h
      exact ⟨rfl, rfl, rfl, rfl⟩
  | prefetch =>
    cases h
    exact ⟨rfl, rfl, rfl, rfl⟩
  | readHigh =>
    obtain ⟨a, -, h⟩ := exists_of_bind h
    cases h
    exact ⟨rfl, rfl, rfl, rfl⟩
  | read =>
    obtain ⟨a, -, h⟩ := exists_of_bind h
    split at h <;>
    · cases h
      exact ⟨rfl, rfl, rfl, rfl⟩
  | write | writeHigh =>
    cases h
    exact ⟨rfl, rfl, rfl, rfl⟩

theorem shift_next_of_still (hr : r.Sound) (hpending : r.pending = c :: cs)
    (hc : ∀ m, r.mode = .preDec m → c ≠ .idle) (hextends : r.Extends r')
    (hstarted : r'.started = r.started) (n : Fin 8) : (r'.next c cs).shift n = r.shift n := by
  have hmoved : (r'.next c cs).hasMoved = r.hasMoved := by
    show (match r'.mode with | .preDec _ => decide (Cycle.idle ∉ cs) | _ => r'.started) = _
    rw [hasMoved, hextends.mode, hstarted]
    cases hmode : r.mode with
    | preDec m =>
      have hbefore := hr.idle_notMem hmode hpending (hc m hmode)
      have hafter : Cycle.idle ∉ cs := by
        rw [hpending] at hbefore
        exact fun hmem => hbefore (List.mem_cons_of_mem c hmem)
      exact (decide_eq_true hafter).trans (decide_eq_true hbefore).symm
    | _ => rfl
  show (if (r'.next c cs).hasMoved then r'.mode.stride r'.size n else 0) = _
  rw [hmoved, hextends.mode, hextends.size, shift]

/-- The idle activity of pre-decrement comes first, and it moves the register. -/
theorem moved_of_idle {m : UInt8} (hr : r.Sound) (hmode : r.mode = .preDec m)
    (hpending : r.pending = .idle :: cs) (h : r.perform .idle regs bus = .ok (r', regs', bus')) :
    regs.Moved (fun n => (r'.next .idle cs).shift n - r.shift n) regs' := by
  -- the pattern of pre-decrement has one idle activity, and this is it
  have hidle : Cycle.idle ∉ cs := by
    have hsuffix := hr.pending_suffix
    rw [hmode, hpending] at hsuffix
    intro hmem
    rcases List.suffix_cons_iff.mp hsuffix with heq | hfetch
    · rw [(List.cons.inj heq).2] at hmem
      cases hsize : r.size <;> simp [hsize, Mode.fetch] at hmem
    · have hmem' := hfetch.mem List.mem_cons_self
      cases hsize : r.size <;> simp [hsize, Mode.fetch] at hmem'
  have hextends := extends_of_perform h
  have hmode' : (r'.next .idle cs).mode = .preDec m := hextends.mode.trans hmode
  have hsize' : (r'.next .idle cs).size = r.size := hextends.size
  have hpending' : (r'.next .idle cs).pending = cs := rfl
  have hbefore : ∀ n, r.shift n = 0 := by
    intro n
    simp [shift, hasMoved, hmode, hpending]
  have hafter : ∀ n, (r'.next .idle cs).shift n =
      if Registers.position m = n then -r.size.step m else 0 := by
    intro n
    simp [shift, hasMoved, hmode', hsize', hpending', hidle, Mode.stride]
  simp only [hbefore, hafter, UInt32.sub_zero]
  simp only [perform, hmode] at h
  obtain ⟨a, ha, h⟩ := exists_of_bind h
  cases h
  rw [UInt32.sub_eq_add_neg]
  exact Registers.moved_set_address (-r.size.step m) ha

theorem moved_of_perform (hr : r.Sound) (hpending : r.pending = c :: cs)
    (h : r.perform c regs bus = .ok (r', regs', bus')) :
    regs.Moved (fun n => (r'.next c cs).shift n - r.shift n) regs' := by
  by_cases hc : ∀ m, r.mode = .preDec m → c ≠ .idle
  · obtain ⟨hstarted, hdata, hstatus, haddress⟩ := still_of_perform hc h
    simp only [shift_next_of_still hr hpending hc (extends_of_perform h) hstarted]
    exact .of_eq hdata hstatus haddress
  · simp only [not_forall, ne_eq, not_not] at hc
    obtain ⟨m, hmode, rfl⟩ := hc
    exact moved_of_idle hr hmode hpending h

end Resolution

namespace Cpu

variable {β : Type} [Bus β] {cpu cpu' : Cpu} {r : Resolution} {bus bus' : β}

theorem pollStarted_cases (h : cpu.pollStarted r bus = .ok (none, cpu', bus')) :
    (∃ k, r.wait = k + 1 ∧ cpu' = { cpu with operand := some (r.withWait k) }) ∨
      ∃ c cs r' regs', r.pending = c :: cs ∧ r.perform c cpu.registers bus = .ok (r', regs', bus') ∧
        cpu' =
          { cpu with
            registers := regs'
            operand := some (r'.next c cs)
            ledger := cpu.ledger.record c } := by
  unfold pollStarted at h
  split at h
  · rename_i k hwait
    cases h
    exact .inl ⟨k, hwait, rfl⟩
  · rename_i c cs hwait hpending
    obtain ⟨⟨r', regs', bus₁⟩, hperform, h⟩ := exists_of_bind h
    cases h
    exact .inr ⟨c, cs, r', regs', hpending, hperform, rfl⟩
  · obtain ⟨value, -, h⟩ := exists_of_bind h
    cases h

structure Waited (cpu : Cpu) (r : Resolution) (cpu' : Cpu) (r' : Resolution) : Prop where
  operand : cpu'.operand = some r'
  moved : cpu.registers.Moved (fun n => r'.shift n - r.shift n) cpu'.registers
  recorded : ∃ cs, cpu'.ledger.transactions = cpu.ledger.transactions ++ cs ∧ cs.length ≤ 1
  /-- The activity under way is the last one in the log. -/
  current : r'.wait = 1 → ∃ c, cpu'.ledger.transactions.getLast? = some c ∧ c.cycles = 4

theorem waited_of_pollStarted (hr : r.Sound) (h : cpu.pollStarted r bus = .ok (none, cpu', bus')) :
    ∃ r', cpu.Waited r cpu' r' := by
  rcases pollStarted_cases h with ⟨k, hwait, rfl⟩ | ⟨c, cs, r', regs', hpending, hperform, rfl⟩
  · have hle := hr.wait_le
    refine ⟨_, rfl, .of_eq rfl rfl rfl, ⟨[], (List.append_nil _).symm, Nat.zero_le 1⟩, ?_⟩
    intro hone
    have hk : k = 1 := hone
    omega
  · refine ⟨_, rfl, Resolution.moved_of_perform hr hpending hperform,
      ⟨[c], rfl, Nat.le_refl 1⟩, ?_⟩
    intro hone
    have hticks : c.ticks - 1 = 1 := hone
    refine ⟨c, List.getLast?_concat, ?_⟩
    rw [c.cycles_eq_ticks]
    omega

theorem waited_of_poll (ho : cpu.operand = some r) (hr : r.Sound)
    (h : cpu.poll bus = .ok (none, cpu', bus')) : ∃ r', cpu.Waited r cpu' r' := by
  rw [poll, ho] at h
  obtain ⟨⟨r₁, regs⟩, hprepare, h⟩ := exists_of_bind h
  obtain ⟨r₂, regs₂, hprepare', hsound⟩ := Resolution.exists_prepare hr cpu.registers
  cases hprepare.symm.trans hprepare'
  obtain ⟨r', hwaited⟩ := waited_of_pollStarted hsound h
  exact ⟨r', hwaited.operand, (Resolution.moved_of_prepare hprepare).trans hwaited.moved,
    hwaited.recorded, hwaited.current⟩

theorem pending_of_pollStarted {value : UInt32}
    (h : cpu.pollStarted r bus = .ok (some value, cpu', bus')) :
    r.pending = [] ∧ cpu' = { cpu with operand := none } := by
  unfold pollStarted at h
  split at h
  · cases h
  · obtain ⟨⟨r', regs', bus₁⟩, -, h⟩ := exists_of_bind h
    cases h
  · rename_i hwait hpending
    obtain ⟨v, -, h⟩ := exists_of_bind h
    cases h
    exact ⟨hpending, rfl⟩

theorem moved_of_poll {value : UInt32} (ho : cpu.operand = some r)
    (h : cpu.poll bus = .ok (some value, cpu', bus')) :
    ∃ regs, cpu' = { cpu with registers := regs, operand := none } ∧
      cpu.registers.Moved (fun n => r.mode.stride r.size n - r.shift n) regs := by
  rw [poll, ho] at h
  obtain ⟨⟨r₁, regs⟩, hprepare, h⟩ := exists_of_bind h
  obtain ⟨hextends, hstarted⟩ := Resolution.extends_of_prepare hprepare
  obtain ⟨hpending, rfl⟩ := pending_of_pollStarted h
  have hmoved := Resolution.moved_of_prepare hprepare
  simp only [Resolution.shift_of_prepared hstarted hpending, hextends.mode, hextends.size] at hmoved
  exact ⟨regs, rfl, hmoved⟩

end Cpu

end Compare68k
