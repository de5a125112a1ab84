import Compare68k.Proofs.Instruction.Encoding
/-!
# Installing classes

What installing a class does to the dispatch tables: it enters the class at the opcodes that it
encodes and changes nothing else.  Main statement: whatever classes are installed, in whatever order
and however often, each opcode has the one installed class that encodes it, in both tables, and the
opcode gives back the values that it was entered with.
-/

namespace Compare68k

namespace Dispatch

variable {d : Dispatch} {c : Class} {op : Opcode} {cs : List Class}

def entries (d : Dispatch) (op : Opcode) : Option Class × Option Class :=
  (d.executor op, d.printer op)

theorem entries_empty (op : Opcode) : empty.entries op = (none, none) :=
  Prod.ext (Vector.getElem_replicate op.toNat_lt_size) (Vector.getElem_replicate op.toNat_lt_size)

theorem entries_enter (d : Dispatch) (op op' : Opcode) (c : Class) :
    (d.enter op' c).entries op = if op' = op then (some c, some c) else d.entries op := by
  have hset (table : Vector (Option Class) UInt16.size) :
      (table.set op'.toNat (some c) op'.toNat_lt_size).get op.toFin =
        if op' = op then some c else table.get op.toFin := by
    have hget : (table.set op'.toNat (some c) op'.toNat_lt_size).get op.toFin =
        if op'.toNat = op.toNat then some c else table.get op.toFin :=
      Vector.getElem_set op'.toNat_lt_size op.toNat_lt_size
    simpa only [UInt16.toNat_inj] using hget
  rw [entries, executor, printer, enter, hset, hset]
  split <;> rfl

theorem entries_foldl_enter (fs : List Form) (d : Dispatch) :
    (fs.foldl (fun d f => d.enter (c.opcode f) c) d).entries op =
      if ∃ f ∈ fs, c.opcode f = op then (some c, some c) else d.entries op := by
  induction fs generalizing d with
  | nil => simp
  | cons f fs ih =>
    rw [List.foldl_cons, ih, entries_enter]
    by_cases hf : c.opcode f = op
    · simp [hf]
    · simp [hf]

/-- A class is entered at its opcodes and nowhere else. -/
theorem entries_install (d : Dispatch) (c : Class) (op : Opcode) :
    (d.install c).entries op = if c.Encodes op then (some c, some c) else d.entries op := by
  have hforms : (∃ f ∈ c.forms, c.opcode f = op) ↔ c.Encodes op :=
    ⟨fun ⟨_, hf, hop⟩ => hop ▸ Class.encodes_opcode hf, Class.exists_form⟩
  rw [install, entries_foldl_enter]
  simp only [hforms]

theorem entries_foldl_install_of_not (h : ∀ c ∈ cs, ¬ c.Encodes op) (d : Dispatch) :
    (cs.foldl install d).entries op = d.entries op := by
  induction cs generalizing d with
  | nil => rfl
  | cons c cs ih =>
    rw [List.foldl_cons, ih (fun c hc => h c (List.mem_cons_of_mem _ hc)), entries_install,
      if_neg (h c List.mem_cons_self)]

theorem entries_foldl_install (hc : c ∈ cs) (h : c.Encodes op) (d : Dispatch) :
    (cs.foldl install d).entries op = (some c, some c) := by
  induction cs generalizing d with
  | nil => cases hc
  | cons b cs ih =>
    rw [List.foldl_cons]
    by_cases hlater : c ∈ cs
    · exact ih hlater _
    · have hb : c = b := (List.mem_cons.mp hc).resolve_right hlater
      subst hb
      -- This is the last time that the class is installed, and no other one gets here.
      have hother : ∀ e ∈ cs, ¬ e.Encodes op :=
        fun e he hop => hlater (h.unique hop ▸ he)
      rw [entries_foldl_install_of_not hother, entries_install, if_pos h]

theorem eq_of_entries {d e : Dispatch} (h : ∀ op, d.entries op = e.entries op) : d = e := by
  obtain ⟨execute, print⟩ := d
  obtain ⟨execute', print'⟩ := e
  have hat (n : Nat) (hn : n < UInt16.size) :
      execute.get ⟨n, hn⟩ = execute'.get ⟨n, hn⟩ ∧ print.get ⟨n, hn⟩ = print'.get ⟨n, hn⟩ :=
    Prod.mk.inj (h (UInt16.ofFin ⟨n, hn⟩))
  congr 1
  · exact Vector.ext fun n hn => (hat n hn).1
  · exact Vector.ext fun n hn => (hat n hn).2

theorem entries_ofClasses (cs : List Class) (op : Opcode) :
    (ofClasses cs).entries op =
      (cs.find? fun c => c.Encodes op, cs.find? fun c => c.Encodes op) := by
  rw [ofClasses]
  cases hfind : cs.find? fun c => c.Encodes op with
  | none =>
    have hnone : ∀ c ∈ cs, ¬ c.Encodes op := by simpa using hfind
    rw [entries_foldl_install_of_not hnone, entries_empty]
  | some c =>
    have hencodes : c.Encodes op := by simpa using List.find?_some hfind
    exact entries_foldl_install (List.mem_of_find?_eq_some hfind) hencodes empty

theorem find?_eq_some_iff :
    (cs.find? fun c => c.Encodes op) = some c ↔ c ∈ cs ∧ c.Encodes op := by
  constructor
  · intro h
    exact ⟨List.mem_of_find?_eq_some h, by simpa using List.find?_some h⟩
  · rintro ⟨hc, hencodes⟩
    cases hfind : cs.find? fun c => c.Encodes op with
    | none =>
      have hnone : ∀ c ∈ cs, ¬ c.Encodes op := by simpa using hfind
      exact absurd hencodes (hnone c hc)
    | some b =>
      have hb : b.Encodes op := by simpa using List.find?_some hfind
      rw [hb.unique hencodes]

end Dispatch

namespace Table

variable {op : Opcode} {cs : List Class} {i : Instruction}

theorem classes_foldl_install (cs : List Class) (t : Table) :
    (cs.foldl install t).classes = cs.reverse ++ t.classes := by
  induction cs generalizing t with
  | nil => rfl
  | cons c cs ih =>
    rw [List.foldl_cons, ih, List.reverse_cons, List.append_assoc]
    rfl

theorem lookup_ofClasses_iff :
    (ofClasses cs).lookup op = some i ↔ i.cls ∈ cs ∧ i.cls.decode? op = some i := by
  have hclasses : (ofClasses cs).classes = cs.reverse := by
    rw [ofClasses, classes_foldl_install]
    exact List.append_nil _
  rw [lookup, hclasses]
  constructor
  · intro h
    obtain ⟨c, hc, hi⟩ := List.exists_of_findSome?_eq_some h
    obtain ⟨-, rfl, -⟩ := Class.decode?_eq_some_iff.mp hi
    exact ⟨List.mem_reverse.mp hc, hi⟩
  · rintro ⟨hmem, hi⟩
    cases hfound : cs.reverse.findSome? fun c => c.decode? op with
    | none =>
      have hnone := List.findSome?_eq_none_iff.mp hfound i.cls (List.mem_reverse.mpr hmem)
      rw [hi] at hnone
      cases hnone
    | some j =>
      obtain ⟨c, -, hj⟩ := List.exists_of_findSome?_eq_some hfound
      have hc : c = i.cls :=
        (Class.encodes_of_decode? hj).unique (Class.encodes_of_decode? hi)
      rw [hc, hi] at hj
      exact hj.symm

theorem map_lookup_ofClasses (cs : List Class) (op : Opcode) :
    ((ofClasses cs).lookup op).map Instruction.cls = cs.find? fun c => c.Encodes op := by
  cases hfound : (ofClasses cs).lookup op with
  | none =>
    rw [Option.map_none, eq_comm, List.find?_eq_none]
    intro c hc hencodes
    have hsome := Class.isSome_decode?_iff.mpr (of_decide_eq_true hencodes)
    obtain ⟨i, hi⟩ := Option.isSome_iff_exists.mp hsome
    obtain ⟨-, rfl, -⟩ := Class.decode?_eq_some_iff.mp hi
    rw [lookup_ofClasses_iff.mpr ⟨hc, hi⟩] at hfound
    cases hfound
  | some i =>
    obtain ⟨hmem, hi⟩ := lookup_ofClasses_iff.mp hfound
    exact (Dispatch.find?_eq_some_iff.mpr ⟨hmem, Class.encodes_of_decode? hi⟩).symm

end Table

/-- Installed classes share the opcodes out among themselves: each opcode is run and listed by the
one of them that encodes it, whatever the order in which they were installed, and it is decoded to
the values that it was entered with. -/
theorem Dispatch.ofClasses_partition (cs : List Class) :
    (∀ op,
      (ofClasses cs).printer op = (ofClasses cs).executor op ∧
      ((Table.ofClasses cs).lookup op).map Instruction.cls = (ofClasses cs).executor op ∧
      (∀ c, (ofClasses cs).executor op = some c ↔ c ∈ cs ∧ c.Encodes op) ∧
      ∀ c d : Class, c.Encodes op → d.Encodes op → c = d) ∧
    (∀ ds, (∀ c, c ∈ cs ↔ c ∈ ds) →
      ofClasses cs = ofClasses ds ∧
        ∀ op, (Table.ofClasses cs).lookup op = (Table.ofClasses ds).lookup op) ∧
    ∀ c ∈ cs, ∀ f ∈ c.forms,
      (ofClasses cs).executor (c.opcode f) = some c ∧
        ∃ i, c.instruction? f = some i ∧ c.decode (c.opcode f) = .ok i ∧
          (Table.ofClasses cs).lookup (c.opcode f) = some i := by
  have hexecutor (cs : List Class) (op : Opcode) :
      (ofClasses cs).executor op = cs.find? fun c => c.Encodes op :=
    congrArg Prod.fst (entries_ofClasses cs op)
  refine ⟨fun op => ⟨?_, ?_, fun c => ?_, fun c d => Class.Encodes.unique⟩,
    fun ds hsame => ⟨?_, ?_⟩, fun c hc f hf => ⟨?_, ?_⟩⟩
  · rw [hexecutor]
    exact congrArg Prod.snd (entries_ofClasses cs op)
  · rw [hexecutor, Table.map_lookup_ofClasses]
  · rw [hexecutor, find?_eq_some_iff]
  · refine eq_of_entries fun op => ?_
    have hfind : (cs.find? fun c => c.Encodes op) = ds.find? fun c => c.Encodes op :=
      Option.ext fun c => by rw [find?_eq_some_iff, find?_eq_some_iff, hsame]
    rw [entries_ofClasses, entries_ofClasses, hfind]
  · exact fun op => Option.ext fun i => by
      rw [Table.lookup_ofClasses_iff, Table.lookup_ofClasses_iff, hsame]
  · rw [hexecutor, find?_eq_some_iff]
    exact ⟨hc, Class.encodes_opcode hf⟩
  · obtain ⟨i, hi, hdecode⟩ := Class.decode?_opcode hf
    obtain ⟨-, rfl, -⟩ := Class.decode?_eq_some_iff.mp hdecode
    exact ⟨i, hi, (decode_of_decode? hdecode).1, Table.lookup_ofClasses_iff.mpr ⟨hc, hdecode⟩⟩

/-- CMP and CMPM, in one order and in the other. -/
theorem Dispatch.ofClasses_partition_reordered :
    Dispatch.ofClasses [.cmp, .cmpm] = Dispatch.ofClasses [.cmpm, .cmp, .cmp] ∧
      (Dispatch.ofClasses [.cmp, .cmpm]).executor 0xB348 = some .cmpm := by
  obtain ⟨hop, horder, hforms⟩ := ofClasses_partition [.cmp, .cmpm]
  refine ⟨(horder [.cmpm, .cmp, .cmp] fun c => by cases c <;> decide).1, ?_⟩
  exact ((hop 0xB348).2.2.1 .cmpm).mpr ⟨by decide, by decide⟩

end Compare68k
