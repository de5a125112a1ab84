import Compare68k.Proofs.Script.Checking
import Compare68k.Proofs.Script.Joining
import Compare68k.Proofs.Script.Splitting
/-!
# Parts of texts

Tokens that follow each other in a text are the tokens of a part of it, which begins with the first
of them and ends with the last.  Main statement: the part that the sentence of a statement takes up
is, on its own, a text with that statement and no other.
-/

namespace Compare68k.Script

section

variable {slice rest after : List Char} {reading : Reading} {offset : Nat} {cs : List Char}
  {front line back items : List (Except Complaint Token)} {x y : Except Complaint Token}

/-! ## Stretches with less behind them -/

theorem Exhausts.truncate {c : Char} {run : List Char} (h : Exhausts c run (rest ++ after)) :
    Exhausts c run rest := by
  refine ⟨h.goesOn, fun d hd => h.stops d ?_⟩
  rw [List.head?_append, Option.mem_def.mp hd]
  rfl

theorem Spelled.truncate (h : Spelled slice (rest ++ after) reading) :
    Spelled slice rest reading := by
  rw [spelled_iff] at h ⊢
  obtain ⟨c, run, hslice, hexhausts, hread⟩ := h
  exact ⟨c, run, hslice, hexhausts.truncate, hread⟩

theorem Reading.exists_append {span : Span} (h : reading.items span ++ items = front ++ back)
    (hne : front ≠ []) : ∃ more, front = reading.items span ++ more ∧ items = more ++ back := by
  cases reading with
  | skipped => exact ⟨front, rfl, h⟩
  | token | wrong =>
    obtain ⟨z, more, rfl⟩ := List.exists_cons_of_ne_nil hne
    obtain ⟨rfl, hmore⟩ := List.cons.inj h
    exact ⟨more, rfl, hmore⟩

/-! ## Parts of a text -/

theorem Split.exists_append (h : Split offset cs (front ++ back)) :
    ∃ before rest, cs = before ++ rest ∧ Split offset before front ∧
      Split (offset + byteLength before) rest back := by
  generalize hall : front ++ back = all at h
  induction h generalizing front with
  | nil offset =>
    obtain ⟨rfl, rfl⟩ := List.append_eq_nil_iff.mp hall
    exact ⟨[], [], rfl, .nil offset, .nil offset⟩
  | @cons offset slice rest reading items h later ih =>
    by_cases hne : front = []
    · subst hne
      obtain rfl : back = _ := hall
      exact ⟨[], slice ++ rest, rfl, .nil offset, .cons h later⟩
    · obtain ⟨more, rfl, hmore⟩ := Reading.exists_append hall.symm hne
      obtain ⟨before, rest, rfl, hbefore, hrest⟩ := ih hmore.symm
      rw [Nat.add_assoc, ← byteLength_append] at hrest
      exact ⟨slice ++ before, rest, (List.append_assoc _ _ _).symm, .cons h.truncate hbefore, hrest⟩

theorem Split.exists_gap_before (h : Split offset cs (x :: items)) :
    ∃ gap rest, cs = gap ++ rest ∧ (place x).start = offset + byteLength gap ∧
      Split (place x).start rest (x :: items) := by
  generalize hall : x :: items = all at h
  induction h with
  | nil offset => cases hall
  | @cons offset slice rest reading later h hlater ih =>
    cases reading with
    | skipped =>
      obtain ⟨gap, rest, rfl, hstart, hsplit⟩ := ih hall
      refine ⟨slice ++ gap, rest, (List.append_assoc _ _ _).symm, ?_, hsplit⟩
      rw [hstart, byteLength_append, Nat.add_assoc]
    | token | wrong =>
      obtain ⟨rfl, rfl⟩ := List.cons.inj hall
      exact ⟨[], slice ++ rest, rfl, rfl, .cons h hlater⟩

theorem Split.exists_gap_behind (h : Split offset cs items) (hy : y ∈ items.getLast?) :
    ∃ slice gap, cs = slice ++ gap ∧ (place y).stop = offset + byteLength slice ∧
      Split offset slice items := by
  induction h with
  | nil offset => cases hy
  | @cons offset slice rest reading items h later ih =>
    by_cases hnil : items = []
    · subst hnil
      rw [List.append_nil] at hy ⊢
      have hslice : Split offset (slice ++ []) (_ ++ []) :=
        .cons (Spelled.truncate h : Spelled slice [] reading) (.nil _)
      rw [List.append_nil, List.append_nil] at hslice
      refine ⟨slice, rest, rfl, ?_, hslice⟩
      rw [(place_of_mem_items (List.mem_of_getLast? hy)).1]
      rfl
    · rw [List.getLast?_append_of_ne_nil _ hnil] at hy
      obtain ⟨slice', gap, rfl, hstop, hsplit⟩ := ih hy
      refine ⟨slice ++ slice', gap, (List.append_assoc _ _ _).symm, ?_, .cons h.truncate hsplit⟩
      rw [hstop, byteLength_append, Nat.add_assoc]

/-- Items that follow each other are those of the part of the text from the first to the last of
them. -/
theorem Split.exists_part (h : Split offset cs (front ++ line ++ back)) (hx : x ∈ line.head?)
    (hy : y ∈ line.getLast?) :
    ∃ before slice after, cs = before ++ slice ++ after ∧
      (place x).start = offset + byteLength before ∧
      (place y).stop = offset + byteLength (before ++ slice) ∧
      Split (place x).start slice line := by
  rw [List.append_assoc] at h
  obtain ⟨before, middle, rfl, -, hmiddle⟩ := h.exists_append
  obtain ⟨middle, after, rfl, hline, -⟩ := hmiddle.exists_append
  obtain ⟨items, rfl⟩ := List.head?_eq_some_iff.mp hx
  obtain ⟨lead, middle, rfl, hstart, hline⟩ := hline.exists_gap_before
  obtain ⟨slice, trail, rfl, hstop, hslice⟩ := hline.exists_gap_behind hy
  refine ⟨before ++ lead, slice, trail ++ after, ?_, ?_, ?_, hslice⟩
  · simp only [List.append_assoc]
  · rw [hstart, byteLength_append, Nat.add_assoc]
  · rw [hstop, hstart, byteLength_append, byteLength_append]
    omega

end

/-! ## Sentences of a text -/

section

variable {ts : List Token} {ss : List Sentence} {s : Sentence} {source : String}
  {statement : Statement}

theorem Grammatical.exists_append (h : Grammatical ts ss) (hs : s ∈ ss) :
    ∃ front back, ts = front ++ s.tokens ++ back ∧ back ≠ [] := by
  refine h.line_induction (P := fun ts ss => s ∈ ss →
    ∃ front back, ts = front ++ s.tokens ++ back ∧ back ≠ []) ?_ ?_ ?_ hs
  · intro hs
    cases hs
  · intro t ts ss ht ih hs
    obtain ⟨front, back, rfl, hback⟩ := ih hs
    exact ⟨t :: front, back, rfl, hback⟩
  · intro u t ts ss ht ih hs
    rcases List.mem_cons.mp hs with rfl | hs
    · exact ⟨[], t :: ts, rfl, List.cons_ne_nil t ts⟩
    · obtain ⟨front, back, rfl, hback⟩ := ih hs
      refine ⟨u.tokens ++ t :: front, back, ?_, hback⟩
      simp only [List.append_assoc, List.cons_append]

/-- The line break that is put at the end is behind the last sentence. -/
theorem exists_of_terminate {stop : Span} {front back : List Token}
    (h : terminate stop ts = front ++ back) (hback : back ≠ []) : ∃ more, ts = front ++ more := by
  unfold terminate at h
  split at h
  · split at h
    · exact ⟨back, h⟩
    · have hdrop := congrArg List.dropLast h
      rw [List.dropLast_concat, List.dropLast_append_of_ne_nil hback] at hdrop
      exact ⟨back.dropLast, hdrop⟩
  · exact ⟨back, h⟩

theorem Sentence.Makes.exists_slice (hmakes : s.Makes statement)
    (hlex : complaints (lex source) = []) (hss : Grammatical (terminated source) ss)
    (hs : s ∈ ss) :
    ∃ before slice after, source.toList = before ++ slice ++ after ∧
      statement.span.start = byteLength before ∧
      statement.span.stop = byteLength (before ++ slice) ∧
      Split statement.span.start slice (s.tokens.map Except.ok) := by
  obtain ⟨front, back, htokens, hback⟩ := hss.exists_append hs
  obtain ⟨more, hvalues⟩ := exists_of_terminate htokens hback
  have hsplit : Split 0 source.toList (lex source) := split_lexFrom 0 source.toList
  rw [eq_map_values hlex, hvalues, List.map_append, List.map_append] at hsplit
  obtain ⟨t, ht, hstart⟩ := Option.map_eq_some_iff.mp hmakes.start
  obtain ⟨u, hu, hstop⟩ := Option.map_eq_some_iff.mp hmakes.stop
  have hfirst : .ok t ∈ (s.tokens.map (Except.ok (ε := Complaint))).head? := by
    rw [List.head?_map, ht]
    rfl
  have hlast : .ok u ∈ (s.tokens.map (Except.ok (ε := Complaint))).getLast? := by
    rw [List.getLast?_map, hu]
    rfl
  obtain ⟨before, slice, after, htext, hbefore, hslice, hpart⟩ := hsplit.exists_part hfirst hlast
  rw [Nat.zero_add] at hbefore hslice
  rw [← hstart, ← hstop]
  exact ⟨before, slice, after, htext, hbefore, hslice, hpart⟩

/-! ## One sentence on its own -/

theorem merge_unshift (k : Nat) (s t : Span) :
    (s.merge t).unshift k = (s.unshift k).merge (t.unshift k) := by
  simp only [Span.merge, Span.unshift, Nat.sub_min_sub_right, Nat.sub_max_sub_right]

theorem relocate_unshift (k : Nat) (xs : List (Except Complaint Token)) :
    (xs.map (relocateResult Token.relocate (Span.shift k))).map
      (relocateResult Token.relocate (Span.unshift k)) = xs := by
  rw [List.map_map]
  refine List.map_id'' (fun x => ?_) xs
  cases x with
  | ok t | error e => simp only [Function.comp, relocateResult, Token.relocate, Complaint.relocate,
      unshift_shift]

theorem parse_of_split {k : Nat} {slice : List Char} (h : Split k slice (s.tokens.map Except.ok))
    (hcheck : s.clause.check = .ok statement) :
    parse (String.ofList slice) = .ok [statement.relocate (Span.unshift k)] := by
  let moved : Sentence := ⟨_, _, s.phrase.relocate (Span.unshift k)⟩
  have hlex : lex (String.ofList slice) = moved.tokens.map Except.ok := by
    have hshift := lexFrom_shift k 0 slice
    rw [Nat.zero_add, ← h.eq_lexFrom] at hshift
    rw [lex, String.toList_ofList, ← relocate_unshift k (lexFrom 0 slice), ← hshift, List.map_map,
      List.map_map]
    rfl
  have hscript : Grammatical (terminated (String.ofList slice)) [moved] := by
    rw [terminated, hlex, values_map_ok,
      terminate_of_line _ moved.phrase.unbroken moved.phrase.ne_nil]
    exact .sentence moved rfl .nil
  have hchecks : checks [moved] = [.ok (statement.relocate (Span.unshift k))] := by
    rw [checks, List.map_singleton, check_relocate (merge_unshift k), hcheck]
    rfl
  rw [parse_of_grammatical (by rw [hlex, complaints_map_ok]) hscript, hchecks]
  rfl

end

end Compare68k.Script
