import Compare68k.Proofs.Script.Slicing
/-!
# Places in texts

What the places that are given for statements and complaints are good for.  Main statement: every
one of them is in the text and does not cut a character in two, its line and column are those at
which it begins, and the places of the statements of a script follow each other and have those
statements in them.
-/

namespace Compare68k.Script

/-- An offset at which a character of a text begins, or at which the text ends. -/
def Boundary (source : String) (offset : Nat) : Prop :=
  String.Pos.Raw.IsValid source ⟨offset⟩

structure Span.Within (s : Span) (source : String) : Prop where
  start : Boundary source s.start
  stop : Boundary source s.stop

/-- A span begins in a line and a column: behind the lines `above` and the beginning `beside` of its
own. -/
def Span.BeginsAt (s : Span) (source : String) (line column : Nat) : Prop :=
  ∃ above beside after, source.toList = above ++ beside ++ after ∧
    (above = [] ∨ above.getLast? = some '\n') ∧ '\n' ∉ beside ∧
    line = above.count '\n' + 1 ∧ column = byteLength beside ∧
    s.start = byteLength above + column

/-- The places that are given for a text. -/
def reported : Except (List Complaint) (List Statement) → List Span
  | .ok statements => statements.map Statement.span
  | .error es => es.map Complaint.span

section

variable {source : String} {offset : Nat} {span : Span}

/-! ## Boundaries -/

theorem boundary_iff :
    Boundary source offset ↔
      ∃ before after, source.toList = before ++ after ∧ offset = byteLength before := by
  rw [Boundary, String.Pos.Raw.isValid_iff_exists_append]
  constructor
  · rintro ⟨before, after, rfl, hoffset⟩
    refine ⟨before.toList, after.toList, String.toList_append, ?_⟩
    rw [byteLength_toList]
    exact congrArg String.Pos.Raw.byteIdx hoffset
  · rintro ⟨before, after, htext, rfl⟩
    refine ⟨String.ofList before, String.ofList after, ?_, ?_⟩
    · rw [← String.ofList_append, ← htext, String.ofList_toList]
    · rw [← utf8ByteSize_ofList]
      rfl

theorem Boundary.le (h : Boundary source offset) : offset ≤ source.utf8ByteSize :=
  String.Pos.Raw.IsValid.le_utf8ByteSize h

theorem boundary_end (source : String) : Boundary source source.utf8ByteSize := by
  refine boundary_iff.mpr ⟨source.toList, [], (List.append_nil _).symm, ?_⟩
  rw [byteLength_toList]

theorem within_point (h : Boundary source offset) : (Span.point offset).Within source :=
  ⟨h, h⟩

theorem within_of_slice {before slice after : List Char}
    (htext : source.toList = before ++ slice ++ after) (hstart : span.start = byteLength before)
    (hstop : span.stop = byteLength (before ++ slice)) : span.Within source := by
  refine ⟨boundary_iff.mpr ⟨before, slice ++ after, ?_, hstart⟩,
    boundary_iff.mpr ⟨before ++ slice, after, htext, hstop⟩⟩
  rw [htext, List.append_assoc]

/-! ## Lines and columns -/

theorem byteLength_reverse (cs : List Char) : byteLength cs.reverse = byteLength cs := by
  induction cs with
  | nil => rfl
  | cons c cs ih =>
    rw [List.reverse_cons, byteLength_append, ih, byteLength, byteLength, byteLength, Nat.add_zero,
      Nat.add_comm]

theorem takeBytes?_append (before after : List Char) :
    takeBytes? (byteLength before) (before ++ after) = some before := by
  induction before with
  | nil => rw [byteLength, takeBytes?]
  | cons c before ih =>
    obtain ⟨n, hn⟩ : ∃ n, byteLength (c :: before) = n + 1 := by
      have hpos := c.utf8Size_pos
      exact ⟨c.utf8Size + byteLength before - 1, by rw [byteLength]; omega⟩
    have hle : c.utf8Size ≤ n + 1 := by
      rw [← hn, byteLength]
      omega
    have hrest : n + 1 - c.utf8Size = byteLength before := by
      rw [← hn, byteLength]
      omega
    rw [hn, List.cons_append, takeBytes?, if_pos hle, hrest, ih]
    rfl

theorem exists_placeBehind (before : List Char) :
    ∃ above beside, before = above ++ beside ∧ (above = [] ∨ above.getLast? = some '\n') ∧
      '\n' ∉ beside ∧ placeBehind before = (above.count '\n' + 1, byteLength beside) := by
  let others : Char → Bool := (· ≠ '\n')
  have hbefore : (before.reverse.dropWhile others).reverse ++
      (before.reverse.takeWhile others).reverse = before := by
    rw [← List.reverse_append, List.takeWhile_append_dropWhile, List.reverse_reverse]
  have hbeside : '\n' ∉ (before.reverse.takeWhile others).reverse := by
    intro hmem
    have hother := List.mem_takeWhile_imp (List.mem_reverse.mp hmem)
    exact of_decide_eq_true hother rfl
  refine ⟨_, _, hbefore.symm, ?_, hbeside, ?_⟩
  · have hnot := List.head?_dropWhile_not others before.reverse
    rw [List.reverse_eq_nil_iff, List.getLast?_reverse]
    cases hhead : (before.reverse.dropWhile others).head? with
    | none => exact .inl (List.head?_eq_none_iff.mp hhead)
    | some c =>
      rw [hhead] at hnot
      have hc : c = '\n' := by simpa [others] using hnot
      exact .inr (congrArg some hc)
  · have hcount := congrArg (List.count '\n') hbefore
    rw [List.count_append, List.count_eq_zero_of_not_mem hbeside, Nat.add_zero] at hcount
    rw [hcount, byteLength_reverse]
    rfl

theorem exists_lineAndColumn (h : Boundary source span.start) :
    ∃ line column, span.lineAndColumn? source = some (line, column) ∧
      span.BeginsAt source line column := by
  obtain ⟨before, after, htext, hstart⟩ := boundary_iff.mp h
  obtain ⟨above, beside, rfl, habove, hbeside, hplace⟩ := exists_placeBehind before
  refine ⟨_, _, ?_, above, beside, after, htext, habove, hbeside, rfl, rfl, ?_⟩
  · rw [Span.lineAndColumn?, htext, hstart, takeBytes?_append, Option.map_some, hplace]
  · rw [hstart, byteLength_append]

/-! ## Places of complaints and statements -/

theorem within_place {item : Except Complaint Token} (h : item ∈ lex source) :
    (place item).Within source := by
  have hsplit : Split 0 source.toList (lex source) := split_lexFrom 0 source.toList
  obtain ⟨before, slice, after, reading, htext, -, hplace, -⟩ := hsplit.exists_slice h
  rw [Nat.zero_add] at hplace
  refine within_of_slice htext ?_ ?_
  · rw [hplace]
    rfl
  · rw [hplace, byteLength_append]
    rfl

theorem mem_terminate {stop : Span} {ts : List Token} {t : Token} (h : t ∈ terminate stop ts) :
    t ∈ ts ∨ t.span = stop := by
  unfold terminate at h
  split at h
  · split at h
    · exact .inl h
    · rcases List.mem_append.mp h with hmem | hlast
      · exact .inl hmem
      · rw [List.mem_singleton.mp hlast]
        exact .inr rfl
  · exact .inl h

theorem within_token {t : Token} (h : t ∈ terminated source) : t.span.Within source := by
  rcases mem_terminate h with hmem | hstop
  · exact within_place (mem_values_iff.mp hmem)
  · rw [hstop]
    exact within_point (boundary_end source)

theorem WordList.exists_token {ts : List Token} {words : List (Located UInt32)}
    {last w : Located UInt32} (h : WordList ts words last) (hw : w ∈ words ++ [last]) :
    ∃ t ∈ ts, t.span = w.span := by
  induction h with
  | last place value =>
    rw [List.mem_singleton.mp hw]
    exact ⟨_, List.mem_cons_self, rfl⟩
  | more place value comma h ih =>
    rcases List.mem_cons.mp hw with rfl | hw
    · exact ⟨_, List.mem_cons_self, rfl⟩
    · obtain ⟨t, ht, hspan⟩ := ih hw
      exact ⟨t, List.mem_cons_of_mem _ (List.mem_cons_of_mem _ ht), hspan⟩

theorem Sentence.exists_token {s : Sentence} {e : Complaint} (h : s.clause.Violates e) :
    ∃ t ∈ s.tokens, t.span = e.span := by
  obtain ⟨ts, c, hphrase⟩ := s
  cases hphrase with
  | assign =>
    cases h
    exact ⟨_, List.mem_cons_self, rfl⟩
  | @mem start name place address equals _ words last hname hwords =>
    cases h with
    | @mem _ _ _ before after _ w hsplit hbefore hlarge =>
      have hmem : w ∈ words ++ [last] := by
        rw [hsplit]
        exact List.mem_append_right before List.mem_cons_self
      obtain ⟨t, ht, hspan⟩ := hwords.exists_token hmem
      exact ⟨t, by simp [ht], hspan⟩
  | step => cases h
  | stepCount =>
    cases h
    exact ⟨_, List.mem_cons_of_mem _ List.mem_cons_self, rfl⟩

theorem mem_sentence_tokens {ss : List Sentence} (h : Grammatical (terminated source) ss)
    {s : Sentence} (hs : s ∈ ss) {t : Token} (ht : t ∈ s.tokens) : t ∈ terminated source := by
  obtain ⟨front, back, htokens, -⟩ := h.exists_append hs
  rw [htokens]
  exact List.mem_append_left _ (List.mem_append_right front ht)

theorem exists_statement {ss : List Sentence} (hlex : complaints (lex source) = [])
    (hss : Grammatical (terminated source) ss) {statement : Statement}
    (h : statement ∈ values (checks ss)) :
    ∃ s ∈ ss, s.clause.check = .ok statement ∧
      ∃ before slice after, source.toList = before ++ slice ++ after ∧
        statement.span.start = byteLength before ∧
        statement.span.stop = byteLength (before ++ slice) ∧
        Split statement.span.start slice (s.tokens.map Except.ok) := by
  obtain ⟨s, hs, hcheck⟩ := List.mem_map.mp (mem_values_iff.mp h)
  have hmakes := Sentence.makes_of_check (pairwise_of_grammatical hss s hs) hcheck
  exact ⟨s, hs, hcheck, hmakes.exists_slice hlex hss hs⟩

theorem within_statement {ss : List Sentence} (hlex : complaints (lex source) = [])
    (hss : Grammatical (terminated source) ss) {statement : Statement}
    (h : statement ∈ values (checks ss)) : statement.span.Within source := by
  obtain ⟨-, -, -, before, slice, after, htext, hstart, hstop, -⟩ := exists_statement hlex hss h
  exact within_of_slice htext hstart hstop

theorem within_mistake {ss : List Sentence} (hss : Grammatical (terminated source) ss)
    {e : Complaint} (h : e ∈ complaints (checks ss)) : e.span.Within source := by
  obtain ⟨s, hs, hcheck⟩ := List.mem_map.mp (mem_complaints_iff.mp h)
  obtain ⟨t, ht, hspan⟩ := Sentence.exists_token (Clause.violates_of_check hcheck).2
  rw [← hspan]
  exact within_token (mem_sentence_tokens hss hs ht)

theorem parse_of_complaints {e : Complaint} {es : List Complaint}
    (h : complaints (lex source) = e :: es) : parse source = .error [e] := by
  rw [parse_eq_lines, h]

theorem within_of_reported (h : span ∈ reported (parse source)) : span.Within source := by
  cases hlex : complaints (lex source) with
  | cons e es =>
    rw [parse_of_complaints hlex] at h
    obtain rfl := List.mem_singleton.mp h
    have he : e ∈ complaints (lex source) := by
      rw [hlex]
      exact List.mem_cons_self
    exact within_place (mem_complaints_iff.mp he)
  | nil =>
    by_cases hscript : ∃ ss, Grammatical (terminated source) ss
    · obtain ⟨ss, hss⟩ := hscript
      rw [parse_of_grammatical hlex hss] at h
      split at h
      · obtain ⟨statement, hstatement, rfl⟩ := List.mem_map.mp h
        exact within_statement hlex hss hstatement
      · obtain ⟨e, he, rfl⟩ := List.mem_map.mp h
        exact within_mistake hss he
    · obtain ⟨before, t, after, htokens, hparse, -, -⟩ := parse_of_not_grammatical hlex hscript
      rw [hparse] at h
      obtain rfl := List.mem_singleton.mp h
      refine within_token ?_
      rw [htokens]
      exact List.mem_append_right before List.mem_cons_self

theorem Sentence.Makes.le {s u : Sentence} {statement next : Statement}
    (hs : s.Makes statement) (hu : u.Makes next)
    (horder : ∀ t ∈ s.tokens, ∀ v ∈ u.tokens, t.Before v) :
    statement.span.stop ≤ next.span.start := by
  obtain ⟨t, ht, hstop⟩ := Option.map_eq_some_iff.mp hs.stop
  obtain ⟨v, hv, hstart⟩ := Option.map_eq_some_iff.mp hu.start
  rw [← hstop, ← hstart]
  exact horder t (List.mem_of_getLast? ht) v (List.mem_of_head? hv)

theorem pairwise_statements {ss : List Sentence} (hss : Grammatical (terminated source) ss) :
    (values (checks ss)).Pairwise fun s t => s.span.stop ≤ t.span.start := by
  obtain ⟨hline, horder⟩ := List.pairwise_flatMap.mp (pairwise_flatMap_of_grammatical hss)
  refine pairwise_values (List.pairwise_map.mpr ?_)
  refine horder.imp_of_mem fun {s u} hs hu hbefore statement next hstatement hnext => ?_
  have hmakes := Sentence.makes_of_check (hline s hs) hstatement
  exact hmakes.le (Sentence.makes_of_check (hline u hu) hnext) hbefore

theorem exists_part {ss : List Sentence} (hlex : complaints (lex source) = [])
    (hss : Grammatical (terminated source) ss) {statement : Statement}
    (h : statement ∈ values (checks ss)) :
    ∃ before slice after, source = before ++ slice ++ after ∧
      statement.span.start = before.utf8ByteSize ∧
      statement.span.stop = (before ++ slice).utf8ByteSize ∧
      parse slice = .ok [statement.relocate (Span.unshift statement.span.start)] := by
  obtain ⟨s, hs, hcheck, before, slice, after, htext, hstart, hstop, hsplit⟩ :=
    exists_statement hlex hss h
  refine ⟨String.ofList before, String.ofList slice, String.ofList after, ?_, ?_, ?_,
    parse_of_split hsplit hcheck⟩
  · rw [← String.ofList_append, ← String.ofList_append, ← htext, String.ofList_toList]
  · rw [hstart, utf8ByteSize_ofList]
  · rw [hstop, ← String.ofList_append, utf8ByteSize_ofList]

end

/-! ## Texts -/

/-- Every place that is given for a text is one of whole characters of it, so it has a line and a
column, and they are those at which it begins.  The places of statements follow each other, and the
part of the text in one of them is, on its own, a script of that statement. -/
theorem parse_places (source : String) :
    (∀ span ∈ reported (parse source),
      span.start ≤ span.stop ∧ span.stop ≤ source.utf8ByteSize ∧ span.Within source ∧
      ∃ line column, span.lineAndColumn? source = some (line, column) ∧
        span.BeginsAt source line column) ∧
    ∀ statements, parse source = .ok statements →
      (statements.Pairwise fun s t => s.span.stop ≤ t.span.start) ∧
      ∀ s ∈ statements, s.span.start < s.span.stop ∧
        ∃ before slice after, source = before ++ slice ++ after ∧
          s.span.start = before.utf8ByteSize ∧ s.span.stop = (before ++ slice).utf8ByteSize ∧
          parse slice = .ok [{ s with span := .ofLength 0 (s.span.stop - s.span.start) }] := by
  constructor
  · intro span hspan
    have hwithin := within_of_reported hspan
    exact ⟨span.start_le_stop, hwithin.stop.le, hwithin, exists_lineAndColumn hwithin.start⟩
  · intro statements hparse
    obtain ⟨cs, hreads⟩ := exists_reads_of_parse hparse
    obtain ⟨hlex, ss, hss, -⟩ := reads_iff.mp hreads
    rw [parse_of_grammatical hlex hss] at hparse
    split at hparse
    · cases hparse
      refine ⟨pairwise_statements hss, fun s hs => ?_⟩
      obtain ⟨before, slice, after, htext, hstart, hstop, hslice⟩ := exists_part hlex hss hs
      have hpos : s.span.start < s.span.stop := by
        by_contra hle
        rw [hstart, hstop, String.utf8ByteSize_append] at hle
        have hnil : slice = "" := String.utf8ByteSize_eq_zero_iff.mp (by omega)
        rw [hnil] at hslice
        have hempty : parse "" = .ok [] := by
          decide +kernel
        cases hempty.symm.trans hslice
      have hspan : s.span.unshift s.span.start = .ofLength 0 (s.span.stop - s.span.start) := by
        simp only [Span.unshift, Span.ofLength, Nat.sub_self, Nat.zero_add]
      rw [Statement.relocate, hspan] at hslice
      exact ⟨hpos, before, slice, after, htext, hstart, hstop, hslice⟩
    · cases hparse

/-- A statement below a comment with a character of two bytes. -/
theorem parse_places_comment :
    parse "d0 = 1 ;é\nstep" =
        .ok [⟨.ofLength 0 6, .set (.data 0) 1⟩, ⟨.ofLength 11 4, .step 1⟩] ∧
      Span.ofLength 11 4 ∈ reported (parse "d0 = 1 ;é\nstep") ∧
      (Span.ofLength 11 4).BeginsAt "d0 = 1 ;é\nstep" 2 0 ∧
      ∃ before slice after, "d0 = 1 ;é\nstep" = before ++ slice ++ after ∧
        11 = before.utf8ByteSize ∧ 15 = (before ++ slice).utf8ByteSize ∧
        parse slice = .ok [⟨.ofLength 0 4, .step 1⟩] := by
  have hparse : parse "d0 = 1 ;é\nstep" =
      .ok [⟨.ofLength 0 6, .set (.data 0) 1⟩, ⟨.ofLength 11 4, .step 1⟩] := by
    decide +kernel
  have hmem : Span.ofLength 11 4 ∈ reported (parse "d0 = 1 ;é\nstep") := by
    rw [hparse]
    exact List.mem_cons_of_mem _ List.mem_cons_self
  have hplace : (Span.ofLength 11 4).lineAndColumn? "d0 = 1 ;é\nstep" = some (2, 0) := by
    decide +kernel
  obtain ⟨hreported, haccepted⟩ := parse_places "d0 = 1 ;é\nstep"
  obtain ⟨-, -, -, line, column, hline, hbegins⟩ := hreported _ hmem
  cases hplace.symm.trans hline
  obtain ⟨-, hstatements⟩ := haccepted _ hparse
  obtain ⟨-, hslice⟩ := hstatements _ (List.mem_cons_of_mem _ List.mem_cons_self)
  exact ⟨hparse, hmem, hbegins, hslice⟩

end Compare68k.Script
