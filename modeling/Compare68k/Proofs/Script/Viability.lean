import Compare68k.Proofs.Script.Checking
/-!
# Beginnings of scripts

Tokens are viable as long as a script can begin with them.  Main statement: a text whose tokens are
no script has one complaint, at the token with which they stop being viable.  The keyword for
running instructions stays viable with a number or a line break behind it and with nothing else.
-/

namespace Compare68k.Script

/-- Tokens that a script can begin with. -/
def Viable (ts : List Token) : Prop :=
  ∃ more ss, Grammatical (ts ++ more) ss

section

variable {ts us front after : List Token} {ss ss' : List Sentence}

theorem Viable.of_append (h : Viable (ts ++ us)) : Viable ts := by
  obtain ⟨more, ss, hss⟩ := h
  rw [List.append_assoc] at hss
  exact ⟨us ++ more, ss, hss⟩

theorem viable_take_iff {t : Token} (hfront : Viable front)
    (hrefused : ∀ more ss, ¬Grammatical (front ++ t :: more) ss) (j : Nat) :
    Viable ((front ++ t :: after).take j) ↔ j ≤ front.length := by
  constructor
  · intro h
    by_contra hlt
    obtain ⟨k, rfl⟩ : ∃ k, j = front.length + (k + 1) := ⟨j - front.length - 1, by omega⟩
    obtain ⟨more, ss, hss⟩ := h
    rw [List.take_length_add_append, List.take_succ_cons, List.append_assoc] at hss
    exact hrefused _ ss hss
  · intro hle
    have hsplit : (front ++ t :: after).take j ++ front.drop j = front := by
      rw [List.take_append_of_le_length hle, List.take_append_drop]
    rw [← hsplit] at hfront
    exact hfront.of_append

/-! ## The keyword for running instructions -/

theorem Grammatical.append (h : Grammatical ts ss) (h' : Grammatical us ss') :
    Grammatical (ts ++ us) (ss ++ ss') := by
  refine h.line_induction (P := fun ts ss => Grammatical (ts ++ us) (ss ++ ss')) h' ?_ ?_
  · intro t ts ss ht ih
    exact ih.skip ht
  · intro s t ts ss ht ih
    rw [List.append_assoc]
    exact ih.sentence s ht

def Token.isName (t : Token) : Bool :=
  match t.lexeme with
  | .identifier _ => true
  | .comma | .equals | .literal _ | .linebreak => false

theorem isName_of_wordList {words : List (Located UInt32)} {last : Located UInt32}
    (h : WordList ts words last) : ∀ t ∈ ts, t.isName = false := by
  induction h with
  | last place value => simp [Token.isName]
  | more place value comma h ih => simpa [Token.isName] using ih

/-- A phrase is a name with no other name behind it.  Behind the keyword for running instructions
there is a number or nothing. -/
theorem Phrase.exists_name {c : Clause} (h : Phrase ts c) :
    ∃ start name tail, ts = ⟨start, .identifier name⟩ :: tail ∧
      (∀ t ∈ tail, t.isName = false) ∧
      (isKeyword "step" name = true → ∀ t ∈ tail.head?, ∃ n, t.lexeme = .literal n) := by
  cases h with
  | assign start name equals place value h =>
    exact ⟨start, name, _, rfl, by simp [Token.isName], by simp [h]⟩
  | mem start name place address equals h hwords =>
    refine ⟨start, name, _, rfl, ?_, by simp [isKeyword_step_of_mem h]⟩
    simpa [Token.isName] using isName_of_wordList hwords
  | step start name h => exact ⟨start, name, [], rfl, by simp, by simp⟩
  | stepCount start name place count h =>
    exact ⟨start, name, _, rfl, by simp [Token.isName], by simp⟩

theorem Grammatical.of_name (h : Grammatical ts ss) {start : Span} {name : String}
    (hts : ts = front ++ ⟨start, .identifier name⟩ :: after) :
    (∃ ss, Grammatical front ss) ∧
      (isKeyword "step" name = true →
        ∀ t ∈ after.head?, t.isBreak = true ∨ ∃ n, t.lexeme = .literal n) := by
  have hname (t : Token) (ht : t.isBreak = true) : t ≠ ⟨start, .identifier name⟩ := by
    rintro rfl
    cases ht
  -- by induction along the lines: the name is in front of them, in the first or in a later one
  refine h.line_induction (P := fun ts _ => ∀ front,
    ts = front ++ ⟨start, .identifier name⟩ :: after →
      (∃ ss, Grammatical front ss) ∧
        (isKeyword "step" name = true →
          ∀ t ∈ after.head?, t.isBreak = true ∨ ∃ n, t.lexeme = .literal n))
    ?_ ?_ ?_ front hts
  · intro front heq
    simp at heq
  · intro u ts ss hu ih front heq
    cases front with
    | nil => exact absurd (List.cons.inj heq).1 (hname u hu)
    | cons v front =>
      obtain ⟨rfl, hts⟩ := List.cons.inj heq
      obtain ⟨⟨ss, hss⟩, hstep⟩ := ih front hts
      exact ⟨⟨ss, hss.skip hu⟩, hstep⟩
  · intro s u ts ss hu ih front heq
    rcases List.append_eq_append_iff.mp heq with ⟨more, rfl, hmore⟩ | ⟨more, htokens, hmore⟩
    · cases more with
      | nil => exact absurd (List.cons.inj hmore).1 (hname u hu)
      | cons v more =>
        obtain ⟨rfl, hts⟩ := List.cons.inj hmore
        obtain ⟨⟨ss, hss⟩, hstep⟩ := ih more hts
        exact ⟨⟨s :: ss, hss.sentence s hu⟩, hstep⟩
    · cases more with
      | nil => exact absurd (List.cons.inj hmore).1.symm (hname u hu)
      | cons v more =>
        obtain ⟨rfl, rfl⟩ := List.cons.inj hmore
        obtain ⟨first, word, tail, hwords, htail, hstep⟩ := s.phrase.exists_name
        rw [hwords] at htokens
        cases front with
        | nil =>
          obtain ⟨hfirst, rfl⟩ := List.cons.inj htokens
          cases hfirst
          refine ⟨⟨[], .nil⟩, fun hkeyword t ht => ?_⟩
          cases tail with
          | nil =>
            cases ht
            exact .inl hu
          | cons w tail => exact .inr (hstep hkeyword t ht)
        | cons w front =>
          have hmem : ⟨start, .identifier name⟩ ∈ tail := by
            rw [(List.cons.inj htokens).2]
            exact List.mem_append_right _ List.mem_cons_self
          cases htail _ hmem

/-- The keyword for running instructions stays viable with a number or a line break behind it, and
with nothing else. -/
theorem viable_step_iff {start : Span} {name : String} (hname : isKeyword "step" name = true)
    (h : Viable (front ++ [⟨start, .identifier name⟩])) (t : Token) :
    Viable (front ++ [⟨start, .identifier name⟩, t]) ↔
      t.isBreak = true ∨ ∃ n, t.lexeme = .literal n := by
  constructor
  · rintro ⟨more, ss, hss⟩
    rw [List.append_assoc] at hss
    exact (hss.of_name rfl).2 hname t rfl
  · obtain ⟨more, ss, hss⟩ := h
    rw [List.append_assoc] at hss
    obtain ⟨⟨before, hbefore⟩, -⟩ := hss.of_name rfl
    rintro (ht | ⟨n, hn⟩)
    · let s : Sentence := ⟨_, _, .step start name hname⟩
      have hscript : Grammatical (s.tokens ++ [t]) [s] := .sentence s ht .nil
      exact ⟨[], before ++ [s], by simpa [s] using hbefore.append hscript⟩
    · obtain ⟨place, lexeme⟩ := t
      obtain rfl : lexeme = .literal n := hn
      let s : Sentence := ⟨_, _, .stepCount start name place n hname⟩
      have hscript : Grammatical (s.tokens ++ [⟨place, .linebreak⟩]) [s] := .sentence s rfl .nil
      exact ⟨[⟨place, .linebreak⟩], before ++ [s], by simpa [s] using hbefore.append hscript⟩

end

/-! ## Texts -/

/-- A text whose tokens are no script has one complaint.  It is at the first token with which the
tokens are no longer the beginning of a script, and there is such a token; behind the keyword for
running instructions that is one which is neither a number nor a line break. -/
theorem parse_of_ungrammatical {source : String} (hlex : complaints (lex source) = [])
    (h : ¬∃ ss, Grammatical (terminated source) ss) :
    (∃ i t, (terminated source)[i]? = some t ∧
      parse source = .error [⟨t.span, .unexpected none⟩] ∧
      ∀ j, Viable ((terminated source).take j) ↔ j ≤ i) ∧
    ∀ front start name t, isKeyword "step" name = true →
      Viable (front ++ [⟨start, .identifier name⟩]) →
        (Viable (front ++ [⟨start, .identifier name⟩, t]) ↔
          t.isBreak = true ∨ ∃ n, t.lexeme = .literal n) := by
  refine ⟨?_, fun front start name t hname hviable => viable_step_iff hname hviable t⟩
  obtain ⟨front, t, after, htokens, hparse, hfront, hrefused⟩ := parse_of_not_grammatical hlex h
  refine ⟨front.length, t, ?_, hparse, fun j => ?_⟩
  · rw [htokens, List.getElem?_append_right (Nat.le_refl _), Nat.sub_self]
    rfl
  · rw [htokens]
    exact viable_take_iff hfront hrefused j

/-- Nothing but a number can come behind a comma, not even a line break. -/
theorem parse_of_ungrammatical_comma :
    complaints (lex "mem 1 = 2,\nstep") = [] ∧
      (¬∃ ss, Grammatical (terminated "mem 1 = 2,\nstep") ss) ∧
      parse "mem 1 = 2,\nstep" = .error [⟨.ofLength 10 1, .unexpected none⟩] ∧
      ∀ j, Viable ((terminated "mem 1 = 2,\nstep").take j) ↔ j ≤ 5 := by
  have hlex : complaints (lex "mem 1 = 2,\nstep") = [] := by
    decide +kernel
  have hparse : parse "mem 1 = 2,\nstep" = .error [⟨.ofLength 10 1, .unexpected none⟩] := by
    decide +kernel
  have hspans : (terminated "mem 1 = 2,\nstep").map (·.span.start) =
      [0, 4, 6, 8, 9, 10, 11, 15] := by
    decide +kernel
  have hnot : ¬∃ ss, Grammatical (terminated "mem 1 = 2,\nstep") ss := by
    rintro ⟨ss, hss⟩
    have hclauses : ∃ e, clauses (sourceLines "mem 1 = 2,\nstep"
        (values (lex "mem 1 = 2,\nstep"))) = .error e :=
      ⟨⟨.ofLength 10 1, .unexpected none⟩, by decide +kernel⟩
    obtain ⟨e, he⟩ := hclauses
    cases he.symm.trans (clauses_eq_ok_iff.mpr ⟨ss, hss, rfl⟩)
  obtain ⟨⟨i, t, hi, hcomplaint, hviable⟩, -⟩ := parse_of_ungrammatical hlex hnot
  have hstart : t.span.start = 10 := by
    have hlist := Except.error.inj (hparse.symm.trans hcomplaint)
    have hspan : Span.ofLength 10 1 = t.span := (Complaint.mk.inj (List.cons.inj hlist).1).1
    rw [← hspan]
    rfl
  have hi : ((terminated "mem 1 = 2,\nstep").map (·.span.start))[i]? = some 10 := by
    rw [List.getElem?_map, hi, ← hstart]
    rfl
  rw [hspans] at hi
  have hindex : ∀ i < 8, ([0, 4, 6, 8, 9, 10, 11, 15] : List Nat)[i]? = some 10 → i = 5 := by
    decide
  obtain rfl := hindex i (List.getElem?_eq_some_iff.mp hi).1 hi
  exact ⟨hlex, hnot, hparse, hviable⟩

end Compare68k.Script
