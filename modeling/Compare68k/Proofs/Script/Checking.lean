import Compare68k.Proofs.Script.Mistakes
import Compare68k.Proofs.Script.Splitting
import Mathlib.Data.List.Forall2
/-!
# Checks of names and values

What the clauses of a script have to keep to, and what they mean if they do.  Main statement: a
script that is grammatical is accepted exactly if all its clauses are valid, its statements say
what is written in them, and otherwise there is one complaint for each clause that is not valid;
a text that is not grammatical has a single complaint.
-/

namespace Compare68k.Script

/-! ## Names -/

def registerTable : List (String × Register) :=
  [("d0", .data 0), ("d1", .data 1), ("d2", .data 2), ("d3", .data 3), ("d4", .data 4),
    ("d5", .data 5), ("d6", .data 6), ("d7", .data 7), ("a0", .address 0), ("a1", .address 1),
    ("a2", .address 2), ("a3", .address 3), ("a4", .address 4), ("a5", .address 5),
    ("a6", .address 6), ("a7", .address 7), ("sp", .address 7), ("pc", .pc), ("sr", .sr),
    ("ccr", .ccr)]

def lowered (name : String) : String :=
  String.ofList (name.toList.map Char.toLower)

theorem mem_of_number? {c : Char} {n : UInt8} (h : Register.number? c = some n) :
    (String.ofList ['d', c], .data n) ∈ registerTable ∧
      (String.ofList ['a', c], .address n) ∈ registerTable := by
  unfold Register.number? at h
  split at h <;> cases h <;> decide

theorem ofName?_eq_some_iff {name : String} {r : Register} :
    Register.ofName? name = some r ↔ (lowered name, r) ∈ registerTable := by
  unfold Register.ofName? lowered
  generalize name.toList.map Char.toLower = letters
  constructor
  · intro h
    split at h
    · cases h
      decide
    · cases h
      decide
    · cases h
      decide
    · cases h
      decide
    · obtain ⟨n, hn, rfl⟩ := Option.map_eq_some_iff.mp h
      exact (mem_of_number? hn).1
    · obtain ⟨n, hn, rfl⟩ := Option.map_eq_some_iff.mp h
      exact (mem_of_number? hn).2
    · cases h
  · intro h
    have hletters : ∀ text : String, String.ofList letters = text → letters = text.toList := by
      rintro _ rfl
      exact String.toList_ofList.symm
    simp only [registerTable, List.mem_cons, Prod.mk.injEq, List.not_mem_nil, or_false] at h
    rcases h with ⟨h, rfl⟩ | ⟨h, rfl⟩ | ⟨h, rfl⟩ | ⟨h, rfl⟩ | ⟨h, rfl⟩ | ⟨h, rfl⟩ | ⟨h, rfl⟩ |
      ⟨h, rfl⟩ | ⟨h, rfl⟩ | ⟨h, rfl⟩ | ⟨h, rfl⟩ | ⟨h, rfl⟩ | ⟨h, rfl⟩ | ⟨h, rfl⟩ | ⟨h, rfl⟩ |
      ⟨h, rfl⟩ | ⟨h, rfl⟩ | ⟨h, rfl⟩ | ⟨h, rfl⟩ | ⟨h, rfl⟩ <;>
    · rw [hletters _ h]
      rfl

/-! ## Clauses -/

namespace Clause

def Valid : Clause → Prop
  | assign name _ => lowered name.value ∈ registerTable.map Prod.fst
  | mem _ _ words last => ∀ w ∈ words ++ [last], w.value ≤ 0xFFFF
  | step _ (some count) => 1 ≤ count.value
  | step _ none => True

instance : DecidablePred Valid
  | assign name _ => inferInstanceAs (Decidable (lowered name.value ∈ registerTable.map Prod.fst))
  | mem _ _ words last => inferInstanceAs (Decidable (∀ w ∈ words ++ [last], w.value ≤ 0xFFFF))
  | step _ (some count) => inferInstanceAs (Decidable (1 ≤ count.value))
  | step _ none => inferInstanceAs (Decidable True)

inductive Means : Clause → Action → Prop where
  | assign {name : Located String} {r : Register} (value : Located UInt32)
      (h : (lowered name.value, r) ∈ registerTable) :
      Means (.assign name value) (.set r value.value)
  | mem (keyword : Span) (address : Located UInt32) {words : List (Located UInt32)}
      {last : Located UInt32} {stored : List UInt16}
      (h : stored.map UInt16.toUInt32 = (words ++ [last]).map Located.value) :
      Means (.mem keyword address words last) (.poke address.value stored)
  | stepOnce (keyword : Span) : Means (.step keyword none) (.step 1)
  | step (keyword : Span) {count : Located UInt32} (h : 1 ≤ count.value) :
      Means (.step keyword (some count)) (.step count.value)

/-- What is wrong with a clause: a name that no register has, the first number that does not fit
in a word, or a count of none. -/
inductive Violates : Clause → Complaint → Prop where
  | assign {name : Located String} (value : Located UInt32)
      (h : lowered name.value ∉ registerTable.map Prod.fst) :
      Violates (.assign name value) ⟨name.span, .unknownRegister name.value⟩
  | mem (keyword : Span) (address : Located UInt32) {words before after : List (Located UInt32)}
      {last w : Located UInt32} (hsplit : words ++ [last] = before ++ w :: after)
      (hbefore : ∀ v ∈ before, v.value ≤ 0xFFFF) (h : 0xFFFF < w.value) :
      Violates (.mem keyword address words last) ⟨w.span, .notAWord w.value⟩
  | step (keyword : Span) {count : Located UInt32} (h : count.value = 0) :
      Violates (.step keyword (some count)) ⟨count.span, .zeroCount⟩

def first : Clause → Span
  | assign name _ => name.span
  | mem keyword _ _ _ | step keyword _ => keyword

def last : Clause → Span
  | assign _ value => value.span
  | mem _ _ _ last => last.span
  | step _ (some count) => count.span
  | step keyword none => keyword

inductive Checked (c : Clause) : Except Complaint Statement → Prop where
  | valid {a : Action} (hvalid : c.Valid) (h : c.Means a) :
      Checked c (.ok ⟨c.first.merge c.last, a⟩)
  | violates {e : Complaint} (hvalid : ¬c.Valid) (h : c.Violates e) : Checked c (.error e)

theorem toUInt32_toUInt16_of_le {n : UInt32} (h : n ≤ 0xFFFF) : n.toUInt16.toUInt32 = n := by
  have hle : n.toNat ≤ 0xFFFF := h
  rw [← UInt32.toNat_inj, UInt16.toNat_toUInt32, UInt32.toNat_toUInt16]
  omega

theorem mapM_wordOf (ws : List (Located UInt32)) :
    (∃ stored, ws.mapM wordOf = .ok stored ∧ (∀ w ∈ ws, w.value ≤ 0xFFFF) ∧
      stored.map UInt16.toUInt32 = ws.map Located.value) ∨
    ∃ before w after, ws = before ++ w :: after ∧ (∀ v ∈ before, v.value ≤ 0xFFFF) ∧
      0xFFFF < w.value ∧ ws.mapM wordOf = .error ⟨w.span, .notAWord w.value⟩ := by
  induction ws with
  | nil => exact .inl ⟨[], rfl, by simp, rfl⟩
  | cons w ws ih =>
    by_cases hw : w.value ≤ 0xFFFF
    · have hword : wordOf w = .ok w.value.toUInt16 := if_pos hw
      rw [List.mapM_cons, hword]
      rcases ih with ⟨stored, hmapM, hall, hvalues⟩ | ⟨before, v, after, rfl, hall, hv, hmapM⟩
      · rw [hmapM]
        refine .inl ⟨w.value.toUInt16 :: stored, rfl, by simpa [hw] using hall, ?_⟩
        rw [List.map_cons, List.map_cons, hvalues, toUInt32_toUInt16_of_le hw]
      · rw [hmapM]
        exact .inr ⟨w :: before, v, after, rfl, by simpa [hw] using hall, hv, rfl⟩
    · refine .inr ⟨[], w, ws, rfl, by simp, UInt32.not_le.mp hw, ?_⟩
      rw [List.mapM_cons, wordOf, if_neg hw]
      rfl

theorem checked_check (c : Clause) : c.Checked c.check := by
  cases c with
  | assign name value =>
    rw [check]
    cases hname : Register.ofName? name.value with
    | some r =>
      have hmem := ofName?_eq_some_iff.mp hname
      exact .valid (List.mem_map_of_mem hmem) (.assign value hmem)
    | none =>
      have hnot : lowered name.value ∉ registerTable.map Prod.fst := by
        intro hmem
        obtain ⟨⟨text, r⟩, hmem, htext⟩ := List.mem_map.mp hmem
        obtain rfl : text = lowered name.value := htext
        cases hname.symm.trans (ofName?_eq_some_iff.mpr hmem)
      exact .violates hnot (.assign value hnot)
  | mem keyword address words last =>
    rw [check]
    rcases mapM_wordOf (words ++ [last]) with
      ⟨stored, hmapM, hall, hvalues⟩ | ⟨before, w, after, hsplit, hall, hw, hmapM⟩
    · rw [hmapM]
      exact .valid hall (.mem keyword address hvalues)
    · rw [hmapM]
      have hnot : ¬∀ v ∈ words ++ [last], v.value ≤ 0xFFFF := by
        intro hle
        have hmem : w ∈ words ++ [last] := by
          rw [hsplit]
          exact List.mem_append_right _ List.mem_cons_self
        exact UInt32.not_le.mpr hw (hle w hmem)
      exact .violates hnot (.mem keyword address hsplit hall hw)
  | step keyword count =>
    cases count with
    | none =>
      -- Without a count, the keyword is both the first token and the last.
      have hmerge : keyword.merge keyword = keyword := by
        simp only [Span.merge, Nat.min_self, Nat.max_self]
      rw [check]
      conv => rhs; rw [← hmerge]
      exact .valid trivial (.stepOnce keyword)
    | some count =>
      rw [check]
      split
      · rename_i hzero
        have hnot : ¬1 ≤ count.value := by
          rw [hzero]
          decide
        exact .violates hnot (.step keyword hzero)
      · rename_i hzero
        have hpos : 1 ≤ count.value.toNat :=
          Nat.pos_of_ne_zero fun h => hzero (UInt32.toNat_inj.mp h)
        exact .valid hpos (.step keyword hpos)

end Clause

/-! ## Places -/

theorem getLast?_of_wordList {ts : List Token} {words : List (Located UInt32)}
    {last : Located UInt32} (h : WordList ts words last) :
    ts.getLast?.map Token.span = some last.span := by
  induction h with
  | last place value => rfl
  | more place value comma h ih =>
    obtain ⟨next, number, rest, rfl⟩ := h.exists_cons
    exact ih

theorem head?_of_phrase {ts : List Token} {c : Clause} (h : Phrase ts c) :
    ts.head?.map Token.span = some c.first := by
  cases h <;> rfl

theorem getLast?_of_phrase {ts : List Token} {c : Clause} (h : Phrase ts c) :
    ts.getLast?.map Token.span = some c.last := by
  cases h with
  | mem start name place address equals h hwords =>
    have hlast := getLast?_of_wordList hwords
    obtain ⟨next, number, rest, rfl⟩ := hwords.exists_cons
    exact hlast
  | assign | step | stepCount => rfl

theorem merge_of_pairwise {ts : List Token} {first last : Span} (h : ts.Pairwise Token.Before)
    (hfirst : ts.head?.map Token.span = some first)
    (hlast : ts.getLast?.map Token.span = some last) :
    (first.merge last).start = first.start ∧ (first.merge last).stop = last.stop := by
  have hle : first.start ≤ last.start ∧ first.stop ≤ last.stop := by
    cases ts with
    | nil => cases hfirst
    | cons t ts =>
      obtain ⟨u, hu, rfl⟩ := Option.map_eq_some_iff.mp hlast
      cases hfirst
      rcases List.mem_cons.mp (List.mem_of_getLast? hu) with rfl | hmem
      · exact ⟨Nat.le_refl _, Nat.le_refl _⟩
      · have hbefore : t.span.stop ≤ u.span.start := (List.pairwise_cons.mp h).1 u hmem
        have ht := t.span.start_le_stop
        have hu := u.span.start_le_stop
        omega
  exact ⟨Nat.min_eq_left hle.1, Nat.max_eq_right hle.2⟩

/-- Apart from its line breaks, a script is the tokens of its sentences. -/
theorem Grammatical.flatMap_tokens {ts : List Token} {ss : List Sentence}
    (h : Grammatical ts ss) : (ts.filter fun t => !t.isBreak) = ss.flatMap Sentence.tokens := by
  refine h.line_induction (P := fun ts ss =>
    (ts.filter fun t => !t.isBreak) = ss.flatMap Sentence.tokens) rfl ?_ ?_
  · intro t ts ss ht ih
    rw [List.filter_cons_of_neg (by simp [ht])]
    exact ih
  · intro s t ts ss ht ih
    have hline : s.tokens.filter (fun t => !t.isBreak) = s.tokens :=
      List.filter_eq_self.mpr fun t ht => by simp [s.phrase.unbroken t ht]
    rw [List.filter_append, List.filter_cons_of_neg (by simp [ht]), hline, ih, List.flatMap_cons]

theorem filter_terminate (stop : Span) (ts : List Token) :
    (terminate stop ts).filter (fun t => !t.isBreak) = ts.filter fun t => !t.isBreak := by
  unfold terminate
  split
  · split
    · rfl
    · rw [List.filter_append]
      exact List.append_nil _
  · rfl

theorem pairwise_flatMap_of_grammatical {source : String} {ss : List Sentence}
    (h : Grammatical (terminated source) ss) :
    (ss.flatMap Sentence.tokens).Pairwise Token.Before := by
  rw [← h.flatMap_tokens, terminated, filter_terminate]
  exact (pairwise_lexFrom 0 source.toList).sublist List.filter_sublist

theorem pairwise_of_grammatical {source : String} {ss : List Sentence}
    (h : Grammatical (terminated source) ss) : ∀ s ∈ ss, s.tokens.Pairwise Token.Before :=
  (List.pairwise_flatMap.mp (pairwise_flatMap_of_grammatical h)).1

/-! ## Statements -/

/-- A statement does what a sentence means, and stands where its tokens stand. -/
structure Sentence.Makes (s : Sentence) (statement : Statement) : Prop where
  means : s.clause.Means statement.action
  start : s.tokens.head?.map (·.span.start) = some statement.span.start
  stop : s.tokens.getLast?.map (·.span.stop) = some statement.span.stop

theorem Clause.means_of_check {c : Clause} {statement : Statement} (h : c.check = .ok statement) :
    c.Valid ∧ c.Means statement.action ∧ statement.span = c.first.merge c.last := by
  have hchecked := c.checked_check
  rw [h] at hchecked
  cases hchecked with
  | valid hvalid hmeans => exact ⟨hvalid, hmeans, rfl⟩

theorem Clause.violates_of_check {c : Clause} {e : Complaint} (h : c.check = .error e) :
    ¬c.Valid ∧ c.Violates e := by
  have hchecked := c.checked_check
  rw [h] at hchecked
  cases hchecked with
  | violates hvalid hviolates => exact ⟨hvalid, hviolates⟩

theorem Sentence.makes_of_check {s : Sentence} {statement : Statement}
    (horder : s.tokens.Pairwise Token.Before) (h : s.clause.check = .ok statement) :
    s.Makes statement := by
  obtain ⟨-, hmeans, hspan⟩ := Clause.means_of_check h
  have hfirst := head?_of_phrase s.phrase
  have hlast := getLast?_of_phrase s.phrase
  obtain ⟨hstart, hstop⟩ := merge_of_pairwise horder hfirst hlast
  refine ⟨hmeans, ?_, ?_⟩
  · rw [hspan, hstart, ← Option.map_some (f := Span.start), ← hfirst, Option.map_map]
    rfl
  · rw [hspan, hstop, ← Option.map_some (f := Span.stop), ← hlast, Option.map_map]
    rfl

def checks (ss : List Sentence) : List (Except Complaint Statement) :=
  ss.map fun s => s.clause.check

theorem forall₂_complaints (ss : List Sentence) :
    List.Forall₂ (fun s e => s.clause.Violates e) (ss.filter fun s => ¬s.clause.Valid)
      (complaints (checks ss)) := by
  induction ss with
  | nil => exact .nil
  | cons s ss ih =>
    rw [checks, List.map_cons]
    cases hcheck : s.clause.check with
    | ok statement =>
      obtain ⟨hvalid, -⟩ := Clause.means_of_check hcheck
      rw [List.filter_cons_of_neg (by simpa using hvalid)]
      exact ih
    | error e =>
      obtain ⟨hvalid, hviolates⟩ := Clause.violates_of_check hcheck
      rw [List.filter_cons_of_pos (by simpa using hvalid)]
      exact .cons hviolates ih

theorem complaints_eq_nil_iff (ss : List Sentence) :
    complaints (checks ss) = [] ↔ ∀ s ∈ ss, s.clause.Valid := by
  have hforall := forall₂_complaints ss
  constructor
  · intro h
    rw [h, List.forall₂_nil_right_iff, List.filter_eq_nil_iff] at hforall
    simpa using hforall
  · intro h
    rw [List.filter_eq_nil_iff.mpr (by simpa using h), List.forall₂_nil_left_iff] at hforall
    exact hforall

theorem forall₂_values {ss : List Sentence} (horder : ∀ s ∈ ss, s.tokens.Pairwise Token.Before)
    (hvalid : ∀ s ∈ ss, s.clause.Valid) :
    List.Forall₂ Sentence.Makes ss (values (checks ss)) := by
  induction ss with
  | nil => exact .nil
  | cons s ss ih =>
    have hrest := ih (fun u hu => horder u (List.mem_cons_of_mem _ hu))
      (fun u hu => hvalid u (List.mem_cons_of_mem _ hu))
    rw [checks, List.map_cons]
    cases hcheck : s.clause.check with
    | ok statement =>
      exact .cons (Sentence.makes_of_check (horder s List.mem_cons_self) hcheck) hrest
    | error e =>
      obtain ⟨hnot, -⟩ := Clause.violates_of_check hcheck
      exact absurd (hvalid s List.mem_cons_self) hnot

/-! ## Scripts -/

theorem parse_of_grammatical {source : String} {ss : List Sentence}
    (hlex : complaints (lex source) = []) (h : Grammatical (terminated source) ss) :
    parse source =
      if complaints (checks ss) = [] then .ok (values (checks ss))
      else .error (complaints (checks ss)) := by
  have hreads : Reads source (ss.map Sentence.clause) := reads_iff.mpr ⟨hlex, ss, h, rfl⟩
  rw [hreads.parse, List.map_map]
  rfl

theorem parse_of_not_grammatical {source : String} (hlex : complaints (lex source) = [])
    (h : ¬∃ ss, Grammatical (terminated source) ss) :
    ∃ before t after, terminated source = before ++ t :: after ∧
      parse source = .error [⟨t.span, .unexpected none⟩] ∧
      (∃ more ss, Grammatical (before ++ more) ss) ∧
      ∀ more ss, ¬Grammatical (before ++ t :: more) ss := by
  cases hclauses : clauses (sourceLines source (values (lex source))) with
  | ok cs =>
    obtain ⟨ss, hss, -⟩ := clauses_eq_ok_iff.mp hclauses
    exact absurd ⟨ss, hss⟩ h
  | error e =>
    obtain ⟨before, t, after, htokens, rfl, hmistaken⟩ := mistaken_of_clauses hclauses
    refine ⟨before, t, after, htokens, ?_, hmistaken.goesOn, fun more ss hss => ?_⟩
    · rw [parse_eq_lines, hlex]
      dsimp only
      rw [hclauses]
    · exact hmistaken.refused (.point 0) more _ (hss.clauses_linesFrom _)

/-- What comes of a text whose characters all make up tokens.  If the tokens are a script, it is
accepted exactly if all its sentences are valid, and then there is one statement for each of them;
otherwise there is one complaint for each sentence that is not valid.  If they are none, there is a
single complaint, at the first token with which they stop being the beginning of a script. -/
theorem parse_of_lexed {source : String} (hlex : complaints (lex source) = []) :
    (∀ ss, Grammatical (terminated source) ss →
      ((∃ statements, parse source = .ok statements) ↔ ∀ s ∈ ss, s.clause.Valid) ∧
      (∀ statements, parse source = .ok statements → List.Forall₂ Sentence.Makes ss statements) ∧
      ∀ es, parse source = .error es →
        List.Forall₂ (fun s e => s.clause.Violates e) (ss.filter fun s => ¬s.clause.Valid) es) ∧
    ((¬∃ ss, Grammatical (terminated source) ss) →
      ∃ before t after, terminated source = before ++ t :: after ∧
        parse source = .error [⟨t.span, .unexpected none⟩] ∧
        (∃ more ss, Grammatical (before ++ more) ss) ∧
        ∀ more ss, ¬Grammatical (before ++ t :: more) ss) := by
  refine ⟨fun ss hss => ?_, parse_of_not_grammatical hlex⟩
  rw [parse_of_grammatical hlex hss, ← complaints_eq_nil_iff]
  by_cases hnil : complaints (checks ss) = []
  · rw [if_pos hnil]
    have hvalues :=
      forall₂_values (pairwise_of_grammatical hss) ((complaints_eq_nil_iff ss).mp hnil)
    refine ⟨⟨fun _ => hnil, fun _ => ⟨_, rfl⟩⟩, ?_, ?_⟩
    · rintro statements h
      cases h
      exact hvalues
    · rintro es h
      cases h
  · rw [if_neg hnil]
    refine ⟨⟨?_, fun h => absurd h hnil⟩, ?_, ?_⟩
    · rintro ⟨statements, h⟩
      cases h
    · rintro statements h
      cases h
    · rintro es h
      cases h
      exact forall₂_complaints ss

/-- A script of two sentences, the second of which names no register. -/
theorem parse_of_lexed_misnamed :
    ∃ ss, Grammatical (terminated "D0 = 1\nx = 2") ss ∧ ss.length = 2 ∧
      parse "D0 = 1\nx = 2" = .error [⟨⟨7, 8, by omega⟩, .unknownRegister "x"⟩] ∧
      List.Forall₂ (fun s e => s.clause.Violates e) (ss.filter fun s => ¬s.clause.Valid)
        [⟨⟨7, 8, by omega⟩, .unknownRegister "x"⟩] := by
  let d0 : Sentence := ⟨_, _, .assign ⟨0, 2, by omega⟩ "D0" ⟨3, 4, by omega⟩ ⟨5, 6, by omega⟩ 1
    (by decide)⟩
  let x : Sentence := ⟨_, _, .assign ⟨7, 8, by omega⟩ "x" ⟨9, 10, by omega⟩ ⟨11, 12, by omega⟩ 2
    (by decide)⟩
  have htokens : terminated "D0 = 1\nx = 2" =
      d0.tokens ++ ⟨⟨6, 7, by omega⟩, .linebreak⟩ ::
        (x.tokens ++ [⟨.point 12, .linebreak⟩]) := by
    decide +kernel
  have hss : Grammatical (terminated "D0 = 1\nx = 2") [d0, x] := by
    rw [htokens]
    exact .sentence d0 rfl (.sentence x rfl .nil)
  have hparse : parse "D0 = 1\nx = 2" = .error [⟨⟨7, 8, by omega⟩, .unknownRegister "x"⟩] := by
    decide +kernel
  have hlex : complaints (lex "D0 = 1\nx = 2") = [] := by
    decide +kernel
  obtain ⟨hscript, -⟩ := parse_of_lexed hlex
  exact ⟨[d0, x], hss, rfl, hparse, (hscript _ hss).2.2 _ hparse⟩

end Compare68k.Script
