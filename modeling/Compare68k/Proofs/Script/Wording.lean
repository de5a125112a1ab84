import Compare68k.Proofs.Script.Places
import Compare68k.Proofs.Script.Viability
/-!
# What is said about a script

The wording of complaints.  A text whose tokens are no script is said to have ended, and no other
text is.  Main statement: the complaint stands at a token all the same, the first that cannot be
right, and never names what kind of token it is.
-/

namespace Compare68k.Script

/-! ## Wordings -/

theorem append_ne {a b s : String} (h : ¬a.toList <+: b.toList) : a ++ s ≠ b := by
  intro heq
  apply h
  rw [← heq, String.toList_append]
  exact List.prefix_append _ _

/-- A token that is not told is reported like the end of the text, which is no kind of token. -/
theorem Cause.unexpected_ne_kind (lexeme : Lexeme) :
    (Cause.unexpected none).message ≠ "unexpected " ++ lexeme.kind := by
  have hkind :
      lexeme.kind ∈ ["comma", "equals sign", "identifier", "int literal", "linebreak"] := by
    cases lexeme <;> simp [Lexeme.kind]
  have hnone : ∀ kind ∈ ["comma", "equals sign", "identifier", "int literal", "linebreak"],
      (Cause.unexpected none).message ≠ "unexpected " ++ kind := by
    decide +kernel
  exact hnone _ hkind

theorem Cause.message_eq_iff {cause : Cause} :
    cause.message = "unexpected end of script" ↔ cause = .unexpected none := by
  constructor
  · intro h
    cases cause with
    | unexpected found =>
      cases found with
      | none => rfl
      | some lexeme => exact absurd h.symm (unexpected_ne_kind lexeme)
    | invalidCharacter c => exact absurd h (append_ne (by decide +kernel))
    | literalTooLarge text => exact absurd h (append_ne (by decide +kernel))
    | unknownRegister name => exact absurd h (append_ne (by decide +kernel))
    | notAWord value =>
      have hmark (s t : String) : "$" ++ s ++ t ≠ "unexpected end of script" := by
        rw [String.append_assoc]
        exact append_ne (by decide +kernel)
      exact absurd h (hmark _ _)
    | zeroCount => exact absurd h (by decide +kernel)
  · rintro rfl
    rfl

/-! ## Causes by where they come from -/

theorem cause_ne_of_read {first : Char} {run : List Char} {cause : Cause}
    (h : read first run = .wrong cause) : cause ≠ .unexpected none := by
  rintro rfl
  unfold read readLiteral at h
  grind

theorem cause_ne_of_lexFrom {offset : Nat} {cs : List Char} {e : Complaint}
    (h : .error e ∈ lexFrom offset cs) : e.cause ≠ .unexpected none := by
  induction offset, cs using stretch_induction with
  | nil offset =>
    rw [lexFrom_nil] at h
    cases h
  | cons offset c cs ih =>
    rw [lexFrom_cons, List.mem_append] at h
    rcases h with h | h
    · cases hread : read c (cs.takeWhile (continues c)) with
      | skipped =>
        rw [hread] at h
        cases h
      | token lexeme =>
        rw [hread] at h
        cases List.mem_singleton.mp h
      | wrong cause =>
        rw [hread] at h
        cases List.mem_singleton.mp h
        exact cause_ne_of_read hread
    · exact ih h

theorem cause_ne_of_violates {c : Clause} {e : Complaint} (h : c.Violates e) :
    e.cause ≠ .unexpected none := by
  rintro hcause
  cases h <;> cases hcause

/-- A text is said to have ended exactly if all of it makes up tokens and the tokens are no
script. -/
theorem message_eq_iff_of_parse {source : String} {es : List Complaint} {e : Complaint}
    (h : parse source = .error es) (he : e ∈ es) :
    e.message = "unexpected end of script" ↔
      complaints (lex source) = [] ∧ ¬∃ ss, Grammatical (terminated source) ss := by
  rw [Complaint.message, Cause.message_eq_iff]
  cases hlex : complaints (lex source) with
  | cons e' rest =>
    cases (parse_of_complaints hlex).symm.trans h
    obtain rfl := List.mem_singleton.mp he
    have hmem : e ∈ complaints (lex source) := by
      rw [hlex]
      exact List.mem_cons_self
    have hne := cause_ne_of_lexFrom (mem_complaints_iff.mp hmem)
    exact iff_of_false hne fun hnone => List.cons_ne_nil _ _ hnone.1
  | nil =>
    by_cases hscript : ∃ ss, Grammatical (terminated source) ss
    · have hne : e.cause ≠ .unexpected none := by
        obtain ⟨ss, hss⟩ := hscript
        rw [parse_of_grammatical hlex hss] at h
        split at h
        · cases h
        · cases h
          obtain ⟨s, -, hcheck⟩ := List.mem_map.mp (mem_complaints_iff.mp he)
          exact cause_ne_of_violates (Clause.violates_of_check hcheck).2
      exact iff_of_false hne fun hnone => hnone.2 hscript
    · obtain ⟨front, t, after, -, hparse, -, -⟩ := parse_of_not_grammatical hlex hscript
      cases hparse.symm.trans h
      obtain rfl := List.mem_singleton.mp he
      exact iff_of_true rfl ⟨rfl, hscript⟩

/-! ## Tokens that are not named -/

theorem not_grammatical_of_clauses {source : String} {e : Complaint}
    (h : clauses (sourceLines source (values (lex source))) = .error e) :
    ¬∃ ss, Grammatical (terminated source) ss := by
  rintro ⟨ss, hss⟩
  cases h.symm.trans (clauses_eq_ok_iff.mpr ⟨ss, hss, rfl⟩)

/-- Exactly the texts whose tokens are no script are said to have ended.  None of them has: the
complaint stands at a token, the first with which the tokens are no longer the beginning of a
script, and does not name it. -/
theorem message_of_ungrammatical (source : String) :
    (∀ es e, parse source = .error es → e ∈ es →
      (e.message = "unexpected end of script" ↔
        complaints (lex source) = [] ∧ ¬∃ ss, Grammatical (terminated source) ss)) ∧
    (complaints (lex source) = [] → (¬∃ ss, Grammatical (terminated source) ss) →
      ∃ front t after e, terminated source = front ++ t :: after ∧
        Viable front ∧ ¬Viable (front ++ [t]) ∧
        parse source = .error [e] ∧ e.span = t.span ∧ e.message = "unexpected end of script" ∧
        ∀ lexeme : Lexeme, e.message ≠ "unexpected " ++ lexeme.kind) := by
  refine ⟨fun es e h he => message_eq_iff_of_parse h he, ?_⟩
  intro hlex hscript
  obtain ⟨front, t, after, htokens, hparse, hfront, hrefused⟩ :=
    parse_of_not_grammatical hlex hscript
  refine ⟨front, t, after, _, htokens, hfront, ?_, hparse, rfl, rfl, Cause.unexpected_ne_kind⟩
  rintro ⟨more, ss, hss⟩
  rw [List.append_assoc] at hss
  exact hrefused more ss hss

/-- Even the line break that closes a text is a token which is not named. -/
theorem message_of_ungrammatical_linebreak :
    complaints (lex "D0 =") = [] ∧ (¬∃ ss, Grammatical (terminated "D0 =") ss) ∧
      ∃ front t after e, terminated "D0 =" = front ++ t :: after ∧
        parse "D0 =" = .error [e] ∧ e.span = t.span ∧ t.span = .point 4 ∧
        e.message = "unexpected end of script" ∧ e.message ≠ "unexpected linebreak" := by
  have hlex : complaints (lex "D0 =") = [] := by
    decide +kernel
  have hclauses : clauses (sourceLines "D0 =" (values (lex "D0 ="))) =
      .error ⟨.point 4, .unexpected none⟩ := by
    decide +kernel
  have hparse : parse "D0 =" = .error [⟨.point 4, .unexpected none⟩] := by
    decide +kernel
  have hscript := not_grammatical_of_clauses hclauses
  obtain ⟨front, t, after, e, htokens, -, -, he, hspan, hmessage, hnone⟩ :=
    (message_of_ungrammatical "D0 =").2 hlex hscript
  have hplace : t.span = .point 4 := by
    cases hparse.symm.trans he
    exact hspan.symm
  exact ⟨hlex, hscript, front, t, after, e, htokens, he, hspan, hplace, hmessage,
    hnone .linebreak⟩

/-- The number behind a register's name is where the complaint stands, and is not what it names. -/
theorem message_unnamed_literal :
    complaints (lex "d1 1\n") = [] ∧ (¬∃ ss, Grammatical (terminated "d1 1\n") ss) ∧
      ∃ t ∈ terminated "d1 1\n", ∃ e, parse "d1 1\n" = .error [e] ∧ e.span = t.span ∧
        t.lexeme = .literal 1 ∧ e.message = "unexpected end of script" ∧
        e.message ≠ "unexpected " ++ t.lexeme.kind := by
  have hlex : complaints (lex "d1 1\n") = [] := by
    decide +kernel
  have hclauses : clauses (sourceLines "d1 1\n" (values (lex "d1 1\n"))) =
      .error ⟨.ofLength 3 1, .unexpected none⟩ := by
    decide +kernel
  have hparse : parse "d1 1\n" = .error [⟨.ofLength 3 1, .unexpected none⟩] := by
    decide +kernel
  have htoken : ⟨.ofLength 3 1, .literal 1⟩ ∈ terminated "d1 1\n" := by
    decide +kernel
  exact ⟨hlex, not_grammatical_of_clauses hclauses, _, htoken, _, hparse, rfl, rfl, rfl,
    Cause.unexpected_ne_kind _⟩

end Compare68k.Script
