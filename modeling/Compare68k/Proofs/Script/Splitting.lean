import Compare68k.Proofs.Script.Grammar
import Compare68k.Proofs.Script.Lexing
import Compare68k.Proofs.Script.Spelling
import Mathlib.Data.List.TakeWhile
/-!
# Texts cut into stretches

There is one way to cut a text into blanks, comments, tokens and mistakes.  Main statement: what is
read of a text are the tokens and mistakes of its stretches in their order, so nothing is lost
between them but blanks and comments; and each of its line breaks is a token.
-/

namespace Compare68k.Script

/-- A text from an offset on, cut into stretches, with the tokens and complaints that they make. -/
inductive Split : Nat → List Char → List (Except Complaint Token) → Prop where
  | nil (offset : Nat) : Split offset [] []
  | cons {offset : Nat} {slice rest : List Char} {reading : Reading}
      {items : List (Except Complaint Token)} (h : Spelled slice rest reading)
      (later : Split (offset + byteLength slice) rest items) :
      Split offset (slice ++ rest) (reading.items (.ofLength offset (byteLength slice)) ++ items)

def place : Except Complaint Token → Span
  | .ok t => t.span
  | .error e => e.span

def breaks (offset : Nat) : List Char → List Token
  | [] => []
  | c :: cs =>
    if c = '\n' then ⟨.ofLength offset 1, .linebreak⟩ :: breaks (offset + 1) cs
    else breaks (offset + c.utf8Size) cs

/-! ## There is one way -/

section

variable {c : Char} {run rest : List Char}

theorem exhausts_takeWhile (c : Char) (cs : List Char) :
    Exhausts c (cs.takeWhile (continues c)) (cs.dropWhile (continues c)) := by
  refine ⟨fun d hd => List.mem_takeWhile_imp hd, fun d hd => ?_⟩
  have hnot := List.head?_dropWhile_not (continues c) cs
  rw [hd] at hnot
  simpa using hnot

theorem Exhausts.takeWhile_eq (h : Exhausts c run rest) :
    (run ++ rest).takeWhile (continues c) = run := by
  have hrest : rest.takeWhile (continues c) = [] := by
    cases rest with
    | nil => rfl
    | cons d rest => exact List.takeWhile_cons_of_neg (by simp [h.stops d rfl])
  rw [List.takeWhile_append_of_pos h.goesOn, hrest, List.append_nil]

theorem Exhausts.dropWhile_eq (h : Exhausts c run rest) :
    (run ++ rest).dropWhile (continues c) = rest := by
  rw [List.dropWhile_append_of_pos h.goesOn]
  cases rest with
  | nil => rfl
  | cons d rest => exact List.dropWhile_cons_of_neg (by simp [h.stops d rfl])

end

theorem split_lexFrom (offset : Nat) (cs : List Char) : Split offset cs (lexFrom offset cs) := by
  induction offset, cs using stretch_induction with
  | nil offset =>
    rw [lexFrom_nil]
    exact .nil offset
  | cons offset c cs ih =>
    have hspelled := spelled_read (exhausts_takeWhile c cs)
    have hsplit : Split offset _ _ := .cons hspelled ih
    rw [List.cons_append, List.takeWhile_append_dropWhile] at hsplit
    rw [lexFrom_cons]
    exact hsplit

theorem Split.eq_lexFrom {offset : Nat} {cs : List Char} {items : List (Except Complaint Token)}
    (h : Split offset cs items) : items = lexFrom offset cs := by
  induction h with
  | nil offset => rw [lexFrom_nil]
  | @cons offset slice rest reading items h later ih =>
    obtain ⟨c, run, rfl, hexhausts, rfl⟩ := h.exists_exhausts
    rw [List.cons_append, lexFrom_cons, stretch, hexhausts.takeWhile_eq, hexhausts.dropWhile_eq, ih]
    rfl

theorem split_iff {offset : Nat} {cs : List Char} {items : List (Except Complaint Token)} :
    Split offset cs items ↔ items = lexFrom offset cs := by
  refine ⟨Split.eq_lexFrom, ?_⟩
  rintro rfl
  exact split_lexFrom offset cs

/-! ## Where the stretches are -/

section

variable {slice rest : List Char} {reading : Reading} {offset : Nat} {cs : List Char}
  {items : List (Except Complaint Token)} {item : Except Complaint Token}

theorem Spelled.byteLength_pos (h : Spelled slice rest reading) : 0 < byteLength slice := by
  obtain ⟨c, run, rfl, -⟩ := h.exists_exhausts
  have hpos := c.utf8Size_pos
  rw [byteLength]
  omega

theorem place_of_mem_items {span : Span} (h : item ∈ reading.items span) :
    place item = span ∧ reading.items span = [item] := by
  cases reading with
  | skipped => cases h
  | token | wrong =>
    rw [List.mem_singleton.mp h]
    exact ⟨rfl, rfl⟩

theorem Split.exists_slice (h : Split offset cs items) (hitem : item ∈ items) :
    ∃ before slice after reading, cs = before ++ slice ++ after ∧ Spelled slice after reading ∧
      place item = .ofLength (offset + byteLength before) (byteLength slice) ∧
      reading.items (place item) = [item] := by
  induction h with
  | nil offset => cases hitem
  | @cons offset slice rest reading items h later ih =>
    rcases List.mem_append.mp hitem with hfirst | hlater
    · obtain ⟨hplace, hitems⟩ := place_of_mem_items hfirst
      refine ⟨[], slice, rest, reading, rfl, h, hplace, ?_⟩
      rw [hplace]
      exact hitems
    · obtain ⟨before, slice', after, reading', rfl, hspelled, hplace, hitems⟩ := ih hlater
      refine ⟨slice ++ before, slice', after, reading', ?_, hspelled, ?_, hitems⟩
      · simp only [List.append_assoc]
      · rw [hplace, byteLength_append, Nat.add_assoc]

theorem Split.le_start (h : Split offset cs items) (hitem : item ∈ items) :
    offset ≤ (place item).start := by
  obtain ⟨before, slice, after, reading, -, -, hplace, -⟩ := h.exists_slice hitem
  rw [hplace]
  exact Nat.le_add_right offset _

theorem Split.pairwise (h : Split offset cs items) :
    items.Pairwise fun x y => (place x).stop ≤ (place y).start := by
  induction h with
  | nil offset => exact .nil
  | @cons offset slice rest reading items h later ih =>
    rw [List.pairwise_append]
    refine ⟨?_, ih, fun x hx y hy => ?_⟩
    · cases reading with
      | skipped => exact .nil
      | token | wrong => exact List.pairwise_singleton _ _
    · rw [(place_of_mem_items hx).1]
      exact later.le_start hy

end

def Token.Before (t u : Token) : Prop :=
  t.span.stop ≤ u.span.start

theorem pairwise_lexFrom (offset : Nat) (cs : List Char) :
    (values (lexFrom offset cs)).Pairwise Token.Before := by
  refine pairwise_values ((split_lexFrom offset cs).pairwise.imp ?_)
  rintro x y hbefore t u rfl rfl
  exact hbefore

/-! ## Line breaks -/

section

variable {slice rest : List Char} {reading : Reading} {offset : Nat} {cs : List Char}
  {items : List (Except Complaint Token)}


theorem breaks_append (offset : Nat) (cs ds : List Char) :
    breaks offset (cs ++ ds) = breaks offset cs ++ breaks (offset + byteLength cs) ds := by
  induction cs generalizing offset with
  | nil => rfl
  | cons c cs ih =>
    rw [List.cons_append, breaks, breaks, byteLength, ← Nat.add_assoc]
    split
    · rename_i hc
      rw [hc, ih]
      rfl
    · exact ih _

theorem breaks_of_notMem (h : '\n' ∉ cs) (offset : Nat) : breaks offset cs = [] := by
  induction cs generalizing offset with
  | nil => rfl
  | cons c cs ih =>
    rw [List.mem_cons, not_or] at h
    obtain ⟨hc, hcs⟩ := h
    rw [breaks, if_neg (Ne.symm hc), ih hcs]

theorem Radix.Digits.newline_notMem {r : Radix} {digits : List Char} (h : r.Digits digits rest) :
    '\n' ∉ r.mark ++ digits := by
  intro hmem
  rcases List.mem_append.mp hmem with hmark | hdigit
  · revert hmark
    cases r <;> decide
  · have hnewline := h.digits '\n' hdigit
    revert hnewline
    cases r <;> decide

/-- No stretch has a line break in it but the line break itself. -/
theorem Spelled.newline (h : Spelled slice rest reading) :
    slice = ['\n'] ∧ reading = .token .linebreak ∨
      '\n' ∉ slice ∧ reading ≠ .token .linebreak := by
  cases h with
  | linebreak => exact .inl ⟨rfl, rfl⟩
  | comma | equals => exact .inr ⟨by decide, by simp⟩
  | blank h =>
    refine .inr ⟨?_, by simp⟩
    rw [List.mem_singleton]
    rintro rfl
    cases h
  | comment hbody hrest => exact .inr ⟨by simpa using hbody, by simp⟩
  | identifier hfirst hmore hrest =>
    refine .inr ⟨?_, by simp⟩
    rw [List.mem_cons, not_or]
    refine ⟨?_, fun hmem => ?_⟩
    · rintro rfl
      cases hfirst
    · cases hmore '\n' hmem
  | literal h hvalue => exact .inr ⟨h.newline_notMem, by simp⟩
  | tooLarge h hlarge => exact .inr ⟨h.newline_notMem, by simp⟩
  | invalid h =>
    refine .inr ⟨?_, by simp⟩
    rw [List.mem_singleton]
    rintro rfl
    exact absurd h.notSymbol (by decide)

theorem breaks_of_spelled (h : Spelled slice rest reading) (offset : Nat) :
    (values (reading.items (.ofLength offset (byteLength slice)))).filter Token.isBreak =
      breaks offset slice := by
  rcases h.newline with ⟨rfl, rfl⟩ | ⟨hslice, hreading⟩
  · rfl
  · rw [breaks_of_notMem hslice]
    cases reading with
    | skipped | wrong => rfl
    | token lexeme =>
      have hbreak : lexeme ≠ .linebreak := fun hlexeme => hreading (congrArg _ hlexeme)
      exact List.filter_cons_of_neg (by simpa [Token.isBreak] using hbreak)

theorem Split.breaks (h : Split offset cs items) :
    (values items).filter Token.isBreak = Script.breaks offset cs := by
  induction h with
  | nil offset => rfl
  | @cons offset slice rest reading items h later ih =>
    rw [values_append, List.filter_append, breaks_of_spelled h, ih, breaks_append]

end

/-! ## Texts -/

/-- The tokens and mistakes of a text are those of the one way to cut it into stretches.  Each is a
stretch of the text that is not empty, they follow each other without overlap, and the line breaks
among them are the line breaks of the text. -/
theorem lex_splits (source : String) :
    (∀ items, Split 0 source.toList items ↔ items = lex source) ∧
    (∀ item ∈ lex source, (place item).start < (place item).stop ∧
      ∃ before slice after reading, source.toList = before ++ slice ++ after ∧
        place item = .ofLength (byteLength before) (byteLength slice) ∧
        Spelled slice after reading ∧ reading.items (place item) = [item]) ∧
    ((lex source).Pairwise fun x y => (place x).stop ≤ (place y).start) ∧
    (values (lex source)).filter Token.isBreak = breaks 0 source.toList := by
  have hsplit : Split 0 source.toList (lex source) := split_lexFrom 0 source.toList
  refine ⟨fun items => split_iff, fun item hitem => ?_, hsplit.pairwise, hsplit.breaks⟩
  obtain ⟨before, slice, after, reading, htext, hspelled, hplace, hitems⟩ :=
    hsplit.exists_slice hitem
  rw [Nat.zero_add] at hplace
  refine ⟨?_, before, slice, after, reading, htext, hplace, hspelled, hitems⟩
  rw [hplace]
  exact Nat.lt_add_of_pos_right hspelled.byteLength_pos

/-- A mark without a digit, a number that ends where its digits do, and a comment. -/
theorem lex_splits_marks :
    let dollar : Except Complaint Token := .error ⟨.ofLength 0 1, .invalidCharacter '$'⟩
    lex "$ %12;%" =
        [dollar, .ok ⟨.ofLength 2 2, .literal 1⟩, .ok ⟨.ofLength 4 1, .literal 2⟩] ∧
      dollar ∈ lex "$ %12;%" ∧ (place dollar).start < (place dollar).stop ∧
      ∃ before slice after reading, "$ %12;%".toList = before ++ slice ++ after ∧
        place dollar = .ofLength (byteLength before) (byteLength slice) ∧
        Spelled slice after reading ∧ reading.items (place dollar) = [dollar] := by
  intro dollar
  have hlex : lex "$ %12;%" =
      [dollar, .ok ⟨.ofLength 2 2, .literal 1⟩, .ok ⟨.ofLength 4 1, .literal 2⟩] := by
    decide +kernel
  have hmem : dollar ∈ lex "$ %12;%" := by
    rw [hlex]
    exact List.mem_cons_self
  obtain ⟨-, hstretches, -⟩ := lex_splits "$ %12;%"
  exact ⟨hlex, hmem, hstretches dollar hmem⟩

end Compare68k.Script
