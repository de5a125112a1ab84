import Compare68k.Proofs.Text.Hex
import Compare68k.Script.Token
import Mathlib.Data.List.Induction
import Mathlib.Data.Nat.Digits.Defs
/-!
# How tokens are spelled

The stretches that a text consists of, kind by kind: blanks, comments, tokens and mistakes.  Whether
some characters are a stretch also depends on the character behind them, which must not go on with
them.  Main statement: the stretches are what is read when a first character is taken with the
longest run of characters that go on with it.
-/

namespace Compare68k

namespace Text.Numeral

theorem value_eq_ofDigits (base : Nat) (cs : List Char) :
    value base cs = Nat.ofDigits base (cs.reverse.map fun c => (digitValue? c).getD 0) := by
  induction cs using List.reverseRecOn with
  | nil => rfl
  | append_singleton cs c ih =>
    rw [value_concat, ih, List.reverse_append, List.reverse_singleton, List.singleton_append,
      List.map_cons, Nat.ofDigits_cons, Nat.mul_comm, Nat.add_comm]

theorem isDigit_ten_iff {c : Char} : isDigit 10 c = true ↔ 48 ≤ c.toNat ∧ c.toNat ≤ 57 := by
  unfold isDigit digitValue?
  by_cases hc : '0' ≤ c ∧ c ≤ '9'
  · have hrange : 48 ≤ c.toNat ∧ c.toNat ≤ 57 := hc
    have hlt : c.toNat - 48 < 10 := by omega
    rw [if_pos hc]
    exact ⟨fun _ => hrange, fun _ => decide_eq_true hlt⟩
  · -- the digits above nine are letters
    have hupper (h : 'A' ≤ c ∧ c ≤ 'F') : ¬c.toNat - 55 < 10 := by
      have hle : 65 ≤ c.toNat := h.1
      omega
    have hlower (h : 'a' ≤ c ∧ c ≤ 'f') : ¬c.toNat - 87 < 10 := by
      have hle : 97 ≤ c.toNat := h.1
      omega
    rw [if_neg hc]
    refine ⟨fun h => ?_, fun h => absurd h hc⟩
    by_cases hA : 'A' ≤ c ∧ c ≤ 'F'
    · rw [if_pos hA] at h
      exact absurd (of_decide_eq_true h) (hupper hA)
    · rw [if_neg hA] at h
      by_cases ha : 'a' ≤ c ∧ c ≤ 'f'
      · rw [if_pos ha] at h
        exact absurd (of_decide_eq_true h) (hlower ha)
      · rw [if_neg ha] at h
        cases h

end Text.Numeral

namespace Script

open Text

inductive Radix where
  | binary
  | decimal
  | hexadecimal
deriving DecidableEq, Repr

namespace Radix

def base : Radix → Nat
  | binary => 2
  | decimal => 10
  | hexadecimal => 16

def mark : Radix → List Char
  | binary => ['%']
  | decimal => []
  | hexadecimal => ['$']

def isDigit (r : Radix) : Char → Bool :=
  Numeral.isDigit r.base

/-- The number that digits stand for by their places, the last of them being the ones. -/
def amount (r : Radix) (digits : List Char) : Nat :=
  Nat.ofDigits r.base (digits.reverse.map fun c => (Numeral.digitValue? c).getD 0)

end Radix

/-- What comes behind a stretch does not begin with a character of some kind. -/
def Stops (p : Char → Bool) (rest : List Char) : Prop :=
  ∀ c ∈ rest.head?, p c = false

structure Radix.Digits (r : Radix) (digits rest : List Char) : Prop where
  ne_nil : digits ≠ []
  digits : ∀ c ∈ digits, r.isDigit c = true
  stops : Stops r.isDigit rest

/-- A character that begins nothing.  The mark of a base does so only where no digit follows it. -/
structure Foreign (c : Char) (rest : List Char) : Prop where
  notBlank : isBlank c = false
  notSymbol : c ∉ [';', '\n', ',', '=']
  notLetter : isLetter c = false
  notDigit : Radix.decimal.isDigit c = false
  unmarked : ∀ r : Radix, r.mark = [c] → Stops r.isDigit rest

/-- What a stretch of text is, with the text behind it. -/
inductive Spelled : List Char → List Char → Reading → Prop where
  | blank {c : Char} {rest : List Char} (h : isBlank c = true) : Spelled [c] rest .skipped
  | comment {body rest : List Char} (hbody : '\n' ∉ body) (hrest : Stops (· ≠ '\n') rest) :
      Spelled (';' :: body) rest .skipped
  | linebreak {rest : List Char} : Spelled ['\n'] rest (.token .linebreak)
  | comma {rest : List Char} : Spelled [','] rest (.token .comma)
  | equals {rest : List Char} : Spelled ['='] rest (.token .equals)
  | identifier {first : Char} {more rest : List Char} (hfirst : isLetter first = true)
      (hmore : ∀ c ∈ more, isLetterOrDigit c = true) (hrest : Stops isLetterOrDigit rest) :
      Spelled (first :: more) rest (.token (.identifier (String.ofList (first :: more))))
  | literal {r : Radix} {digits rest : List Char} {value : UInt32} (h : r.Digits digits rest)
      (hvalue : value.toNat = r.amount digits) :
      Spelled (r.mark ++ digits) rest (.token (.literal value))
  | tooLarge {r : Radix} {digits rest : List Char} (h : r.Digits digits rest)
      (hlarge : 2 ^ 32 ≤ r.amount digits) :
      Spelled (r.mark ++ digits) rest
        (.wrong (.literalTooLarge (String.ofList (r.mark ++ digits))))
  | invalid {c : Char} {rest : List Char} (h : Foreign c rest) :
      Spelled [c] rest (.wrong (.invalidCharacter c))

structure Exhausts (first : Char) (run rest : List Char) : Prop where
  goesOn : ∀ c ∈ run, continues first c = true
  stops : Stops (continues first) rest

/-! ## What goes on with what -/

section

variable {c : Char}

theorem notMem_of_class {p : Char → Bool} {cs : List Char} (hc : p c = true)
    (hcs : cs.any p = false) : c ∉ cs := by
  intro hmem
  exact List.any_eq_false.mp hcs c hmem hc

theorem continues_of_notMem (h : c ∉ [';', '$', '%']) :
    continues c =
      if Numeral.isDigit 10 c then Numeral.isDigit 10
      else if isLetter c then isLetterOrDigit
      else fun _ => false := by
  simp only [List.mem_cons, List.not_mem_nil, or_false, not_or] at h
  obtain ⟨hcomment, hdollar, hpercent⟩ := h
  unfold continues
  rw [if_neg hcomment, if_neg hdollar, if_neg hpercent]

theorem continues_of_isBlank (h : isBlank c = true) : continues c = fun _ => false := by
  rw [isBlank, Bool.or_eq_true, Bool.or_eq_true] at h
  rcases h with (h | h) | h <;>
  · rw [of_decide_eq_true h]
    rfl

theorem isDigit_of_isLetter (h : isLetter c = true) : Numeral.isDigit 10 c = false := by
  rw [Bool.eq_false_iff]
  intro hdigit
  obtain ⟨hzero, hnine⟩ := Numeral.isDigit_ten_iff.mp hdigit
  rw [isLetter, Bool.or_eq_true, Bool.or_eq_true, Bool.and_eq_true, Bool.and_eq_true] at h
  rcases h with (h | ⟨h, -⟩) | ⟨h, -⟩
  · rw [of_decide_eq_true h] at hnine
    exact absurd hnine (by decide)
  · have hle : 65 ≤ c.toNat := of_decide_eq_true h
    omega
  · have hle : 97 ≤ c.toNat := of_decide_eq_true h
    omega

theorem continues_of_isLetter (h : isLetter c = true) : continues c = isLetterOrDigit := by
  rw [continues_of_notMem (notMem_of_class h rfl), isDigit_of_isLetter h, h]
  rfl

theorem continues_of_isDigit (h : Numeral.isDigit 10 c = true) :
    continues c = Numeral.isDigit 10 := by
  rw [continues_of_notMem (notMem_of_class h rfl), h]
  rfl

theorem continues_of_mark {r : Radix} (h : r.mark = [c]) : continues c = r.isDigit := by
  cases r with
  | binary | hexadecimal =>
    cases h
    rfl
  | decimal => cases h

theorem continues_of_unmarked (hcomment : c ≠ ';') (hletter : isLetter c = false)
    (hdigit : Numeral.isDigit 10 c = false) (hmark : ∀ r : Radix, r.mark ≠ [c]) :
    continues c = fun _ => false := by
  have hmem : c ∉ [';', '$', '%'] := by
    simp only [List.mem_cons, List.not_mem_nil, or_false, not_or]
    refine ⟨hcomment, ?_, ?_⟩
    · rintro rfl
      exact hmark .hexadecimal rfl
    · rintro rfl
      exact hmark .binary rfl
  rw [continues_of_notMem hmem, hletter, hdigit]
  rfl

end

/-! ## Reading what is spelled -/

section

variable {c : Char} {run rest slice : List Char} {reading : Reading}

theorem Exhausts.eq_nil (h : Exhausts c run rest) (hnone : continues c = fun _ => false) :
    run = [] := by
  cases run with
  | nil => rfl
  | cons d run =>
    have hd := h.goesOn d List.mem_cons_self
    rw [hnone] at hd
    cases hd

theorem exhausts_nil (h : continues c = fun _ => false) (rest : List Char) : Exhausts c [] rest :=
  ⟨List.forall_mem_nil _, fun d _ => congrFun h d⟩

theorem readLiteral_eq (r : Radix) (text digits : List Char) :
    readLiteral text r.base digits =
      if r.amount digits < 2 ^ 32 then .token (.literal (UInt32.ofNat (r.amount digits)))
      else .wrong (.literalTooLarge (String.ofList text)) := by
  rw [readLiteral, Numeral.value_eq_ofDigits]
  rfl

/-- What is neither blank nor a symbol is read as a word, a number or a mistake. -/
theorem read_of_notMem (h : c ∉ [' ', '\t', '\r', ';', '\n', ',', '=']) (run : List Char) :
    read c run =
      if isLetter c then .token (.identifier (String.ofList (c :: run)))
      else if Numeral.isDigit 10 c then readLiteral (c :: run) 10 (c :: run)
      else if c = '$' && !run.isEmpty then readLiteral (c :: run) 16 run
      else if c = '%' && !run.isEmpty then readLiteral (c :: run) 2 run
      else .wrong (.invalidCharacter c) := by
  simp only [List.mem_cons, List.not_mem_nil, or_false, not_or] at h
  obtain ⟨hspace, htab, hreturn, hcomment, hbreak, hcomma, hequals⟩ := h
  have hskipped : (isBlank c || decide (c = ';')) = false := by
    simp [isBlank, hspace, htab, hreturn, hcomment]
  unfold read
  rw [hskipped, if_neg Bool.false_ne_true, if_neg hbreak, if_neg hcomma, if_neg hequals]

theorem read_of_isLetter (h : isLetter c = true) (run : List Char) :
    read c run = .token (.identifier (String.ofList (c :: run))) := by
  rw [read_of_notMem (notMem_of_class h rfl), if_pos h]

theorem read_of_isDigit (h : Numeral.isDigit 10 c = true) (run : List Char) :
    read c run = readLiteral (c :: run) 10 (c :: run) := by
  have hletter : ¬isLetter c = true := by
    intro hletter
    cases h.symm.trans (isDigit_of_isLetter hletter)
  rw [read_of_notMem (notMem_of_class h rfl), if_neg hletter, if_pos h]

theorem read_of_mark {r : Radix} (h : r.mark = [c]) (hne : run ≠ []) :
    read c run = readLiteral (r.mark ++ run) r.base run := by
  obtain ⟨d, run, rfl⟩ := List.exists_cons_of_ne_nil hne
  cases r with
  | binary | hexadecimal =>
    cases h
    rfl
  | decimal => cases h

theorem Foreign.read (h : Foreign c rest) : read c [] = .wrong (.invalidCharacter c) := by
  have hblank := h.notBlank
  have hsymbol := h.notSymbol
  have hdigit : Numeral.isDigit 10 c = false := h.notDigit
  have hmem : c ∉ [' ', '\t', '\r', ';', '\n', ',', '='] := by
    simp [isBlank] at hblank hsymbol ⊢
    tauto
  rw [read_of_notMem hmem, h.notLetter, hdigit]
  simp

theorem Foreign.exhausts (h : Foreign c rest) : Exhausts c [] rest := by
  by_cases hmark : ∃ r : Radix, r.mark = [c]
  · obtain ⟨r, hr⟩ := hmark
    refine ⟨List.forall_mem_nil _, ?_⟩
    rw [continues_of_mark hr]
    exact h.unmarked r hr
  · have hsymbol : c ≠ ';' := by
      rintro rfl
      exact h.notSymbol List.mem_cons_self
    have hnone := continues_of_unmarked hsymbol h.notLetter h.notDigit (not_exists.mp hmark)
    exact exhausts_nil hnone rest

theorem Radix.Digits.spelled {r : Radix} {digits : List Char} (h : r.Digits digits rest) :
    Spelled (r.mark ++ digits) rest (readLiteral (r.mark ++ digits) r.base digits) := by
  rw [readLiteral_eq]
  split
  · rename_i hlt
    refine .literal h ?_
    rw [UInt32.toNat_ofNat', Nat.mod_eq_of_lt hlt]
  · rename_i hlarge
    exact .tooLarge h (Nat.le_of_not_lt hlarge)

theorem Radix.Digits.exists_exhausts {r : Radix} {digits : List Char} (h : r.Digits digits rest) :
    ∃ c run, r.mark ++ digits = c :: run ∧ Exhausts c run rest ∧
      read c run = readLiteral (r.mark ++ digits) r.base digits := by
  obtain ⟨d, more, hdigits⟩ := List.exists_cons_of_ne_nil h.ne_nil
  by_cases hmark : ∃ c, r.mark = [c]
  · obtain ⟨c, hc⟩ := hmark
    have hcontinues := continues_of_mark hc
    refine ⟨c, digits, by rw [hc]; rfl, ⟨?_, ?_⟩, read_of_mark hc h.ne_nil⟩
    · rw [hcontinues]
      exact h.digits
    · rw [hcontinues]
      exact h.stops
  · cases r with
    | binary | hexadecimal => exact absurd ⟨_, rfl⟩ hmark
    | decimal =>
      subst hdigits
      have hd : Numeral.isDigit 10 d = true := h.digits d List.mem_cons_self
      have hcontinues := continues_of_isDigit hd
      refine ⟨d, more, rfl, ⟨?_, ?_⟩, read_of_isDigit hd more⟩
      · rw [hcontinues]
        exact fun c hc => h.digits c (List.mem_cons_of_mem d hc)
      · rw [hcontinues]
        exact h.stops

theorem spelled_read (h : Exhausts c run rest) : Spelled (c :: run) rest (read c run) := by
  by_cases hblank : isBlank c = true
  · obtain rfl := h.eq_nil (continues_of_isBlank hblank)
    have hread : read c [] = .skipped := by
      rw [Script.read, hblank]
      rfl
    rw [hread]
    exact .blank hblank
  by_cases hsymbol : c ∈ [';', '\n', ',', '=']
  · simp only [List.mem_cons, List.not_mem_nil, or_false] at hsymbol
    rcases hsymbol with rfl | rfl | rfl | rfl
    · refine .comment (fun hmem => ?_) h.stops
      exact absurd (h.goesOn '\n' hmem) (by decide)
    · obtain rfl := h.eq_nil rfl
      exact .linebreak
    · obtain rfl := h.eq_nil rfl
      exact .comma
    · obtain rfl := h.eq_nil rfl
      exact .equals
  by_cases hletter : isLetter c = true
  · rw [read_of_isLetter hletter]
    have hcontinues := continues_of_isLetter hletter
    refine .identifier hletter ?_ ?_
    · rw [← hcontinues]
      exact h.goesOn
    · rw [← hcontinues]
      exact h.stops
  by_cases hdigit : Numeral.isDigit 10 c = true
  · have hcontinues : continues c = Radix.decimal.isDigit := continues_of_isDigit hdigit
    have hdigits : Radix.decimal.Digits (c :: run) rest := by
      refine ⟨List.cons_ne_nil c run, List.forall_mem_cons.mpr ⟨hdigit, ?_⟩, ?_⟩
      · exact fun d hd => hcontinues ▸ h.goesOn d hd
      · exact fun d hd => hcontinues ▸ h.stops d hd
    rw [read_of_isDigit hdigit]
    exact hdigits.spelled
  rw [Bool.not_eq_true] at hblank hletter hdigit
  by_cases hmark : ∃ r : Radix, r.mark = [c] ∧ run ≠ []
  · obtain ⟨r, hr, hne⟩ := hmark
    have hcontinues := continues_of_mark hr
    have hdigits : r.Digits run rest :=
      ⟨hne, fun d hd => hcontinues ▸ h.goesOn d hd, fun d hd => hcontinues ▸ h.stops d hd⟩
    rw [read_of_mark hr hne, ← List.singleton_append, ← hr]
    exact hdigits.spelled
  -- a mark without a digit is as foreign as any other character that is left
  · have hnil : run = [] := by
      by_cases hr : ∃ r : Radix, r.mark = [c]
      · obtain ⟨r, hr⟩ := hr
        exact Decidable.byContradiction fun hne => hmark ⟨r, hr, hne⟩
      · have hcomment : c ≠ ';' := by
          rintro rfl
          exact hsymbol List.mem_cons_self
        exact h.eq_nil (continues_of_unmarked hcomment hletter hdigit (not_exists.mp hr))
    subst hnil
    have hforeign : Foreign c rest :=
      ⟨hblank, hsymbol, hletter, hdigit, fun r hr d hd => continues_of_mark hr ▸ h.stops d hd⟩
    rw [hforeign.read]
    exact .invalid hforeign

theorem Spelled.exists_exhausts (h : Spelled slice rest reading) :
    ∃ c run, slice = c :: run ∧ Exhausts c run rest ∧ Script.read c run = reading := by
  cases h with
  | @blank c rest hc =>
    refine ⟨c, [], rfl, exhausts_nil (continues_of_isBlank hc) rest, ?_⟩
    rw [Script.read, hc]
    rfl
  | @comment body rest hbody hrest =>
    refine ⟨';', body, rfl, ⟨fun d hd => decide_eq_true ?_, hrest⟩, rfl⟩
    rintro rfl
    exact hbody hd
  | linebreak | comma | equals => exact ⟨_, [], rfl, exhausts_nil rfl rest, rfl⟩
  | @identifier c run rest hfirst hmore hrest =>
    have hcontinues := continues_of_isLetter hfirst
    refine ⟨c, run, rfl, ⟨?_, ?_⟩, read_of_isLetter hfirst run⟩
    · rw [hcontinues]
      exact hmore
    · rw [hcontinues]
      exact hrest
  | @literal r digits rest value hdigits hvalue =>
    obtain ⟨c, run, hslice, hexhausts, hread⟩ := hdigits.exists_exhausts
    refine ⟨c, run, hslice, hexhausts, ?_⟩
    rw [hread, readLiteral_eq, ← hvalue, if_pos value.toNat_lt, UInt32.ofNat_toNat]
  | @tooLarge r digits rest hdigits hlarge =>
    obtain ⟨c, run, hslice, hexhausts, hread⟩ := hdigits.exists_exhausts
    refine ⟨c, run, hslice, hexhausts, ?_⟩
    rw [hread, readLiteral_eq, if_neg (Nat.not_lt.mpr hlarge)]
  | @invalid c rest hforeign => exact ⟨c, [], rfl, hforeign.exhausts, hforeign.read⟩

/-- The stretches are the first characters with the longest runs behind them. -/
theorem spelled_iff :
    Spelled slice rest reading ↔
      ∃ c run, slice = c :: run ∧ Exhausts c run rest ∧ Script.read c run = reading := by
  refine ⟨Spelled.exists_exhausts, ?_⟩
  rintro ⟨c, run, rfl, hexhausts, rfl⟩
  exact spelled_read hexhausts

end

end Script

end Compare68k
