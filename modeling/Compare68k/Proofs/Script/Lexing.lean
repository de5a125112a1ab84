import Compare68k.Script.Statement
/-!
# Tokens of a text

Where the tokens of a text stand.  A text further down has the same tokens further down; and no
token or comment runs over a line break, so the tokens of two texts with a line break between them
are those of the first, the line break, and those of the second.
-/

namespace Compare68k.Script

/-! ## Bytes -/

theorem byteLength_append (cs ds : List Char) :
    byteLength (cs ++ ds) = byteLength cs + byteLength ds := by
  induction cs with
  | nil => rw [List.nil_append, byteLength, Nat.zero_add]
  | cons c cs ih => rw [List.cons_append, byteLength, byteLength, ih, Nat.add_assoc]

theorem utf8ByteSize_ofList (cs : List Char) : (String.ofList cs).utf8ByteSize = byteLength cs := by
  induction cs with
  | nil => rfl
  | cons c cs ih =>
    rw [byteLength, ← ih, ← List.singleton_append, String.ofList_append, String.utf8ByteSize_append]
    rw [← String.utf8ByteSize_singleton]
    rfl

theorem byteLength_toList (s : String) : byteLength s.toList = s.utf8ByteSize := by
  rw [← utf8ByteSize_ofList, String.ofList_toList]

/-! ## Results -/

section Results

variable {α : Type} {xs ys : List (Except Complaint α)}

theorem complaints_append (xs ys : List (Except Complaint α)) :
    complaints (xs ++ ys) = complaints xs ++ complaints ys :=
  List.filterMap_append

theorem values_append (xs ys : List (Except Complaint α)) :
    values (xs ++ ys) = values xs ++ values ys :=
  List.filterMap_append

theorem complaints_map_ok (as : List α) : complaints (as.map Except.ok) = [] := by
  rw [complaints, List.filterMap_map]
  exact List.filterMap_eq_nil_iff.mpr fun _ _ => rfl

theorem values_map_ok (as : List α) : values (as.map Except.ok) = as := by
  rw [values, List.filterMap_map]
  exact List.filterMap_some

theorem eq_map_values (h : complaints xs = []) : xs = (values xs).map Except.ok := by
  induction xs with
  | nil => rfl
  | cons x xs ih =>
    cases x with
    | ok a => exact congrArg (Except.ok a :: ·) (ih h)
    | error e => cases h

theorem mem_complaints_iff {e : Complaint} : e ∈ complaints xs ↔ .error e ∈ xs := by
  rw [complaints, List.mem_filterMap]
  constructor
  · rintro ⟨x, hx, he⟩
    cases x with
    | ok a => cases he
    | error e' =>
      cases he
      exact hx
  · exact fun hx => ⟨_, hx, rfl⟩

theorem mem_values_iff {a : α} : a ∈ values xs ↔ .ok a ∈ xs := by
  rw [values, List.mem_filterMap]
  constructor
  · rintro ⟨x, hx, ha⟩
    cases x with
    | error e => cases ha
    | ok a' =>
      cases ha
      exact hx
  · exact fun hx => ⟨_, hx, rfl⟩

theorem pairwise_values {R : α → α → Prop}
    (h : xs.Pairwise fun x y => ∀ a b, x = .ok a → y = .ok b → R a b) :
    (values xs).Pairwise R := by
  rw [values, List.pairwise_filterMap]
  refine h.imp fun {x y} hxy a ha b hb => ?_
  cases x with
  | error e => cases ha
  | ok =>
    cases y with
    | error e => cases hb
    | ok =>
      cases ha
      cases hb
      exact hxy a b rfl rfl

end Results

/-! ## Runs of characters -/

def Reading.items (span : Span) : Reading → List (Except Complaint Token)
  | skipped => []
  | token lexeme => [.ok ⟨span, lexeme⟩]
  | wrong cause => [.error ⟨span, cause⟩]

def Span.ofLength (start length : Nat) : Span :=
  ⟨start, start + length, Nat.le_add_right start length⟩

def stretch (offset : Nat) (c : Char) (cs : List Char) : Span :=
  .ofLength offset (byteLength (c :: cs.takeWhile (continues c)))

theorem lexFrom_nil (offset : Nat) : lexFrom offset [] = [] := by
  rw [lexFrom]

theorem lexFrom_cons (offset : Nat) (c : Char) (cs : List Char) :
    lexFrom offset (c :: cs) =
      (read c (cs.takeWhile (continues c))).items (stretch offset c cs) ++
        lexFrom (stretch offset c cs).stop (cs.dropWhile (continues c)) := by
  rw [lexFrom]
  dsimp only
  split <;> rename_i hread <;> rw [hread] <;> rfl

/-- Induction along the stretches of a text. -/
theorem stretch_induction {P : Nat → List Char → Prop} (nil : ∀ offset, P offset [])
    (cons : ∀ offset c cs,
      P (stretch offset c cs).stop (cs.dropWhile (continues c)) → P offset (c :: cs))
    (offset : Nat) (cs : List Char) : P offset cs := by
  fun_induction lexFrom offset cs with
  | case1 offset => exact nil offset
  | case2 offset c cs _ _ _ _ ih => exact cons offset c cs ih
  | case3 offset c cs _ _ _ _ _ ih => exact cons offset c cs ih
  | case4 offset c cs _ _ _ _ _ ih => exact cons offset c cs ih

theorem byteLength_stretch (c : Char) (cs : List Char) :
    byteLength (c :: cs) =
      byteLength (c :: cs.takeWhile (continues c)) + byteLength (cs.dropWhile (continues c)) := by
  rw [← byteLength_append, List.cons_append, List.takeWhile_append_dropWhile]

/-! ## Texts further down -/

def Span.shift (k : Nat) (s : Span) : Span :=
  ⟨s.start + k, s.stop + k, Nat.add_le_add_right s.start_le_stop k⟩

def Token.relocate (f : Span → Span) (t : Token) : Token :=
  { t with span := f t.span }

def Complaint.relocate (f : Span → Span) (e : Complaint) : Complaint :=
  { e with span := f e.span }

def relocateResult {α : Type} (relocate : (Span → Span) → α → α) (f : Span → Span) :
    Except Complaint α → Except Complaint α
  | .ok a => .ok (relocate f a)
  | .error e => .error (e.relocate f)

theorem complaints_relocate {α : Type} (relocate : (Span → Span) → α → α) (f : Span → Span)
    (xs : List (Except Complaint α)) :
    complaints (xs.map (relocateResult relocate f)) = (complaints xs).map (·.relocate f) := by
  induction xs with
  | nil => rfl
  | cons x xs ih =>
    cases x with
    | ok a => exact ih
    | error e => exact congrArg _ ih

theorem values_relocate {α : Type} (relocate : (Span → Span) → α → α) (f : Span → Span)
    (xs : List (Except Complaint α)) :
    values (xs.map (relocateResult relocate f)) = (values xs).map (relocate f) := by
  induction xs with
  | nil => rfl
  | cons x xs ih =>
    cases x with
    | ok a => exact congrArg _ ih
    | error e => exact ih

theorem stretch_shift (k offset : Nat) (c : Char) (cs : List Char) :
    stretch (offset + k) c cs = (stretch offset c cs).shift k := by
  simp only [stretch, Span.ofLength, Span.shift, Nat.add_right_comm]

theorem items_relocate (f : Span → Span) (span : Span) (reading : Reading) :
    reading.items (f span) = (reading.items span).map (relocateResult Token.relocate f) := by
  cases reading <;> rfl

theorem lexFrom_shift (k offset : Nat) (cs : List Char) :
    lexFrom (offset + k) cs =
      (lexFrom offset cs).map (relocateResult Token.relocate (Span.shift k)) := by
  induction offset, cs using stretch_induction with
  | nil offset =>
    rw [lexFrom_nil, lexFrom_nil]
    rfl
  | cons offset c cs ih =>
    rw [lexFrom_cons, lexFrom_cons, stretch_shift, items_relocate, List.map_append, ← ih]
    rfl

/-! ## Texts with a line break between them -/

theorem continues_newline (first : Char) : continues first '\n' = false := by
  unfold continues
  repeat' split
  all_goals rfl

theorem takeWhile_append_newline (first : Char) (cs ds : List Char) :
    (cs ++ '\n' :: ds).takeWhile (continues first) = cs.takeWhile (continues first) := by
  induction cs with
  | nil => rw [List.nil_append, List.takeWhile_cons, continues_newline]; rfl
  | cons c cs ih => rw [List.cons_append, List.takeWhile_cons, List.takeWhile_cons, ih]

theorem dropWhile_append_newline (first : Char) (cs ds : List Char) :
    (cs ++ '\n' :: ds).dropWhile (continues first) =
      cs.dropWhile (continues first) ++ '\n' :: ds := by
  induction cs with
  | nil => rw [List.nil_append, List.dropWhile_cons, continues_newline]; rfl
  | cons c cs ih =>
    rw [List.cons_append, List.dropWhile_cons, List.dropWhile_cons, ih]
    split <;> rfl

theorem continues_of_newline : continues '\n' = fun _ => false := rfl

theorem lexFrom_newline (offset : Nat) (cs : List Char) :
    lexFrom offset ('\n' :: cs) =
      .ok ⟨⟨offset, offset + 1, Nat.le_succ _⟩, .linebreak⟩ :: lexFrom (offset + 1) cs := by
  have htake : cs.takeWhile (continues '\n') = [] := by
    rw [continues_of_newline]
    cases cs <;> rfl
  have hdrop : cs.dropWhile (continues '\n') = cs := by
    rw [continues_of_newline]
    cases cs <;> rfl
  have hstretch : stretch offset '\n' cs = ⟨offset, offset + 1, Nat.le_succ _⟩ := by
    simp only [stretch, htake]
    rfl
  rw [lexFrom_cons, hstretch, htake, hdrop]
  rfl

theorem stretch_append_newline (offset : Nat) (c : Char) (cs ds : List Char) :
    stretch offset c (cs ++ '\n' :: ds) = stretch offset c cs := by
  simp only [stretch, takeWhile_append_newline]

theorem lexFrom_append_newline (offset : Nat) (cs ds : List Char) :
    lexFrom offset (cs ++ '\n' :: ds) =
      lexFrom offset cs ++ lexFrom (offset + byteLength cs) ('\n' :: ds) := by
  -- Every stretch, also one of a comment, stops in front of a line break.
  induction offset, cs using stretch_induction with
  | nil offset =>
    rw [lexFrom_nil]
    rfl
  | cons offset c cs ih =>
    rw [List.cons_append, lexFrom_cons, lexFrom_cons, takeWhile_append_newline,
      dropWhile_append_newline, stretch_append_newline, ih, List.append_assoc,
      byteLength_stretch, ← Nat.add_assoc]
    rfl

theorem lex_append_newline (s₁ s₂ : String) :
    lex (s₁ ++ "\n" ++ s₂) =
      lex s₁ ++
        .ok ⟨⟨s₁.utf8ByteSize, s₁.utf8ByteSize + 1, Nat.le_succ _⟩, .linebreak⟩ ::
          (lex s₂).map (relocateResult Token.relocate (Span.shift (s₁.utf8ByteSize + 1))) := by
  have htext : (s₁ ++ "\n" ++ s₂).toList = s₁.toList ++ '\n' :: s₂.toList := by
    rw [String.toList_append, String.toList_append, List.append_assoc]
    rfl
  rw [lex, htext, lexFrom_append_newline, lexFrom_newline, byteLength_toList, Nat.zero_add,
    lex, lex, ← lexFrom_shift, Nat.zero_add]

end Compare68k.Script
