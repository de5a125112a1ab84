import Compare68k.Registers
import Compare68k.Script.Clause
/-!
# Statements

The statements of a script, with the names and values in them checked.  `parse` reads a script;
a script that is wrong has either one complaint about its text or its tokens, or one for each
statement that has a wrong name or value in it.
-/

namespace Compare68k.Script

inductive Action where
  | set (register : Register) (value : UInt32)
  /-- Stores words from an address on. -/
  | poke (address : Address) (words : List UInt16)
  | step (count : UInt32)
deriving DecidableEq, Repr

structure Statement where
  span : Span
  action : Action
deriving DecidableEq

def wordOf (n : Located UInt32) : Except Complaint UInt16 :=
  if n.value ≤ 0xFFFF then .ok n.value.toUInt16 else .error ⟨n.span, .notAWord n.value⟩

/-- The statement that a clause makes, or what is wrong with its names and values. -/
def Clause.check : Clause → Except Complaint Statement
  | .assign name value =>
    match Register.ofName? name.value with
    | some r => .ok ⟨name.span.merge value.span, .set r value.value⟩
    | none => .error ⟨name.span, .unknownRegister name.value⟩
  | .mem keyword address words last => do
    let words ← (words ++ [last]).mapM wordOf
    return ⟨keyword.merge last.span, .poke address.value words⟩
  | .step keyword (some count) =>
    if count.value = 0 then .error ⟨count.span, .zeroCount⟩
    else .ok ⟨keyword.merge count.span, .step count.value⟩
  | .step keyword none => .ok ⟨keyword, .step 1⟩

def complaints {α : Type} (results : List (Except Complaint α)) : List Complaint :=
  results.filterMap fun
    | .ok _ => none
    | .error e => some e

def values {α : Type} (results : List (Except Complaint α)) : List α :=
  results.filterMap fun
    | .ok v => some v
    | .error _ => none

/-- Tokens with a line break at their end.  One is put there if there is none. -/
def terminate (stop : Span) (ts : List Token) : List Token :=
  match ts.getLast? with
  | some t => if t.isBreak then ts else ts ++ [⟨stop, .linebreak⟩]
  | none => ts

/-- The statements of a script, or what is wrong with it. -/
def parse (source : String) : Except (List Complaint) (List Statement) :=
  let items := lex source
  match complaints items with
  | e :: _ => .error [e]
  | [] =>
    match readClauses (terminate (.point source.utf8ByteSize) (values items)) with
    | .error e => .error [e]
    | .ok cs =>
      let results := cs.map Clause.check
      if (complaints results).isEmpty then .ok (values results) else .error (complaints results)

end Compare68k.Script
