import Compare68k.Text.Numeral
/-!
# Command-line arguments

The grammar of the command line.  There are two commands, `dis` and `trace`.  Each takes plain
arguments and one option with a value, in any order, and anywhere the flag that asks for more
log messages.  Two dashes on their own make all that follows plain.
-/

namespace Compare68k.Cli

inductive Command where
  /-- List some instruction words from an address on. -/
  | dis (words : List String) (base : UInt32)
  /-- Run the script in a file, on a memory with the given number of address bits. -/
  | trace (script : String) (ramBits : UInt32)
deriving DecidableEq, Repr

/-- A command and how often more log messages were asked for. -/
structure Invocation where
  verbosity : Nat
  command : Command
deriving DecidableEq, Repr

inductive Argument where
  /-- The flag for more log messages, given a number of times. -/
  | verbose (times : Nat)
  | dashes
  /-- An option by its name, with the value joined to it if there is one. -/
  | option (name : List Char) (value : Option (List Char))
  /-- A short flag that does not exist. -/
  | unknown
  | plain (text : String)
deriving DecidableEq, Repr

def classify (text : String) : Argument :=
  match text.toList with
  | ['-', '-'] => .dashes
  | '-' :: '-' :: rest =>
    let name := rest.takeWhile (· ≠ '=')
    match rest.dropWhile (· ≠ '=') with
    | [] => if name = "verbose".toList then .verbose 1 else .option name none
    | _ :: value => .option name (some value)
  | '-' :: c :: rest =>
    if (c :: rest).all (· = 'v') then .verbose (rest.length + 1) else .unknown
  | _ => .plain text

/-- What has been gathered of a command's arguments. -/
structure Gathered where
  verbose : Nat := 0
  plain : List String := []
  value : Option (List Char) := none
deriving DecidableEq, Repr

/-- Gathers the arguments of a command with the given option.  The option may be given once,
and its value may stand in the same argument or in the next one. -/
def gather (option : List Char) (g : Gathered) : List String → Option Gathered
  | [] => some g
  | a :: rest =>
    match classify a with
    | .verbose times => gather option { g with verbose := g.verbose + times } rest
    | .dashes => some { g with plain := g.plain ++ rest }
    | .plain text => gather option { g with plain := g.plain ++ [text] } rest
    | .unknown => none
    | .option name (some value) =>
      if name = option ∧ g.value.isNone then gather option { g with value := some value } rest
      else none
    | .option name none =>
      if name = option ∧ g.value.isNone then
        match rest with
        | [] => none
        | b :: rest =>
          match classify b with
          | .plain text => gather option { g with value := some text.toList } rest
          | _ => none
      else
        none

/-- An address: hexadecimal behind a dollar sign or 0x, and decimal otherwise. -/
def address? (text : List Char) : Option UInt32 :=
  let n :=
    match text with
    | '$' :: digits => Text.Numeral.below? 16 UInt32.size digits
    | '0' :: 'x' :: digits => Text.Numeral.below? 16 UInt32.size digits
    | digits => Text.Numeral.below? 10 UInt32.size digits
  n.map UInt32.ofNat

/-- A number of address bits: decimal, with a sign if one likes, and not below zero. -/
def bits? (text : List Char) : Option UInt32 :=
  match text with
  | '-' :: digits => ((Text.Numeral.read? 10 digits).filter (· = 0)).map UInt32.ofNat
  | digits => (Text.Numeral.below? 10 UInt32.size digits).map UInt32.ofNat

def defaultBits : UInt32 := 20

def disCommand (g : Gathered) : Option Command := do
  let base ← g.value.elim (some 0) address?
  if g.plain.isEmpty then none else some (.dis g.plain base)

def traceCommand (g : Gathered) : Option Command := do
  let ramBits ← g.value.elim (some defaultBits) bits?
  match g.plain with
  | [script] => if script.isEmpty then none else some (.trace script ramBits)
  | _ => none

/-- The invocation of a command.  Flags behind the command count instead of those before
it. -/
def invoke (verbosity : Nat) (option : String) (command : Gathered → Option Command)
    (args : List String) : Option Invocation := do
  let g ← gather option.toList {} args
  let command ← command g
  return { verbosity := if g.verbose = 0 then verbosity else g.verbose, command }

def invocationFrom (verbosity : Nat) : List String → Option Invocation
  | [] => none
  | a :: rest =>
    if a = "dis" then invoke verbosity "base" disCommand rest
    else if a = "trace" then invoke verbosity "ram-bits" traceCommand rest
    else
      match classify a with
      | .verbose times => invocationFrom (verbosity + times) rest
      | _ => none

def invocation? (args : List String) : Option Invocation :=
  invocationFrom 0 args

end Compare68k.Cli
