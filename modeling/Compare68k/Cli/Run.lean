import Compare68k.Cli.Arguments
import Compare68k.Cli.Failure
import Compare68k.Cli.Sweep
/-!
# Running a command

What a command writes and how it ends, given a way to read files.  Log messages and errors go
to the second output; how many kinds of log message there are depends on the verbosity.
-/

namespace Compare68k.Cli

structure Outcome where
  exit : UInt32 := 0
  output : String := ""
  errors : String := ""
deriving DecidableEq, Repr

/-- The kinds of log message, by how much verbosity they need. -/
inductive Level where
  | debug
  | trace
deriving DecidableEq, Repr

def Level.threshold : Level → Nat
  | debug => 2
  | trace => 3

def Level.label : Level → String
  | debug => "DEBUG"
  | trace => "TRACE"

def lines (ls : List String) : String :=
  String.join (ls.map (· ++ "\n"))

def logLines (verbosity : Nat) (level : Level) (topic message : String) : List String :=
  if level.threshold ≤ verbosity then [level.label ++ " [" ++ topic ++ "]: " ++ message] else []

def tableLog (verbosity : Nat) : List String :=
  logLines verbosity .debug "m68tick::instr"
    ("built opcode table: " ++ toString Table.standard.legalCount ++ " legal opcodes")

def padRight (width : Nat) (s : String) : String :=
  s ++ String.ofList (List.replicate (width - s.length) ' ')

def padLeft (width : Nat) (s : String) : String :=
  String.ofList (List.replicate (width - s.length) ' ') ++ s

/-- The timing of one instruction: its address, its listing, its clock cycles and its bus
activities. -/
def timingText (r : Report) (l : Line) : String :=
  "$" ++ Text.Hex.padded 6 r.address.toNat ++ "  " ++ padRight 28 l.text ++ " " ++
    padLeft 3 (toString r.cycles) ++ " cycles  " ++ Cycle.pattern r.transactions

def eventLog (verbosity : Nat) : Script.Event → List String
  | .assigned r v =>
    logLines verbosity .debug "m68tick::script"
      (r.name ++ " = $" ++ Text.Hex.padded 8 v.toNat)
  | .poked a n =>
    logLines verbosity .debug "m68tick::script"
      ("poke " ++ toString n ++ " word(s) at $" ++ Text.Hex.padded 6 a.toNat)
  | .executed r l => logLines verbosity .trace "instr" (timingText r l)

def failed (log : List String) (f : Failure) : Outcome :=
  { exit := 1, errors := lines (log ++ ["Error: " ++ f.text]) }

def runDis (verbosity : Nat) (words : List String) (base : UInt32) : Outcome :=
  let log := tableLog verbosity
  match instructionWords words with
  | .error w => failed log (.invalidWord w)
  | .ok ws => { output := lines ((listWords ws base).map listingText), errors := lines log }

def complaintLine (path source : String) (c : Script.Complaint) : String :=
  let place :=
    match c.span.lineAndColumn? source with
    | some (line, column) => toString line ++ ":" ++ toString column
    | none => ""
  path ++ ":" ++ place ++ ": " ++ c.message

/-- The memory for scripts: its address bits are at least one and at most those connected. -/
def scriptMemory (bits : UInt32) : Ram :=
  .zeroed (max 1 (min 24 bits.toNat)) (by omega)

/-- The lines about a finished script.  Each instruction is listed as it stands in memory when
the script is over. -/
def timingLines (r : Script.Run Ram) : List String :=
  r.reports.map fun report =>
    timingText report (r.processor.disassemble r.bus report.address)

def runSource (verbosity : Nat) (path source : String) (bits : UInt32) : Outcome :=
  match Script.parse source with
  | .error cs => failed (cs.map (complaintLine path source)) (.script (.complaints cs))
  | .ok statements =>
    let start : Script.Run Ram :=
      { processor := .ofTable .standard, bus := scriptMemory bits }
    match Script.Run.statements statements start with
    | .error fault => { exit := 101, errors := lines fault.message.toList }
    | .ok r =>
      let log := tableLog verbosity ++ r.journal.toList.flatMap (eventLog verbosity)
      match r.stopped with
      | some b => failed log (.script (.stopped b))
      | none =>
        { output := lines (timingLines r ++ [r.processor.registers.display]), errors := lines log }

def runTrace (verbosity : Nat) (path : String) (contents : Except FileError ByteArray)
    (bits : UInt32) : Outcome :=
  match contents with
  | .error e => failed [] (.unreadable e)
  | .ok bytes =>
    match String.fromUTF8? bytes with
    | none => failed [] .notText
    | some source => runSource verbosity path source bits

def usage : Outcome where
  exit := 2
  errors := lines
    ["usage: [-v]... dis WORD... [--base ADDRESS]", "       [-v]... trace SCRIPT [--ram-bits N]"]

/-- Runs a command line, reading files in the given way. -/
def run {m : Type → Type} [Monad m] (readFile : String → m (Except FileError ByteArray))
    (args : List String) : m Outcome :=
  match invocation? args with
  | none => pure usage
  | some ⟨verbosity, .dis words base⟩ => pure (runDis verbosity words base)
  | some ⟨verbosity, .trace path bits⟩ => do
    return runTrace verbosity path (← readFile path) bits

end Compare68k.Cli
