import Compare68k.Bus.Traced
import Compare68k.Cli.Folder
import Compare68k.Main
import Compare68k.Instruction.Dispatch
import Compare68k.Proofs.Denotation
import Compare68k.Proofs.Width
import Compare68k.Proofs.Bus.Ledger
import Compare68k.Proofs.Instruction.Decoding
import Compare68k.Proofs.Instruction.Fields
import Compare68k.Proofs.Instruction.Encoding
import Compare68k.Proofs.Instruction.Dispatch
import Compare68k.Proofs.Operand.Resolve
import Compare68k.Proofs.Operand.Delivery
import Compare68k.Proofs.Instruction.Course
import Compare68k.Proofs.Processor.Reachable
import Compare68k.Proofs.Processor.Step
import Compare68k.Proofs.Processor.Comparison
import Compare68k.Proofs.Processor.Timing
import Compare68k.Proofs.Processor.ListedRun
import Compare68k.Proofs.Processor.Control
import Compare68k.Proofs.Processor.Suspension
import Compare68k.Proofs.Processor.Renewal
import Compare68k.Proofs.Bus.Logged
import Compare68k.Proofs.Operand.Calls
import Compare68k.Proofs.Processor.Carried
import Compare68k.Proofs.Processor.Traffic
import Compare68k.Proofs.Script.Run
import Compare68k.Proofs.Script.Lexing
import Compare68k.Proofs.Script.Grammar
import Compare68k.Proofs.Script.Mistakes
import Compare68k.Proofs.Script.Relocation
import Compare68k.Proofs.Processor.Refusal
import Compare68k.Proofs.Script.Checking
import Compare68k.Proofs.Script.Joining
import Compare68k.Proofs.Operand.Movement
import Compare68k.Proofs.Instruction.Turn
import Compare68k.Proofs.Processor.Turn
import Compare68k.Proofs.Processor.Balance
import Compare68k.Proofs.Processor.Reading
import Compare68k.Proofs.Processor.Frame
import Compare68k.Proofs.Processor.History
import Compare68k.Proofs.Text.Hex
import Compare68k.Proofs.Listing.Notation
import Compare68k.Proofs.Instruction.Recovery
import Compare68k.Proofs.Listing.Words
import Compare68k.Proofs.Listing.Identity
import Compare68k.Proofs.Script.Moments
import Compare68k.Proofs.Cli.Trace
import Compare68k.Proofs.Flags
import Compare68k.Proofs.Bus.Mirror
import Compare68k.Proofs.Processor.Image
import Compare68k.Proofs.Operand.Polls
import Compare68k.Proofs.Operand.Disturbance
import Compare68k.Proofs.Script.Spelling
import Compare68k.Proofs.Script.Splitting
import Compare68k.Proofs.Script.Viability
import Compare68k.Proofs.Script.Slicing
import Compare68k.Proofs.Script.Places
import Compare68k.Proofs.Listing.Meaning
import Compare68k.Proofs.Script.Storing
import Compare68k.Proofs.Cli.Sweep
import Compare68k.Proofs.Script.Wording
