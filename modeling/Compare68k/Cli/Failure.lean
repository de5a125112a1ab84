import Compare68k.Script.Run
/-!
# Failures of a command

What can go wrong once the command line has been understood, and the line that says so.
-/

namespace Compare68k.Cli

structure FileError where
  code : Nat
  kind : String
  message : String
deriving DecidableEq, Repr

namespace FileError

def notFound : FileError := ⟨2, "NotFound", "No such file or directory"⟩
def permissionDenied : FileError := ⟨13, "PermissionDenied", "Permission denied"⟩
def notADirectory : FileError := ⟨20, "NotADirectory", "Not a directory"⟩
def isADirectory : FileError := ⟨21, "IsADirectory", "Is a directory"⟩
def nameTooLong : FileError := ⟨36, "InvalidFilename", "File name too long"⟩
def loop : FileError := ⟨40, "FilesystemLoop", "Too many levels of symbolic links"⟩

def known : List FileError :=
  [notFound, permissionDenied, notADirectory, isADirectory, nameTooLong, loop]

def ofCode (code : Nat) (message : String) : FileError :=
  (known.find? (·.code = code)).getD ⟨code, "Uncategorized", message⟩

end FileError

inductive Failure where
  /-- A word to list is not a hexadecimal word. -/
  | invalidWord (text : String)
  /-- The script's file could not be read. -/
  | unreadable (error : FileError)
  /-- The script's file holds something else than text. -/
  | notText
  /-- The script has no result. -/
  | script (failure : Script.Failure)
deriving DecidableEq

def record (name : String) (fields : List (String × String)) : String :=
  name ++ " \x7b " ++ ", ".intercalate (fields.map fun (key, value) => key ++ ": " ++ value) ++
    " \x7d"

def complaintText (c : Script.Complaint) : String :=
  record "ParseError"
    [("span", record "SrcSpan" [("start", toString c.span.start), ("end", toString c.span.stop)]),
      ("message", Text.Escaped.quoted c.message)]

def breakText : Break → String
  | .illegalOpcode a op =>
    record "IllegalOpcode" [("addr", toString a.toNat), ("opcode", toString op.toNat)]

def scriptText : Script.Failure → String
  | .complaints cs => "Parse([" ++ ", ".intercalate (cs.map complaintText) ++ "])"
  | .stopped b => "Break(" ++ breakText b ++ ")"

def custom (kind content : String) : String :=
  record "Custom" [("kind", kind), ("error", content)]

namespace Failure

def text : Failure → String
  | invalidWord w =>
    custom "InvalidInput" (Text.Escaped.quoted ("invalid instruction word: " ++ w))
  | unreadable e =>
    record "Os"
      [("code", toString e.code), ("kind", e.kind), ("message", Text.Escaped.quoted e.message)]
  | notText =>
    record "Error"
      [("kind", "InvalidData"),
        ("message", Text.Escaped.quoted "stream did not contain valid UTF-8")]
  | script f => custom "InvalidData" (scriptText f)

end Failure

end Compare68k.Cli
