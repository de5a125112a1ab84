import Compare68k.Cli.Failure
/-!
# Folders

Reading files without a system: what a path leads to from a folder of files.  A path is walked
name by name.  Of the folders above, a walk knows only that they are folders.
-/

namespace Compare68k.Cli

/-- A folder that holds files, each under its name. -/
structure Folder where
  files : List (String × ByteArray) := []

namespace Folder

def nameLimit : Nat := 255

def pathLimit : Nat := 4095

/-- Where a walk has come to. -/
inductive Place where
  /-- The folder it started from. -/
  | here
  /-- A folder above that one. -/
  | above
  | file (contents : ByteArray)

def file? (f : Folder) (name : String) : Place → Option ByteArray
  | .here => f.files.lookup name
  | _ => none

/-- One name further along a path.  Files have no names in them, not even that of
themselves. -/
def enter (f : Folder) : Place → String → Except FileError Place
  | .file _, _ => .error .notADirectory
  | place, name =>
    if name = "" ∨ name = "." then .ok place
    else if name = ".." then .ok .above
    else if nameLimit < name.utf8ByteSize then .error .nameTooLong
    else ((f.file? name place).map Place.file).elim (.error .notFound) .ok

def walk (f : Folder) (path : String) : Except FileError Place :=
  (path.splitOn "/").foldlM f.enter (if path.startsWith "/" then .above else .here)

/-- The contents of the file that a path leads to.  A path that is too long leads nowhere,
whatever its names are. -/
def read (f : Folder) (path : String) : Except FileError ByteArray :=
  if path.isEmpty then .error .notFound
  else if pathLimit < path.utf8ByteSize then .error .nameTooLong
  else do
    match ← f.walk path with
    | .file contents => return contents
    | _ => throw .isADirectory

end Folder

end Compare68k.Cli
