/-!
# Files

What can go wrong when a file is read, and files held in memory to read from.

- `FileError` is the cause of a failure; `FileError.message` words it the way the system does.
- `FileError.ofPath?` finds the fault of a path that no file can have.
- `Place.read` looks a path up from a place among folders, component by component, so that the
  first component at fault decides the answer.
-/

namespace Supertypes

/-- Why a file cannot be read. -/
inductive FileError
  /-- A component of the path does not exist. -/
  | missing
  | denied
  /-- A component that more of the path follows is a file. -/
  | notAFolder
  /-- The path leads to a folder. -/
  | isAFolder
  /-- The path or one of its components is too long. -/
  | nameTooLong
  /-- The path holds the character of code zero. -/
  | zeroInPath
  /-- The file holds bytes that are no text. -/
  | notText
  | other (reason : String)
  deriving DecidableEq, Repr

namespace FileError

/-- The wording of an error. -/
def message : FileError → String
  | .missing => "No such file or directory (os error 2)"
  | .denied => "Permission denied (os error 13)"
  | .notAFolder => "Not a directory (os error 20)"
  | .isAFolder => "Is a directory (os error 21)"
  | .nameTooLong => "File name too long (os error 36)"
  | .zeroInPath => "file name contained an unexpected NUL byte"
  | .notText => "stream did not contain valid UTF-8"
  | .other reason => reason

/-- The cause that the system reports by a number. -/
def ofNumber? : Nat → Option FileError
  | 2 => some .missing
  | 13 => some .denied
  | 20 => some .notAFolder
  | 21 => some .isAFolder
  | 36 => some .nameTooLong
  | _ => none

/-- Most bytes of a path. -/
def maxPath : Nat := 4095

/-- Most bytes of a component of a path. -/
def maxName : Nat := 255

/-- The fault of a path as a whole. -/
def ofPath? (path : String) : Option FileError :=
  if '\x00' ∈ path.toList then some .zeroInPath
  else if maxPath < path.utf8ByteSize then some .nameTooLong
  else if path = "" then some .missing
  else none

end FileError

/-- A file, or a folder with its entries by name. -/
inductive FileTree
  | file (text : String)
  | folder (entries : List (String × FileTree))

/-- A place among files: what is there, and the folders around it, the nearest first. -/
structure Place where
  here : FileTree
  around : List FileTree := []

namespace Place

/-- The folder around all others. -/
def root (p : Place) : Place where
  here := p.around.getLast?.getD p.here

/-- The folder around a place; the root is around itself. -/
def up (p : Place) : Place :=
  match p.around with
  | [] => p
  | nearest :: around => ⟨nearest, around⟩

/-- Follow one component of a path. -/
def step (p : Place) (name : String) : Except FileError Place :=
  match p.here with
  | .file _ => .error .notAFolder
  | .folder entries =>
    if name = "" ∨ name = "." then .ok p
    else if name = ".." then .ok p.up
    else if FileError.maxName < name.utf8ByteSize then .error .nameTooLong
    else match entries.find? (·.1 = name) with
      | some (_, tree) => .ok ⟨tree, p.here :: p.around⟩
      | none => .error .missing

/-- The text of the file that a path leads to. A path with a leading slash starts from the
root. -/
def read (p : Place) (path : String) : Except FileError String := do
  if let some e := FileError.ofPath? path then
    throw e
  let start := if path.startsWith "/" then p.root else p
  match (← (path.splitOn "/").foldlM step start).here with
  | .file text => return text
  | .folder _ => throw .isAFolder

end Place

end Supertypes
