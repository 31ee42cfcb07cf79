/-!
# Directories in memory

A directory given by the files below it, and what reading a path in it gives.
A run of the command line can so be followed without touching a disk.
-/

namespace CactLang.Cli

/-- Why a file cannot be read. -/
inductive ReadFailure where
  | missing
  | notDirectory
  | isDirectory
  | nameTooLong
  | notText
  | other (reason : String)
  deriving DecidableEq, Repr

/-- The reason in words. -/
def ReadFailure.reason : ReadFailure → String
  | missing => "No such file or directory (os error 2)"
  | notDirectory => "Not a directory (os error 20)"
  | isDirectory => "Is a directory (os error 21)"
  | nameTooLong => "File name too long (os error 36)"
  | notText => "stream did not contain valid UTF-8"
  | other reason => reason

/-- The text of bytes that are UTF-8. -/
def decode (bytes : ByteArray) : Except ReadFailure String :=
  match String.fromUTF8? bytes with
  | some text => .ok text
  | none => .error .notText

/-- The files below a directory, each with the names that lead to it. Of two files
with the same names the first is the one that is there. -/
structure Directory where
  files : List (List String × ByteArray)

/-- The most bytes that a path may have. -/
def pathLimit : Nat := 4095

/-- The most bytes that one name in a path may have. -/
def nameLimit : Nat := 255

namespace Directory

/-- A directory with files put into it one after the other, their paths as
written. A later file takes the place of an earlier one with the same path. -/
def ofPaths (files : List (String × ByteArray)) : Directory :=
  ⟨files.reverse.map fun (path, bytes) =>
    ((path.splitOn "/").filter (fun part => part ≠ "" && part ≠ "."), bytes)⟩

/-- A place that a path has led to. -/
inductive Place where
  /-- A directory below this one, by the names that lead there. -/
  | inside (names : List String)
  /-- A directory around this one; what else it holds is not known. -/
  | outside
  /-- A file. -/
  | file (bytes : ByteArray)

/-- The place that a name leads to from the directory at `names`. -/
def child (d : Directory) (names : List String) (name : String) : Except ReadFailure Place :=
  let path := names ++ [name]
  match d.files.lookup path with
  | some bytes => .ok (.file bytes)
  | none =>
    if d.files.any fun (names, _) => path.isPrefixOf names then .ok (.inside path)
    else .error .missing

/-- The directory around the one at `names`. -/
def parent (names : List String) : Place :=
  if names.isEmpty then .outside else .inside names.dropLast

/-- One part of a path. An empty part and a dot stay in a directory, two dots
leave it, and every other part is a name in it. -/
def step (d : Directory) (place : Place) (part : String) : Except ReadFailure Place :=
  let isName := part ≠ "" && part ≠ "." && part ≠ ".."
  match place with
  | .file _ => .error .notDirectory
  | .outside =>
    if !isName then .ok .outside
    else if nameLimit < part.utf8ByteSize then .error .nameTooLong
    else .error .missing
  | .inside names =>
    if !isName then .ok (if part = ".." then parent names else place)
    else if nameLimit < part.utf8ByteSize then .error .nameTooLong
    else d.child names part

/-- The place a path leads to. The length of the whole path is judged before any
of its parts. -/
def find (d : Directory) (path : String) : Except ReadFailure Place :=
  if path = "" then .error .missing
  else if pathLimit < path.utf8ByteSize then .error .nameTooLong
  else
    let start := if path.startsWith "/" then Place.outside else .inside []
    (path.splitOn "/").foldlM d.step start

/-- The text of the file that a path leads to. -/
def read (d : Directory) (path : String) : Except ReadFailure String := do
  match ← d.find path with
  | .file bytes => decode bytes
  | _ => .error .isDirectory

end Directory

end CactLang.Cli
