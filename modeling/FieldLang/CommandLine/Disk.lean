/-
Files and directories.

* `Disk` : the files and directories below the working directory;
* `DiskError` : why a file cannot be read or written, with its wording;
* `Disk.read`, `Disk.write` : reading and writing a file;
* `readLines` : a text with one kind of line end.

Design notes: nothing outside the working directory exists, and a path that leads above it
stays there.
-/
import FieldLang.CommandLine.Path
import FieldLang.Text.Quoted

namespace FieldLang

/-- The files and directories below the working directory, by the parts of their paths. -/
structure Disk where
  files : List (List String × List Char)
  directories : List (List String)

/-- Why a file cannot be read or written. -/
inductive DiskError where
  | notFound
  | notDirectory
  | isDirectory
deriving Repr, DecidableEq

/-- The number of an error. -/
def DiskError.number : DiskError → Nat
  | notFound => 2
  | notDirectory => 20
  | isDirectory => 21

/-- An error in words. -/
def DiskError.text : DiskError → String
  | notFound => "No such file or directory"
  | notDirectory => "Not a directory"
  | isDirectory => "Is a directory"

/-- The wording of an error at a path. -/
def DiskError.message (e : DiskError) (p : Path) : String :=
  "[Errno " ++ toString e.number ++ "] " ++ e.text ++ ": " ++ Text.quote p.text

namespace Disk

/-- Whether the parts of a path lead to a directory. The working directory is one, and so is
every directory that holds something. -/
def isDirectory (disk : Disk) (parts : List String) : Bool :=
  parts.isEmpty || disk.directories.any (parts.isPrefixOf ·) ||
    disk.files.any fun file => parts != file.1 && parts.isPrefixOf file.1

/-- The text of a file. -/
def file? (disk : Disk) (parts : List String) : Option (List Char) := disk.files.lookup parts

/-- Where the parts of a path lead, seen from a directory. -/
def locateFrom (disk : Disk) (base : List String) : List String → Except DiskError (List String)
  | [] => .ok base
  | [".."] => .ok base.dropLast
  | [part] => .ok (base ++ [part])
  | part :: rest =>
    let next := if part = ".." then base.dropLast else base ++ [part]
    if disk.isDirectory next then locateFrom disk next rest
    else if (disk.file? next).isSome then .error .notDirectory
    else .error .notFound

/-- Where a path leads. -/
def locate (disk : Disk) (p : Path) : Except DiskError (List String) :=
  if p.absolute then .error .notFound else disk.locateFrom [] p.parts

/-- The text of the file at a path. -/
def read (disk : Disk) (p : Path) : Except DiskError (List Char) := do
  let parts ← disk.locate p
  if disk.isDirectory parts then .error .isDirectory
  else
    match disk.file? parts with
    | some text => .ok text
    | none => .error .notFound

/-- Whether a text names something that exists; a slash at its end asks for a directory. -/
def has (disk : Disk) (s : String) : Bool :=
  match disk.read (Path.ofText s) with
  | .ok _ => s.toList.getLast? != some '/'
  | .error .isDirectory => s != ""
  | .error _ => false

/-- The disk with a text in the file at a path. -/
def write (disk : Disk) (p : Path) (text : List Char) : Except DiskError Disk := do
  let parts ← disk.locate p
  if disk.isDirectory parts then .error .isDirectory
  else .ok { disk with files := (parts, text) :: disk.files.filter fun file => file.1 != parts }

end Disk

/-- A text with a line feed for every line end. -/
def readLines : List Char → List Char
  | '\r' :: '\n' :: rest => '\n' :: readLines rest
  | '\r' :: rest => '\n' :: readLines rest
  | c :: rest => c :: readLines rest
  | [] => []

end FieldLang
