/-!
# Files

What the command line sees of a file system: a `Disk` answers whether a path
leads to a regular file or to a directory, what is read from it, which paths a
walk through a directory gives, and whether a file may be written. Each of these
is a question of its own. In particular there may be a file that cannot be opened.

Reading fails if the file cannot be opened (`FileFault`) or if a line of it is
not text (`InputError`). The messages are those of the operating system.

A *path* is a text whose names are separated by slashes.
-/

namespace GridSat

/-! ### What can go wrong -/

/-- Why a file cannot be opened. -/
inductive FileFault where
  /-- Some part of the path does not exist. -/
  | missing
  /-- The file may not be read, or some directory of the path not be entered. -/
  | denied
  /-- Some part of the path that is not the last is no directory. -/
  | notDirectory
  /-- The path leads to a directory. -/
  | isDirectory
  /-- A name of the path, or all of it, is longer than a path may be. -/
  | tooLong
  /-- Anything else, in the words of the system. -/
  | other (description : String)
deriving DecidableEq

/-- The text of a fault, with its number. -/
def FileFault.message : FileFault → String
  | missing => "No such file or directory (os error 2)"
  | denied => "Permission denied (os error 13)"
  | notDirectory => "Not a directory (os error 20)"
  | isDirectory => "Is a directory (os error 21)"
  | tooLong => "File name too long (os error 36)"
  | other description => description

/-- Why a stream of lines cannot be read. -/
inductive InputError where
  /-- The file cannot be opened. -/
  | file (fault : FileFault)
  /-- A line is not UTF-8. -/
  | notText
deriving DecidableEq

/-- The text of an input error. -/
def InputError.message : InputError → String
  | file fault => s!"I/O error: {fault.message}"
  | notText => "I/O error: stream did not contain valid UTF-8"

/-! ### Disks -/

/-- The answers of a file system. -/
structure Disk where
  /-- Whether a path leads to a regular file. A file that cannot be looked at
      counts as none. -/
  isFile : String → Bool
  /-- Whether a path leads to a directory, as far as it can be looked at. -/
  isDirectory : String → Bool
  /-- What is read from a path, or why it cannot be opened. -/
  read : String → Except FileFault ByteArray
  /-- The paths that a walk through a directory gives, in its order: that of the
      directory, and those of everything below it that it comes to. -/
  walk : String → List String
  /-- What stands in the way of writing a file. -/
  writeFault? : String → Option FileFault

/-- The disk that has nothing on it. -/
def Disk.empty : Disk where
  isFile _ := false
  isDirectory _ := false
  read _ := .error .missing
  walk _ := []
  writeFault? _ := none

/-! ### Paths -/

/-- The path of what the names lead to from a directory. -/
def joinPath (path : String) : List String → String
  | [] => path
  | name :: names =>
    let separator := if path.toList.getLast? = some '/' then "" else "/"
    path ++ separator ++ String.intercalate "/" (name :: names)

/-- What follows the last dot of a file name. A name has no extension if it has
    no dot, or only one at its start. -/
def fileExtension? (path : String) : Option String :=
  let name := (path.toList.splitOn '/').getLastD []
  let (after, before) := name.reverse.span (· ≠ '.')
  match before with
  | [] | ['.'] => none
  | _ => some (String.ofList after.reverse)

end GridSat
