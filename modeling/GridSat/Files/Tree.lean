import GridSat.Files.Disk

/-!
# File trees

A `Tree` lists what is below a directory, and is a disk on which a command can be
run. The tree of the working directory is given; of the root only what every
system has is known (`systemTree`), and of the directories between the two nothing
but that they are directories.

A path is followed name by name, from the root if it starts with a slash and from
the working directory if it does not: an empty name and a dot stay where they are,
two dots go back to the directory above, and every name has to be looked for in a
directory. Hence a slash after the name of a file is a fault.

A file of a tree need not be readable. Directories are, and there are no links. Other
disks may well have them: what holds of a command holds of it on any disk.
-/

namespace GridSat

/-- What a path may lead to. -/
inductive Node where
  /-- A regular file, with its content or what stands in the way of opening it. -/
  | file (content : Except FileFault ByteArray)
  /-- A directory. -/
  | directory
  /-- A device that gives nothing when it is read. -/
  | device

/-- The names of a path. -/
def pathNames (path : String) : List String :=
  (path.toList.splitOn '/').map String.ofList

/-- The length of the longest name, in bytes. -/
def nameLimit : Nat := 255

/-- The length of the longest path, in bytes. -/
def pathLimit : Nat := 4095

/-! ### Places -/

/-- A place in the file system. -/
inductive Place where
  /-- Where names lead from the working directory. -/
  | below (names : List String)
  /-- A directory that has the working directory somewhere below it. -/
  | above
  /-- Where names lead from the root. -/
  | fromRoot (names : List String)
deriving DecidableEq

namespace Place

/-- The place where a path starts. -/
def start (path : String) : Place :=
  if path.toList.head? = some '/' then .fromRoot [] else .below []

/-- The directory that a place is in. The root is in itself. -/
def parent : Place → Place
  | below [] => above
  | below names => below names.dropLast
  | above => above
  | fromRoot names => fromRoot names.dropLast

/-- The place of a name in a directory, as far as it is known. -/
def child? (name : String) : Place → Option Place
  | below names => some (below (names ++ [name]))
  | above => none
  | fromRoot names => some (fromRoot (names ++ [name]))

end Place

/-! ### Trees -/

/-- The files and directories below a directory, with the names that lead to
    them. The directories on the way need not be listed. -/
structure Tree where
  entries : List (List String × Node)

/-- What is found in a tree at a sequence of names. -/
def Tree.find? (t : Tree) (names : List String) : Option Node :=
  if names.isEmpty then some .directory
  else
    match t.entries.lookup names with
    | some node => some node
    | none =>
      if t.entries.any fun (place, _) => names.isPrefixOf place then some .directory else none

/-- What every system has below its root. -/
def systemTree : Tree where
  entries :=
    [(["bin"], .directory), (["dev", "null"], .device), (["etc"], .directory),
      (["lib"], .directory), (["proc"], .directory), (["tmp"], .directory),
      (["usr", "bin"], .directory), (["usr", "lib"], .directory), (["var"], .directory)]

namespace Tree

/-- What is found at a place, where the tree is that of the working directory. -/
def at? (t : Tree) : Place → Option Node
  | .below names => t.find? names
  | .above => some .directory
  | .fromRoot names => systemTree.find? names

/-- Follows names from a place, and gives the place they lead to. -/
def follow (t : Tree) : Place → List String → Except FileFault Place
  | place, [] => .ok place
  | place, name :: names =>
    match t.at? place with
    | some .directory =>
      if name = "" ∨ name = "." then follow t place names
      else if name = ".." then follow t place.parent names
      else if nameLimit < name.utf8ByteSize then .error .tooLong
      else
        match (place.child? name).filter fun next => (t.at? next).isSome with
        | none => .error .missing
        | some next => follow t next names
    | _ => .error .notDirectory

/-- The place a path leads to. -/
def locate (t : Tree) (path : String) : Except FileFault Place :=
  if path.isEmpty then .error .missing
  else if pathLimit < path.utf8ByteSize then .error .tooLong
  else t.follow (.start path) (pathNames path)

/-- What a path leads to. -/
def node (t : Tree) (path : String) : Except FileFault Node :=
  match t.locate path with
  | .error fault => .error fault
  | .ok place =>
    match t.at? place with
    | some node => .ok node
    | none => .error .missing

/-- Whether the path leads to a regular file. -/
def isFile (t : Tree) (path : String) : Bool :=
  match t.node path with
  | .ok (.file _) => true
  | _ => false

/-- Whether the path leads to a directory. -/
def isDirectory (t : Tree) (path : String) : Bool :=
  match t.node path with
  | .ok .directory => true
  | _ => false

/-- What is read from a path. -/
def read (t : Tree) (path : String) : Except FileFault ByteArray :=
  match t.node path with
  | .error fault => .error fault
  | .ok .directory => .error .isDirectory
  | .ok (.file content) => content
  | .ok .device => .ok .empty

/-- The names that lead on from a place to an entry below it, and to every
    directory on the way. -/
def waysTo (names place : List String) : List (List String) :=
  if names.isPrefixOf place then
    let way := place.drop names.length
    (List.range (way.length + 1)).map way.take
  else []

/-- The names that lead on from a place to all that is there and below it. What is
    on the way to several entries comes several times. -/
def waysFrom (t : Tree) (names : List String) : List (List String) :=
  [] :: t.entries.flatMap fun (place, _) => waysTo names place

/-- What is at a place and below it, each by the names that lead on to it, in the
    order of those names. -/
def waysBelow (t : Tree) (names : List String) : List (List String) :=
  (t.waysFrom names).eraseDups.mergeSort fun way way' =>
    !List.lex way' way fun a b => decide (a < b)

/-- The paths that a walk gives. To compare ways name by name is to go depth
    first, and by name within each directory. A directory whose path is too long
    cannot be gone into. Of a directory that is not below the working directory
    nothing is known. -/
def walk (t : Tree) (path : String) : List String :=
  match t.locate path with
  | .ok (.below names) =>
    let ways := (t.waysBelow names).filter fun way =>
      (joinPath path way.dropLast).utf8ByteSize ≤ pathLimit
    ways.map (joinPath path)
  | _ => []

/-- The place where writing to a path puts the file: the last name is new or
    that of a file, and the names before it lead to a directory. -/
def writePlace (t : Tree) (path : String) : Except FileFault Place :=
  match t.locate path with
  | .ok place => if t.at? place matches some .directory then .error .isDirectory else .ok place
  | .error .missing =>
    let names := pathNames path
    match t.follow (.start path) names.dropLast with
    | .error fault => .error fault
    | .ok place =>
      match place.child? (names.getLastD "") with
      | none => .error .missing
      | some target => .ok target
  | .error fault => .error fault

/-- The answers that the tree gives. -/
def disk (t : Tree) : Disk where
  isFile := t.isFile
  isDirectory := t.isDirectory
  read := t.read
  walk := t.walk
  writeFault? path :=
    match t.writePlace path with
    | .ok _ => none
    | .error fault => some fault

end Tree

end GridSat
