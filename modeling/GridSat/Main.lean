import Std.Data.HashMap.Basic
import GridSat.Command.Run

/-!
# The program

Takes the part of the file system that a task needs, runs the task on it, writes
the file it asks for, and prints. The figures are taken over the whole run.
-/

namespace GridSat

/-- The fault behind an error of the system. Some calls give its number with a
    minus sign. -/
def faultOfError : IO.Error → FileFault
  | .noFileOrDirectory .. | .noSuchThing .. => .missing
  | .inappropriateType _ code _ => if code = 21 ∨ code = -21 then .isDirectory else .notDirectory
  | e@(.permissionDenied _ code _) =>
    if code = 13 ∨ code = -13 then .denied else .other (toString e)
  | e@(.invalidArgument _ code _) =>
    if code = 36 ∨ code = -36 then .tooLong else .other (toString e)
  | e => .other (toString e)

/-- A path as a place on the real file system. -/
def location (path : String) :=
  (do return { ← IO.currentDir with toString := path } : IO _)

/-- What is at a path, if it can be looked at, or what is behind it if it is a link. -/
def typeOf? (path : String) : IO (Option IO.FS.FileType) := do
  try return some (← (← location path).metadata).type
  catch _ => return none

/-- Whether there is a directory at a path. A link to a directory is none. -/
def isUnlinkedDirectory (path : String) : IO Bool := do
  try return (← (← location path).symlinkMetadata).type == .dir
  catch _ => return false

/-- What is read from a path. -/
def readContent (path : String) : IO (Except FileFault ByteArray) := do
  try return .ok (← IO.FS.readBinFile (← location path))
  catch e => return .error (faultOfError e)

/-- The paths of what is below a directory. Links are listed and not followed. -/
partial def pathsBelow (path : String) : IO (Array String) := do
  let entries ← try (← location path).readDir catch _ => pure #[]
  let names := entries.toList.map (·.fileName) |>.mergeSort fun a b => decide (a ≤ b)
  let mut paths := #[]
  for name in names do
    let below := joinPath path [name]
    paths := paths.push below
    if ← isUnlinkedDirectory below then
      paths := paths ++ (← pathsBelow below)
  return paths

/-- What a task can see of the real file system. What is no regular file is opened
    only if the task names it. -/
def snapshot (task : Command.Task) : IO Disk := do
  let roots := match task with
    | .file path _ | .sudoku path _ _ | .directory path _ => [path]
    | _ => []
  let mut paths := roots
  if let .directory path _ := task then
    if (← typeOf? path) matches some .dir then
      paths := path :: (← pathsBelow path).toList
  let mut types : Std.HashMap String IO.FS.FileType := ∅
  let mut contents : Std.HashMap String (Except FileFault ByteArray) := ∅
  for path in paths do
    let type? ← typeOf? path
    if let some type := type? then
      types := types.insert path type
    if task matches .file .. || type? matches some .file then
      contents := contents.insert path (← readContent path)
  let seen := types
  let held := contents
  let walked := paths
  return {
    isFile := fun path => seen[path]? matches some .file
    isDirectory := fun path => seen[path]? matches some .dir
    read := fun path => held.getD path (.error .missing)
    walk := fun _ => walked
    writeFault? := fun _ => none }

/-- Runs the program on a disk. If a file that it writes cannot be written, it
    is run again on a disk that knows about it. -/
def runOn (arguments : List String) (disk : Disk) : IO Command.Transcript := do
  let transcript := Command.program arguments disk
  try
    for (path, content) in transcript.written do
      IO.FS.writeFile path content
    return transcript
  catch e =>
    let fault := faultOfError e
    return Command.program arguments { disk with writeFault? := fun _ => some fault }

end GridSat

/-- Solves what the arguments ask for. -/
def main (arguments : List String) : IO UInt32 := do
  let disk ← match GridSat.Command.Task.ofArguments arguments with
    | .ok task => GridSat.snapshot task
    | .error _ => pure .empty
  let start ← IO.monoNanosNow
  let transcript ← GridSat.runOn arguments disk
  let elapsed := (← IO.monoNanosNow) - start
  IO.print (GridSat.Command.renderLines { parseTime := elapsed, searchTime := elapsed }
    transcript.lines)
  if let some message := transcript.error then
    IO.eprintln message
  return transcript.exitCode.toUInt32
