import GridSat.Command.Report
import GridSat.Command.Usage
import GridSat.Dimacs.Reader
import GridSat.Dimacs.Writer
import GridSat.Files.Disk
import GridSat.Search.Solver
import GridSat.Sudoku.Encoding
import GridSat.Sudoku.Reader

/-!
# Running a task

A task prints lines, may write a file, and either succeeds or fails with a
message (`Performed`). What was printed or written before a failure stays. A
model is verified before it is reported, unless the options say otherwise, and a
directory is given up at the first file that fails.

The whole effect of the program on given arguments and a given disk is a
`Transcript`: its exit code, its output, its error message and the files it
writes.
-/

namespace GridSat.Command

/-- What was done, and the result or the message of the failure after it. -/
@[ext] structure Performed (α : Type) where
  /-- The lines that were printed. -/
  lines : List Line := []
  /-- The paths and contents of the files that were written. -/
  written : List (String × String) := []
  /-- How it ended. -/
  result : Except String α

namespace Performed

variable {α β : Type}

/-- Prints lines first. -/
def after (lines : List Line) (p : Performed α) : Performed α :=
  { p with lines := lines ++ p.lines }

/-- Goes on with the result, unless there is a failure. -/
def andThen (p : Performed α) (next : α → Performed β) : Performed β :=
  match p.result with
  | .error message => { lines := p.lines, written := p.written, result := .error message }
  | .ok a =>
    let q := next a
    { lines := p.lines ++ q.lines, written := p.written ++ q.written, result := q.result }

/-- Prints lines and succeeds. -/
def done (lines : List Line) : Performed Unit :=
  { lines, result := .ok () }

/-- Fails without doing anything. -/
def failed (message : String) : Performed α :=
  { result := .error message }

@[simp] theorem result_done (lines : List Line) : (done lines).result = .ok () := rfl

@[simp] theorem result_failed (message : String) :
    (failed message : Performed α).result = .error message := rfl

theorem after_done (lines more : List Line) : (done more).after lines = done (lines ++ more) := rfl

theorem after_after (lines more : List Line) (p : Performed α) :
    (p.after more).after lines = p.after (lines ++ more) :=
  Performed.ext (List.append_assoc ..).symm rfl rfl

theorem done_andThen (lines : List Line) (next : Unit → Performed β) :
    (done lines).andThen next = (next ()).after lines := rfl

theorem failed_andThen (message : String) (next : α → Performed β) :
    (failed message).andThen next = failed message := rfl

end Performed

/-! ### Formulas -/

/-- The size of the problem, as it is printed before the search. -/
def sizeLines (f : Formula) : List Line :=
  [.text s!"Variables: {f.vars.length}", .text s!"Clauses: {f.length}",
    .text s!"Literals: {f.numLiterals}"]

/-- The solution and the time, as they are printed after the search. -/
def solutionLines (model : Option Environment) : List Line :=
  [.text ("Solution: " ++ (model.map Environment.render).getD "None"), .time]

/-- The lines around the search. -/
def searchLines (options : Options) (label : Option String) (f : Formula)
    (model : Option Environment) : List Line :=
  (label.map fun name => Line.text s!"Solving: {name}").toList ++
    if options.debug then sizeLines f ++ solutionLines model else []

/-- The verdict. -/
def verdictLines (model : Option Environment) : List Line :=
  [.text "", .text (if model.isSome then "SATISFIABLE" else "UNSATISFIABLE")]

/-- The table of statistics, and the solution if it is to be printed. -/
def statisticsLines (options : Options) (f : Formula) (stats : Stats)
    (model : Option Environment) : List Line :=
  [.text "",
    .text "=======================[ Problem Statistics ]=========================",
    .figure "Parse time (s)" .parseTime,
    .count "Variables" f.vars.length,
    .count "Clauses" f.length,
    .count "Literals" f.numLiterals,
    .text "========================[ Search Statistics ]========================",
    .rate "Conflicts" stats.conflicts,
    .rate "Decisions" stats.decisions,
    .rate "Propagations" stats.propagations,
    .count "Max depth" stats.maxDepth,
    .figure "Memory usage (MiB)" .allocated,
    .figure "Resident memory (MiB)" .resident,
    .figure "CPU time (s)" .searchTime,
    .text "====================================================================="] ++
  (if options.printSolution then
    (model.map fun e => Line.text s!"Solutions: {e.render}").toList
  else [])

/-- What is printed about a search once it is over. -/
def reportLines (options : Options) (f : Formula) (stats : Stats) (model : Option Environment) :
    List Line :=
  (if options.stats then statisticsLines options f stats model else []) ++ verdictLines model

/-- Checks a model against the formula. -/
def verify (f : Formula) : Option Environment → Performed Unit
  | none => .done [.text "UNSAT"]
  | some e =>
    if f.isSatisfiedBy e then .done [.text "Verified: true"]
    else (Performed.failed "Solution failed verification!").after [.text "Verified: false"]

/-- Solves a formula, verifies the model if that is asked for, and reports. -/
def solveFormula (options : Options) (label : Option String) (f : Formula) :
    Performed (Option Environment) :=
  let outcome := f.search
  match outcome.verdict with
  | .rebound error => .failed error.message
  | .model _ | .unsatisfiable =>
    let model := outcome.verdict.model?
    let verified := if options.verify then verify f model else .done []
    (verified.andThen fun _ =>
      { lines := reportLines options f outcome.stats model, result := .ok model }).after
        (searchLines options label f model)

/-! ### Tasks -/

/-- The formula of the DIMACS file at a path. -/
def readFormula (disk : Disk) (path : String) : Except Dimacs.Error Formula :=
  match disk.read path with
  | .error fault => .error (.input (.file fault))
  | .ok bytes => Dimacs.read bytes

/-- Solves the DIMACS file at a path. -/
def solveFile (disk : Disk) (path : String) (options : Options) : Performed Unit :=
  match readFormula disk path with
  | .error e => .failed s!"Failed to parse {path}: {e.message}"
  | .ok f => (solveFormula options (some path) f).andThen fun _ => .done []

/-- Puts a line break in the place of every backslash that is followed by an
    `n`, onto a list in reverse. -/
def breakLinesOnto : List Char → List Char → List Char
  | '\\' :: 'n' :: cs, acc => breakLinesOnto cs ('\n' :: acc)
  | c :: cs, acc => breakLinesOnto cs (c :: acc)
  | [], acc => acc

/-- The text with line breaks, which may be written `\n` to keep it on one line
    of a shell. -/
def breakLines (s : String) : String :=
  String.ofList (breakLinesOnto s.toList []).reverse

/-- Solves a DIMACS text. -/
def solveText (input : String) (options : Options) : Performed Unit :=
  match Dimacs.readText (breakLines input) with
  | .error e => .failed e.message
  | .ok f => (solveFormula options none f).andThen fun _ => .done []

/-- The path of the formula that is written next to a puzzle. -/
def exportPath (path : String) : String :=
  path ++ ".cnf"

/-- Prints the formula of a puzzle and writes it next to the puzzle. -/
def exportFormula (disk : Disk) (path : String) (dimacs : String) : Performed Unit :=
  let target := exportPath path
  let written : Performed Unit :=
    match disk.writeFault? target with
    | some fault => .failed s!"Unable to write {target}: {fault.message}"
    | none =>
      { lines := [.text s!"DIMACS written to: {target}"], written := [(target, dimacs)],
        result := .ok () }
  written.after [.text s!"DIMACS:\n{dimacs}"]

/-- The puzzle of the file at a path. -/
def readGrid (disk : Disk) (path : String) : Except Sudoku.Fault Sudoku.Puzzle :=
  match disk.read path with
  | .error fault => .error (.input (.file fault))
  | .ok bytes => Sudoku.Puzzle.read bytes

/-- The puzzle of the file at a path, which has to be a regular one. -/
def readPuzzle (disk : Disk) (path : String) : Except String Sudoku.Puzzle :=
  if disk.isFile path then
    (readGrid disk path).mapError fun fault => s!"Error parsing Sudoku file: {fault.message}"
  else .error s!"Sudoku file does not exist: {path}"

/-- Prints the solution of a puzzle. -/
def reportGrid (p : Sudoku.Puzzle) : Option Environment → Performed Unit
  | none => .done [.text "No solution found"]
  | some e =>
    match p.decode e with
    | .error fault => .failed fault.message
    | .ok grid => .done [.text s!"Solution:\n{grid.render}"]

/-- Solves the puzzle at a path. -/
def solvePuzzle (disk : Disk) (path : String) (exportDimacs : Bool) (options : Options) :
    Performed Unit :=
  match readPuzzle disk path with
  | .error message => .failed message
  | .ok p =>
    let f := p.toFormula
    let exported := if exportDimacs then exportFormula disk path (Dimacs.write f) else .done []
    (exported.andThen fun _ =>
      (solveFormula options (some path) f).andThen (reportGrid p)).after
        [.text s!"Parsed Sudoku:\n{p.render}"]

/-- Solves a file of a directory, according to its extension. -/
def solveEntry (disk : Disk) (options : Options) (path : String) : Performed Unit :=
  match fileExtension? path with
  | some "sudoku" => solvePuzzle disk path false options
  | some "cnf" => solveFile disk path options
  | _ => .done []

/-- Solves files one after the other, up to the first failure. -/
def solveEntries (disk : Disk) (options : Options) : List String → Performed Unit
  | [] => .done []
  | path :: paths =>
    (solveEntry disk options path).andThen fun _ => solveEntries disk options paths

/-- Solves all files below a directory. What a walk comes to and does not seem to
    be a regular file is passed over, also if it only cannot be looked at. -/
def solveDirectory (disk : Disk) (path : String) (options : Options) : Performed Unit :=
  if disk.isDirectory path then solveEntries disk options ((disk.walk path).filter disk.isFile)
  else .failed s!"Provided path is not a directory: {path}"

/-- Carries out a task. -/
def Task.run (disk : Disk) : Task → Performed Unit
  | help => .done [.text helpText]
  | version => .done [.text versionText]
  | file path options => solveFile disk path options
  | text input options => solveText input options
  | sudoku path exportDimacs options => solvePuzzle disk path exportDimacs options
  | directory path options => solveDirectory disk path options
  | completions shell => .done [.text (completionText shell)]

/-! ### The program -/

/-- The whole effect of the program. -/
structure Transcript where
  /-- The exit code. -/
  exitCode : Nat
  /-- What is printed. -/
  lines : List Line
  /-- The message on the error output. -/
  error : Option String
  /-- The paths and contents of the files that are written. -/
  written : List (String × String)

/-- Runs the program. A mistake in the arguments has the exit code two, and a
    task that fails has one. -/
def program (arguments : List String) (disk : Disk) : Transcript :=
  match Task.ofArguments arguments with
  | .error mistake => ⟨2, [], some s!"error: {mistake.message}", []⟩
  | .ok task =>
    let performed := task.run disk
    match performed.result with
    | .ok () => ⟨0, performed.lines, none, performed.written⟩
    | .error message => ⟨1, performed.lines, some s!"Error: {message}", performed.written⟩

end GridSat.Command
