import GridSat.Command.Run
import GridSat.Proofs.Files.Walk
import GridSat.Proofs.Sudoku.Reading
import GridSat.Proofs.Sudoku.Solving

/-!
# How tasks end

What comes of the single tasks, as a whole: what they print and how they end. A
formula is always solved and reported, whatever the options are: its model passes the
check, as the search is sound (`result_solveFormula`). So a task that reads a formula
fails only where the reading fails. The same goes for a puzzle, since whatever the
search finds for its formula is decoded to a grid (`solvePuzzle_outcome`).

The files of a directory are solved one after the other. As long as they can be read
what is printed for each of them follows one upon the other, and the first file that
cannot be read is the last one that is looked at (`solveEntries_cases`). Which files these
are, and which is the first, depends on how the disk walks through the directory
(`solveDirectory_outcome`).
-/

namespace GridSat.Command

open Sudoku

variable {disk : Disk} {options : Options} {path : String} {f : Formula} {p : Puzzle}

/-! ### Formulas -/

/-- The model that a search finds passes the check. -/
theorem exists_verify_solve (f : Formula) :
    ∃ lines, verify f f.solve = { lines, result := .ok () } := by
  cases h : f.solve with
  | none => exact ⟨_, rfl⟩
  | some e => exact ⟨_, if_pos (Formula.isSatisfiedBy_of_solve h).1⟩

/-- Solving a formula prints something and gives what the search found. -/
theorem exists_solveFormula (options : Options) (label : Option String) (f : Formula) :
    ∃ lines, solveFormula options label f = { lines, result := .ok f.solve } := by
  have hverified : ∃ lines, (if options.verify then verify f f.solve else .done []) =
      ({ lines, result := .ok () } : Performed Unit) := by
    split
    · exact exists_verify_solve f
    · exact ⟨[], rfl⟩
  obtain ⟨lines, hlines⟩ := hverified
  rw [Formula.solve] at hlines ⊢
  rw [solveFormula]
  split
  · next error h => exact absurd h (f.search_verdict_ne_rebound error)
  all_goals
    simp only [hlines]
    exact ⟨_, rfl⟩

/-- Whatever the options are, solving a formula succeeds. -/
theorem result_solveFormula (options : Options) (label : Option String) (f : Formula) :
    (solveFormula options label f).result = .ok f.solve := by
  obtain ⟨lines, h⟩ := exists_solveFormula options label f
  rw [h]

/-- Solving a formula as a part of a task: what it prints comes first, and then the
    task goes on with what was found. -/
theorem solveFormula_andThen {β : Type} (options : Options) (label : Option String) (f : Formula)
    (next : Option Environment → Performed β) :
    (solveFormula options label f).andThen next =
      (next f.solve).after (solveFormula options label f).lines := by
  obtain ⟨lines, h⟩ := exists_solveFormula options label f
  rw [h]
  rfl

theorem solveText_of_read {input : String} (h : Dimacs.readText (breakLines input) = .ok f) :
    solveText input options = .done (solveFormula options none f).lines := by
  simp only [solveText, h]
  rw [solveFormula_andThen, Performed.after_done, List.append_nil]

theorem solveText_of_error {input : String} {e : Dimacs.Error}
    (h : Dimacs.readText (breakLines input) = .error e) :
    solveText input options = .failed e.message := by
  rw [solveText, h]

theorem solveFile_of_read (h : readFormula disk path = .ok f) :
    solveFile disk path options = .done (solveFormula options (some path) f).lines := by
  simp only [solveFile, h]
  rw [solveFormula_andThen, Performed.after_done, List.append_nil]

theorem solveFile_of_error {e : Dimacs.Error} (h : readFormula disk path = .error e) :
    solveFile disk path options = .failed s!"Failed to parse {path}: {e.message}" := by
  rw [solveFile, h]

/-- A text is solved exactly if it can be read. -/
theorem solveText_ok_iff {input : String} : (solveText input options).result = .ok () ↔
    ∃ f, Dimacs.readText (breakLines input) = .ok f := by
  cases h : Dimacs.readText (breakLines input) with
  | error e => simp [solveText_of_error h]
  | ok f => simp [solveText_of_read h]

theorem solveFile_ok_iff :
    (solveFile disk path options).result = .ok () ↔ ∃ f, readFormula disk path = .ok f := by
  cases h : readFormula disk path with
  | error e => simp [solveFile_of_error h]
  | ok f => simp [solveFile_of_read h]

/-! ### Puzzles -/

theorem accepted_of_readGrid (h : readGrid disk path = .ok p) : p.Accepted := by
  rw [readGrid] at h
  split at h
  · exact absurd h nofun
  · exact Puzzle.accepted_of_read h

/-- Of a puzzle that has a solution one is printed, and otherwise that there is none.
    There is no third case in which what the search found is no grid. -/
theorem exists_reportGrid_solve (hp : p.Accepted) :
    ∃ report, reportGrid p p.toFormula.solve = .done [.text report] ∧
      ((∃ g, p.IsSolution g ∧ report = s!"Solution:\n{g.render}") ∨
        (¬∃ g, p.IsSolution g) ∧ report = "No solution found") := by
  cases h : p.toFormula.solve with
  | none =>
    rw [Formula.solve_eq_none_iff, hp.satisfiable_iff] at h
    exact ⟨_, rfl, .inr ⟨h, rfl⟩⟩
  | some e =>
    obtain ⟨g, hdecode, hg⟩ := hp.exists_solution_of_solve h
    refine ⟨_, ?_, .inl ⟨g, hg, rfl⟩⟩
    rw [reportGrid, hdecode]

theorem solvePuzzle_of_not_isFile (h : disk.isFile path = false) (exportDimacs : Bool) :
    solvePuzzle disk path exportDimacs options =
      .failed s!"Sudoku file does not exist: {path}" := by
  rw [solvePuzzle, readPuzzle, h]
  rfl

theorem solvePuzzle_of_error (hfile : disk.isFile path = true) {fault : Fault}
    (h : readGrid disk path = .error fault) (exportDimacs : Bool) :
    solvePuzzle disk path exportDimacs options =
      .failed s!"Error parsing Sudoku file: {fault.message}" := by
  rw [solvePuzzle, readPuzzle, hfile, h]
  rfl

/-- A puzzle that can be read is printed, solved, and answered. -/
theorem solvePuzzle_of_read (options : Options) (hfile : disk.isFile path = true)
    (h : readGrid disk path = .ok p) :
    ∃ report, solvePuzzle disk path false options =
        .done (.text s!"Parsed Sudoku:\n{p.render}" ::
          (solveFormula options (some path) p.toFormula).lines ++ [.text report]) ∧
      ((∃ g, p.IsSolution g ∧ report = s!"Solution:\n{g.render}") ∨
        (¬∃ g, p.IsSolution g) ∧ report = "No solution found") := by
  obtain ⟨report, hreport, hsolution⟩ := exists_reportGrid_solve (accepted_of_readGrid h)
  refine ⟨report, ?_, hsolution⟩
  simp only [solvePuzzle, readPuzzle, hfile, h, if_true, Except.mapError]
  rw [solveFormula_andThen, hreport]
  rfl

/-- There is no puzzle file, or it cannot be read, or the puzzle is solved. -/
theorem solvePuzzle_cases (disk : Disk) (options : Options) (path : String) :
    (disk.isFile path = false ∧ solvePuzzle disk path false options =
      .failed s!"Sudoku file does not exist: {path}") ∨
    (disk.isFile path = true ∧ ∃ fault, readGrid disk path = .error fault ∧
      solvePuzzle disk path false options =
        .failed s!"Error parsing Sudoku file: {fault.message}") ∨
    disk.isFile path = true ∧ (∃ p, readGrid disk path = .ok p) ∧
      (solvePuzzle disk path false options).result = .ok () := by
  cases hfile : disk.isFile path with
  | false => exact .inl ⟨rfl, solvePuzzle_of_not_isFile hfile false⟩
  | true =>
    cases h : readGrid disk path with
    | error fault => exact .inr (.inl ⟨rfl, fault, rfl, solvePuzzle_of_error hfile h false⟩)
    | ok p =>
      obtain ⟨report, hreport, _⟩ := solvePuzzle_of_read options hfile h
      exact .inr (.inr ⟨rfl, ⟨p, rfl⟩, congrArg Performed.result hreport⟩)

/-- How solving the puzzle at a path ends. -/
structure PuzzleOutcome (disk : Disk) (options : Options) (path : String) : Prop where
  /-- It succeeds exactly if there is a file and a puzzle can be read from it. -/
  ok_iff : (solvePuzzle disk path false options).result = .ok () ↔
    disk.isFile path = true ∧ ∃ p, readGrid disk path = .ok p
  /-- A puzzle that can be read is printed and solved, and then either a solution is
      printed or that there is none. -/
  report_of_read : ∀ p, disk.isFile path = true → readGrid disk path = .ok p →
    ∃ report, solvePuzzle disk path false options =
        .done (.text s!"Parsed Sudoku:\n{p.render}" ::
          (solveFormula options (some path) p.toFormula).lines ++ [.text report]) ∧
      ((∃ g, p.IsSolution g ∧ report = s!"Solution:\n{g.render}") ∨
        (¬∃ g, p.IsSolution g) ∧ report = "No solution found")
  /-- The only messages are about the file. -/
  message_of_error : ∀ message, (solvePuzzle disk path false options).result = .error message →
    disk.isFile path = false ∧ message = s!"Sudoku file does not exist: {path}" ∨
      disk.isFile path = true ∧ ∃ fault, readGrid disk path = .error fault ∧
        message = s!"Error parsing Sudoku file: {fault.message}"

theorem solvePuzzle_outcome (disk : Disk) (options : Options) (path : String) :
    PuzzleOutcome disk options path where
  ok_iff := by
    rcases solvePuzzle_cases disk options path with
      ⟨hfile, h⟩ | ⟨hfile, fault, hread, h⟩ | ⟨hfile, hread, h⟩
    · simp [h, hfile]
    · simp [h, hread]
    · simp [h, hfile, hread]
  report_of_read _ := solvePuzzle_of_read options
  message_of_error message hmessage := by
    rcases solvePuzzle_cases disk options path with
      ⟨hfile, h⟩ | ⟨hfile, fault, hread, h⟩ | ⟨_, _, h⟩
    · rw [h] at hmessage
      exact .inl ⟨hfile, (Except.error.inj hmessage).symm⟩
    · rw [h] at hmessage
      exact .inr ⟨hfile, fault, hread, (Except.error.inj hmessage).symm⟩
    · exact absurd (hmessage.symm.trans h) nofun

/-! ### Files of a directory -/

/-- The file can be read as what its extension says it is. -/
def Readable (disk : Disk) (path : String) : Prop :=
  (fileExtension? path = some "cnf" → ∃ f, readFormula disk path = .ok f) ∧
    (fileExtension? path = some "sudoku" → ∃ p, readGrid disk path = .ok p)

theorem not_readable_of_error {e : Dimacs.Error} (hext : fileExtension? path = some "cnf")
    (h : readFormula disk path = .error e) : ¬Readable disk path := by
  rintro ⟨hcnf, _⟩
  obtain ⟨f, hf⟩ := hcnf hext
  exact absurd (h.symm.trans hf) nofun

/-- What is printed for the files, one after the other. -/
def entryLines (disk : Disk) (options : Options) (files : List String) : List Line :=
  files.flatMap fun file => (solveEntry disk options file).lines

theorem solveEntry_of_readable (hfile : disk.isFile path = true) (h : Readable disk path) :
    solveEntry disk options path = .done (solveEntry disk options path).lines := by
  obtain ⟨hcnf, hsudoku⟩ := h
  unfold solveEntry
  split
  · next hext =>
    obtain ⟨p, hp⟩ := hsudoku hext
    obtain ⟨report, hreport, _⟩ := solvePuzzle_of_read options hfile hp
    rw [hreport]
    rfl
  · next hext =>
    obtain ⟨f, hf⟩ := hcnf hext
    rw [solveFile_of_read hf]
    rfl
  · rfl

theorem solveEntry_of_not_readable (options : Options) (hfile : disk.isFile path = true)
    (h : ¬Readable disk path) : ∃ message, solveEntry disk options path = .failed message := by
  unfold solveEntry
  split
  · next hext =>
    cases hp : readGrid disk path with
    | error fault => exact ⟨_, solvePuzzle_of_error hfile hp false⟩
    | ok p =>
      refine absurd ⟨fun hcnf => ?_, fun _ => ⟨p, hp⟩⟩ h
      exact absurd (hext.symm.trans hcnf) (by decide)
  · next hext =>
    cases hf : readFormula disk path with
    | error e => exact ⟨_, solveFile_of_error hf⟩
    | ok f =>
      refine absurd ⟨fun _ => ⟨f, hf⟩, fun hsudoku => ?_⟩ h
      exact absurd (hext.symm.trans hsudoku) (by decide)
  · next hsudoku hcnf => exact absurd ⟨fun h => absurd h hcnf, fun h => absurd h hsudoku⟩ h

/-- Files that can be read are solved, and then the others are looked at. -/
theorem solveEntries_append (options : Options) {before : List String}
    (h : ∀ file ∈ before, disk.isFile file = true ∧ Readable disk file) (after : List String) :
    solveEntries disk options (before ++ after) =
      (solveEntries disk options after).after (entryLines disk options before) := by
  induction before with
  | nil => rfl
  | cons file before ih =>
    obtain ⟨⟨hfile, hreadable⟩, hbefore⟩ := List.forall_mem_cons.1 h
    rw [List.cons_append, solveEntries, solveEntry_of_readable hfile hreadable,
      Performed.done_andThen, ih hbefore, Performed.after_after]
    rfl

theorem solveEntries_of_readable (options : Options) {files : List String}
    (h : ∀ file ∈ files, disk.isFile file = true ∧ Readable disk file) :
    solveEntries disk options files = .done (entryLines disk options files) := by
  have happend := solveEntries_append options h []
  rwa [List.append_nil, solveEntries, Performed.after_done, List.append_nil] at happend

/-- The first file that cannot be read is the last one that is looked at. -/
theorem solveEntries_of_not_readable (options : Options) {before : List String} {file : String}
    (h : ∀ file ∈ before, disk.isFile file = true ∧ Readable disk file)
    (hfile : disk.isFile file = true) (hfails : ¬Readable disk file) (after : List String) :
    ∃ message, solveEntry disk options file = .failed message ∧
      solveEntries disk options (before ++ file :: after) =
        (Performed.failed message).after (entryLines disk options before) := by
  obtain ⟨message, hmessage⟩ := solveEntry_of_not_readable options hfile hfails
  refine ⟨message, hmessage, ?_⟩
  rw [solveEntries_append options h, solveEntries, hmessage, Performed.failed_andThen]

/-- Files are solved one after the other, or up to the first that cannot be read. -/
theorem solveEntries_cases (options : Options) {files : List String}
    (h : ∀ file ∈ files, disk.isFile file = true) :
    ((∀ file ∈ files, Readable disk file) ∧
      solveEntries disk options files = .done (entryLines disk options files)) ∨
    ∃ before file after message, files = before ++ file :: after ∧
      (∀ earlier ∈ before, Readable disk earlier) ∧ ¬Readable disk file ∧
      solveEntry disk options file = .failed message ∧
      solveEntries disk options files =
        (Performed.failed message).after (entryLines disk options before) := by
  rcases forall_or_exists_first (Readable disk) files with
    hall | ⟨before, file, after, rfl, hbefore, hfile⟩
  · exact .inl ⟨hall, solveEntries_of_readable options fun file hmem =>
      ⟨h file hmem, hall file hmem⟩⟩
  · obtain ⟨message, hmessage, hentries⟩ := solveEntries_of_not_readable options
      (fun b hb => ⟨h b (List.mem_append_left _ hb), hbefore b hb⟩)
      (h file (List.mem_append_right _ List.mem_cons_self)) hfile after
    exact .inr ⟨before, file, after, message, rfl, hbefore, hfile, hmessage, hentries⟩

/-! ### Directories -/

/-- How solving a directory ends, where `Regular` holds of the ways from the directory to
    regular files. -/
structure DirectoryOutcome (disk : Disk) (options : Options) (path : String)
    (Regular : List String → Prop) : Prop where
  /-- It succeeds exactly if every file can be read as what its extension says. -/
  ok_iff : (solveDirectory disk path options).result = .ok () ↔
    ∀ way, Regular way → Readable disk (joinPath path way)
  /-- Then all of the files are solved, in the order of a walk. -/
  all_solved : (∀ way, Regular way → Readable disk (joinPath path way)) →
    ∃ ways, InWalkOrder Regular ways ∧ solveDirectory disk path options =
      .done (entryLines disk options (ways.map (joinPath path)))
  /-- Otherwise there is a file at which it fails, with the message that there is for this
      file. All files that are visited before it can be read, and they have been solved, in
      order. Nothing else is done. -/
  first_failure : (¬∀ way, Regular way → Readable disk (joinPath path way)) →
    ∃ way before message, Regular way ∧ ¬Readable disk (joinPath path way) ∧
      InWalkOrder (fun earlier => Regular earlier ∧ VisitedBefore earlier way) before ∧
      (∀ earlier ∈ before, Readable disk (joinPath path earlier)) ∧
      solveEntry disk options (joinPath path way) = .failed message ∧
      solveDirectory disk path options = (Performed.failed message).after
        (entryLines disk options (before.map (joinPath path)))

/-- If the walk through a directory is as expected, and looking at its paths tells the
    regular files from the rest. -/
theorem solveDirectory_outcome (options : Options) {Regular : List String → Prop}
    {ways : List (List String)} (hdirectory : disk.isDirectory path = true)
    (hwalk : disk.WalksThrough path Regular ways)
    (hlook : ∀ way ∈ ways, disk.isFile (joinPath path way) = true ↔ Regular way) :
    DirectoryOutcome disk options path Regular := by
  have horder := hwalk.inWalkOrder_filter hlook
  have hsolve : solveDirectory disk path options = solveEntries disk options
      ((ways.filter fun way => disk.isFile (joinPath path way)).map (joinPath path)) := by
    rw [solveDirectory, if_pos hdirectory, hwalk.filter_walk]
  generalize ways.filter (fun way => disk.isFile (joinPath path way)) = files at horder hsolve
  have hfile : ∀ file ∈ files.map (joinPath path), disk.isFile file = true := by
    refine List.forall_mem_map.2 fun way hway => ?_
    have hregular := (horder.mem_iff way).1 hway
    exact (hlook way (hwalk.complete way hregular)).2 hregular
  have hreadable : (∀ file ∈ files.map (joinPath path), Readable disk file) ↔
      ∀ way, Regular way → Readable disk (joinPath path way) := by
    simp only [List.forall_mem_map, horder.mem_iff]
  rcases solveEntries_cases options hfile with
    ⟨hall, hdone⟩ | ⟨before, file, after, message, hsplit, hbefore, hfails, hmessage, hfailed⟩
  · rw [hreadable] at hall
    rw [hdone] at hsolve
    refine ⟨?_, fun _ => ⟨files, horder, hsolve⟩, fun h => absurd hall h⟩
    rw [hsolve]
    exact iff_of_true rfl hall
  · obtain ⟨front, rest, rfl, rfl, hrest⟩ := List.map_eq_append_iff.1 hsplit
    obtain ⟨way, back, rfl, rfl, rfl⟩ := List.map_eq_cons_iff.1 hrest
    have hway : Regular way :=
      (horder.mem_iff way).1 (List.mem_append_right _ List.mem_cons_self)
    have hnot : ¬∀ way, Regular way → Readable disk (joinPath path way) := fun h =>
      hfails (h way hway)
    rw [hfailed] at hsolve
    refine ⟨?_, fun h => absurd h hnot, fun _ => ?_⟩
    · rw [hsolve]
      exact iff_of_false nofun hnot
    · exact ⟨way, front, message, hway, hfails, horder.of_append_cons,
        List.forall_mem_map.1 hbefore, hmessage, hsolve⟩

end GridSat.Command
