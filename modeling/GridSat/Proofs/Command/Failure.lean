import GridSat.Proofs.Command.Outcome
import GridSat.Proofs.Files.Trees

/-!
# Tasks fail on their input only

The program reports a failure for what it was given, and never for what it made of it:
no model fails its check and no model is decoded to less than a grid. What a task fails
on is a text, a file or a puzzle that cannot be read, and of a directory the first
file that cannot (`fails_only_on_input`). A file may exist and yet not be readable, and
then it is one of these.

The files of a directory are all the regular files below it, in the order of a walk,
as long as one can look at each of them. A file behind a path that is too long is passed
over, whatever is in it, and nothing tells of it (`unreachable_file_is_ignored`).
-/

namespace GridSat.Command

/-- Solving a formula always succeeds, with what the search found. So a DIMACS text or
    file is solved exactly if it can be read, and so is a puzzle file.

    A directory is solved exactly if each of its regular files can be read as what its
    extension says, and otherwise up to the first for which this fails. This takes a walk
    through the directory that goes depth first and by name and leaves out no file, and
    that looking at the paths tells which of them lead to regular files. -/
theorem fails_only_on_input (disk : Disk) (options : Options) :
    (∀ label f, (solveFormula options label f).result = .ok f.solve) ∧
    (∀ input, (solveText input options).result = .ok () ↔
      ∃ f, Dimacs.readText (breakLines input) = .ok f) ∧
    (∀ path, (solveFile disk path options).result = .ok () ↔
      ∃ f, readFormula disk path = .ok f) ∧
    (∀ path, PuzzleOutcome disk options path) ∧
    ∀ path Regular ways, disk.isDirectory path = true → disk.WalksThrough path Regular ways →
      (∀ way ∈ ways, disk.isFile (joinPath path way) = true ↔ Regular way) →
      DirectoryOutcome disk options path Regular := by
  refine ⟨result_solveFormula options, fun input => ?_, fun path => ?_, fun path => ?_,
    fun path Regular ways hdirectory hwalk hlook => ?_⟩
  · exact solveText_ok_iff
  · exact solveFile_ok_iff
  · exact solvePuzzle_outcome disk options path
  · exact solveDirectory_outcome options hdirectory hwalk hlook

/-- A directory with a formula, a puzzle, and between the two a file that may not be read. -/
def shelf : Tree where
  entries :=
    [(["d", "z.sudoku"], .file (.ok "1".toUTF8)), (["d", "b", "locked.cnf"], .file (.error .denied)),
      (["d", "a.cnf"], .file (.ok "1 0".toUTF8))]

theorem wellFormed_shelf : shelf.WellFormed where
  ne_nil := by decide
  isName := by decide
  nodup := by decide
  directory := by simp [shelf]

theorem fileBelow_shelf_iff {way : List String} : shelf.FileBelow ["d"] way ↔
    way = ["a.cnf"] ∨ way = ["b", "locked.cnf"] ∨ way = ["z.sudoku"] := by
  constructor
  · rintro ⟨content, h⟩
    have hplace : ["d"] ++ way ∈ shelf.entries.map Prod.fst := List.mem_map_of_mem h
    simp only [shelf, List.map_cons, List.map_nil, List.singleton_append, List.mem_cons,
      List.cons.injEq, true_and, List.not_mem_nil, or_false] at hplace
    rcases hplace with hz | hb | ha
    · exact .inr (.inr hz)
    · exact .inr (.inl hb)
    · exact .inl ha
  · rintro (rfl | rfl | rfl)
    · exact ⟨_, .tail _ (.tail _ (.head _))⟩
    · exact ⟨_, .tail _ (.head _)⟩
    · exact ⟨_, .head _⟩

/-- The walk visits the formula first, and then the file that may not be read. -/
theorem inWalkOrder_shelf : InWalkOrder (fun earlier => shelf.FileBelow ["d"] earlier ∧
    VisitedBefore earlier ["b", "locked.cnf"]) [["a.cnf"]] where
  ordered := List.pairwise_singleton ..
  mem_iff way := by
    rw [List.mem_singleton, fileBelow_shelf_iff]
    simp only [visitedBefore_iff_lt]
    constructor
    · rintro rfl
      exact ⟨.inl rfl, by decide⟩
    · rintro ⟨rfl | rfl | rfl, h⟩
      · rfl
      · exact absurd h (by decide)
      · exact absurd h (by decide)

theorem locate_shelf : shelf.locate "d" = .ok (.below ["d"]) := by
  decide

theorem size_le_of_shelf {way : List String} (h : way ∈ shelf.waysBelow ["d"]) :
    (joinPath "d" way).utf8ByteSize ≤ pathLimit ∧
      (joinPath "d" way.dropLast).utf8ByteSize ≤ pathLimit :=
  (by decide : ∀ way ∈ shelf.waysFrom ["d"], (joinPath "d" way).utf8ByteSize ≤ pathLimit ∧
    (joinPath "d" way.dropLast).utf8ByteSize ≤ pathLimit) way (Tree.mem_waysBelow_iff.1 h)

theorem read_shelf {way : List String} {content : Except FileFault ByteArray}
    (h : (["d"] ++ way, .file content) ∈ shelf.entries) :
    shelf.disk.read (joinPath "d" way) = content :=
  wellFormed_shelf.read_joinPath locate_shelf h
    (size_le_of_shelf (Tree.FileBelow.mem_waysBelow ⟨content, h⟩)).1

theorem readable_shelf : Readable shelf.disk "d/a.cnf" := by
  have hread : shelf.disk.read "d/a.cnf" = .ok "1 0".toUTF8 :=
    read_shelf (.tail _ (.tail _ (.head _)))
  refine ⟨fun _ => ?_, fun h => absurd h (by decide)⟩
  rw [readFormula, hread]
  exact ⟨_, rfl⟩

/-- There is a file, but it may not be read. -/
theorem readFormula_shelf :
    readFormula shelf.disk "d/b/locked.cnf" = .error (.input (.file .denied)) := by
  have hread : shelf.disk.read "d/b/locked.cnf" = .error .denied :=
    read_shelf (.tail _ (.head _))
  rw [readFormula, hread]

theorem fails_only_on_input_shelf :
    shelf.disk.isDirectory "d" = true ∧
      shelf.disk.WalksThrough "d" (shelf.FileBelow ["d"]) (shelf.waysBelow ["d"]) ∧
      (∀ way ∈ shelf.waysBelow ["d"],
        shelf.disk.isFile (joinPath "d" way) = true ↔ shelf.FileBelow ["d"] way) ∧
      shelf.disk.isFile "d/b/locked.cnf" = true ∧
      solveDirectory shelf.disk "d" {} =
        (Performed.failed
          "Failed to parse d/b/locked.cnf: I/O error: Permission denied (os error 13)").after
            (entryLines shelf.disk {} ["d/a.cnf"]) := by
  have hdirectory : shelf.disk.isDirectory "d" = true :=
    Tree.isDirectory_iff.2 (Tree.node_eq_ok_iff.2 ⟨_, locate_shelf, rfl⟩)
  have hwalk := Tree.walksThrough locate_shelf fun _ hway => (size_le_of_shelf hway).2
  have hlook : ∀ way ∈ shelf.waysBelow ["d"],
      shelf.disk.isFile (joinPath "d" way) = true ↔ shelf.FileBelow ["d"] way := fun _ hway =>
    wellFormed_shelf.isFile_joinPath_iff locate_shelf hway (size_le_of_shelf hway).1
  have hfile : shelf.FileBelow ["d"] ["b", "locked.cnf"] := fileBelow_shelf_iff.2 (.inr (.inl rfl))
  have hlocked : ¬Readable shelf.disk "d/b/locked.cnf" :=
    not_readable_of_error (by decide) readFormula_shelf
  refine ⟨hdirectory, hwalk, hlook, (hlook _ hfile.mem_waysBelow).2 hfile, ?_⟩
  obtain ⟨_, _, _, _, hdirectories⟩ := fails_only_on_input shelf.disk {}
  obtain ⟨_, _, hfirst⟩ := hdirectories "d" _ _ hdirectory hwalk hlook
  obtain ⟨way, before, message, hway, hfails, hbefore, hreadable, hmessage, hsolve⟩ :=
    hfirst fun hall => hlocked (hall _ hfile)
  rcases fileBelow_shelf_iff.1 hway with rfl | rfl | rfl
  · exact absurd readable_shelf hfails
  · obtain rfl := hbefore.unique inWalkOrder_shelf
    have hext : fileExtension? "d/b/locked.cnf" = some "cnf" := by decide
    have hentry : solveEntry shelf.disk {} "d/b/locked.cnf" = .failed
        "Failed to parse d/b/locked.cnf: I/O error: Permission denied (os error 13)" := by
      rw [solveEntry, hext]
      exact solveFile_of_error readFormula_shelf
    rw [hsolve, hmessage.symm.trans hentry]
    rfl
  · -- The file that may not be read is visited before this one.
    have hmem : ["b", "locked.cnf"] ∈ before :=
      (hbefore.mem_iff _).2 ⟨hfile, visitedBefore_iff_lt.2 (by decide)⟩
    exact absurd (hreadable _ hmem) hlocked

/-! ### Files out of reach -/

/-- The working directory, after so many steps that stay in it. -/
def detour : Nat → String
  | 0 => ""
  | n + 1 => "./" ++ detour n

theorem utf8ByteSize_detour (n : Nat) : (detour n).utf8ByteSize = 2 * n := by
  induction n with
  | zero => rfl
  | succ n ih =>
    have hstep : "./".utf8ByteSize = 2 := by decide
    rw [detour, String.utf8ByteSize_append, ih, hstep]
    omega

theorem pathNames_detour (n : Nat) : ∀ name ∈ pathNames (detour n), name = "" ∨ name = "." := by
  induction n with
  | zero => decide
  | succ n ih =>
    have hnames : pathNames (detour (n + 1)) = "." :: pathNames (detour n) := by
      have hcons : (detour (n + 1)).toList = ['.'] ++ '/' :: (detour n).toList := by
        rw [detour, String.toList_append]
        rfl
      rw [pathNames, hcons, List.splitOn_append_cons_self, List.map_append]
      rfl
    rw [hnames]
    exact List.forall_mem_cons.2 ⟨.inr rfl, ih⟩

theorem locate_detour (t : Tree) (n : Nat) (hne : n ≠ 0) (hsize : 2 * n ≤ pathLimit) :
    t.locate (detour n) = .ok (.below []) := by
  cases n with
  | zero => exact absurd rfl hne
  | succ n =>
    have hstart : Place.start (detour (n + 1)) = .below [] := by
      rw [Place.start, detour, String.toList_append]
      rfl
    refine Tree.locate_eq_ok_iff.2 ⟨?_, (utf8ByteSize_detour _).trans_le hsize, ?_⟩
    · rw [Ne, ← String.toList_eq_nil_iff, detour, String.toList_append]
      exact List.append_ne_nil_of_left_ne_nil (by decide) _
    · rw [hstart]
      exact Tree.follow_of_stay rfl (pathNames_detour _)

/-- A directory with a file that is no formula. -/
def badShelf : Tree where
  entries := [(["bad.cnf"], .file (.ok "1 q\n".toUTF8))]

theorem waysBelow_badShelf {way : List String} (h : way ∈ badShelf.waysBelow []) :
    way = [] ∨ way = ["bad.cnf"] :=
  (by decide : ∀ way ∈ badShelf.waysFrom [], way = [] ∨ way = ["bad.cnf"]) way
    (Tree.mem_waysBelow_iff.1 h)

/-- The walk through the directory is as it should be and finds the file. But if the path of
    the file is too long it cannot be looked at, and it is not taken for a file. -/
theorem solveDirectory_badShelf {path : String} (hpath : badShelf.locate path = .ok (.below []))
    (hsize : pathLimit < (joinPath path ["bad.cnf"]).utf8ByteSize) :
    badShelf.disk.isDirectory path = true ∧
      badShelf.disk.WalksThrough path (badShelf.FileBelow []) (badShelf.waysBelow []) ∧
      fileExtension? (joinPath path ["bad.cnf"]) = some "cnf" ∧
      readFormula badShelf.disk (joinPath path ["bad.cnf"]) = .error (.input (.file .tooLong)) ∧
      solveDirectory badShelf.disk path {} = .done [] := by
  have hnode : badShelf.node path = .ok .directory :=
    Tree.node_eq_ok_iff.2 ⟨_, hpath, rfl⟩
  have hdirectory : badShelf.disk.isDirectory path = true := Tree.isDirectory_iff.2 hnode
  have hwalk : badShelf.disk.WalksThrough path (badShelf.FileBelow []) (badShelf.waysBelow []) := by
    refine Tree.walksThrough hpath fun way hway => ?_
    rcases waysBelow_badShelf hway with rfl | rfl
    all_goals exact (Tree.locate_eq_ok_iff.1 hpath).2.1
  have hbad : badShelf.node (joinPath path ["bad.cnf"]) = .error .tooLong :=
    Tree.node_of_tooLong hsize
  refine ⟨hdirectory, hwalk, ?_, ?_, ?_⟩
  · exact (fileExtension?_joinPath path [] (by decide)).trans (by decide)
  · rw [readFormula]
    simp only [Tree.disk, Tree.read, hbad]
  · have hnone : (badShelf.disk.walk path).filter badShelf.disk.isFile = [] := by
      rw [List.filter_eq_nil_iff, hwalk.walk_eq]
      refine List.forall_mem_map.2 fun way hway => ?_
      rw [Bool.not_eq_true]
      rcases waysBelow_badShelf hway with rfl | rfl
      · simp only [Tree.disk, Tree.isFile, joinPath, hnode]
      · exact Tree.isFile_of_tooLong hsize
    rw [solveDirectory, if_pos hdirectory, hnone, solveEntries]

/-- The path of the directory has 4090 bytes and that of the file 4097. So there is a file
    with the extension of a formula that can neither be read nor would be one. It is found by
    the walk, and to solve the file itself is a failure. Still the directory is solved. -/
theorem unreachable_file_is_ignored :
    badShelf.WellFormed ∧ badShelf.disk.isDirectory (detour 2045) = true ∧
      badShelf.disk.WalksThrough (detour 2045) (badShelf.FileBelow [])
        (badShelf.waysBelow []) ∧
      badShelf.FileBelow [] ["bad.cnf"] ∧
      fileExtension? (joinPath (detour 2045) ["bad.cnf"]) = some "cnf" ∧
      Dimacs.read "1 q\n".toUTF8 = .error (.invalidLiteral 1 "q") ∧
      ¬Readable badShelf.disk (joinPath (detour 2045) ["bad.cnf"]) ∧
      (∃ message, solveFile badShelf.disk (joinPath (detour 2045) ["bad.cnf"]) {} =
        .failed message) ∧
      (solveDirectory badShelf.disk (detour 2045) {}).result = .ok () := by
  have htree : badShelf.WellFormed :=
    { ne_nil := by decide, isName := by decide, nodup := by decide, directory := by simp [badShelf] }
  have hpath : badShelf.locate (detour 2045) = .ok (.below []) :=
    locate_detour badShelf 2045 (by decide) (by decide)
  have hsize : pathLimit < (joinPath (detour 2045) ["bad.cnf"]).utf8ByteSize := by
    have hname : (String.intercalate "/" ["bad.cnf"]).utf8ByteSize = 7 := by decide
    rw [joinPath, String.utf8ByteSize_append, String.utf8ByteSize_append, utf8ByteSize_detour,
      hname, pathLimit]
    omega
  have hbad : Dimacs.read "1 q\n".toUTF8 = .error (.invalidLiteral 1 "q") := by decide
  obtain ⟨hdirectory, hwalk, hext, hread, hsolve⟩ := solveDirectory_badShelf hpath hsize
  exact ⟨htree, hdirectory, hwalk, ⟨_, .head _⟩, hext, hbad, not_readable_of_error hext hread,
    ⟨_, solveFile_of_error hread⟩, congrArg Performed.result hsolve⟩

end GridSat.Command
