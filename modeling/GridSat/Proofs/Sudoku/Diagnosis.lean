import GridSat.Proofs.Sudoku.Layout

/-!
# The grammar of puzzles

What any bytes are read as, said without the reader. The bytes fall into lines. If one of
them is no text, that is the answer, whatever else is wrong. Otherwise the lines are a
table of entries, with lines to skip anywhere (`TableOf`), and the grid is that table, or
what its frame is drawn around (`Unframed`). Then the entries come before the shape: the
first one in reading order that stands for nothing is named, on a ragged grid as well
(`Diagnosis`). Only if all of them stand for a value does the number of rows count, and
then row after row, the length of a row before its values (`Assessment`). What is left is
a puzzle that fits its size.

Each of the relations has an answer for any input, and it is the one that the reader
gives, so there is nothing else that is read (`Puzzle.read_iff_parses`).
-/

namespace GridSat.Sudoku

open Text

/-! ### Tables -/

/-- The lines are texts, the rows in order with lines to skip anywhere. -/
inductive TableOf : List (List String) → List (List UInt8) → Prop
  | nil : TableOf [] []
  | skip {cs : List Char} {rows : List (List String)} {lines : List (List UInt8)} :
      Skipped cs → TableOf rows lines → TableOf rows (encode cs :: lines)
  | row {cs : List Char} {entries : List String} {rows : List (List String)}
      {lines : List (List UInt8)} : HasEntries entries cs → TableOf rows lines →
      TableOf (entries :: rows) (encode cs :: lines)

section Tables

variable {rows : List (List String)} {lines : List (List UInt8)}

theorem TableOf.exists_texts (h : TableOf rows lines) :
    ∃ texts, List.Forall₂ (fun line text => lineText? line = some text) lines texts ∧
      texts.filterMap rowEntries? = rows := by
  induction h with
  | nil => exact ⟨[], .nil, rfl⟩
  | @skip cs _ _ hcs _ ih =>
    obtain ⟨texts, htexts, hrows⟩ := ih
    refine ⟨String.ofList cs :: texts, .cons (lineText?_encode cs) htexts, ?_⟩
    rw [List.filterMap_cons, hcs.rowEntries?_eq, hrows]
  | @row cs _ _ _ hcs _ ih =>
    obtain ⟨texts, htexts, hrows⟩ := ih
    refine ⟨String.ofList cs :: texts, .cons (lineText?_encode cs) htexts, ?_⟩
    rw [List.filterMap_cons, hcs.rowEntries?_eq, hrows]

/-- Any lines that are texts are a table. -/
theorem exists_tableOf (h : ∀ line ∈ lines, ∃ cs, encode cs = line) :
    ∃ rows, TableOf rows lines := by
  induction lines with
  | nil => exact ⟨[], .nil⟩
  | cons line lines ih =>
    obtain ⟨⟨cs, rfl⟩, hlines⟩ := List.forall_mem_cons.1 h
    obtain ⟨rows, hrows⟩ := ih hlines
    rcases skipped_or_exists_hasEntries cs with hcs | ⟨entries, hentries⟩
    · exact ⟨rows, .skip hcs hrows⟩
    · exact ⟨entries :: rows, .row hentries hrows⟩

end Tables

/-! ### Frames -/

/-- The grid is the table without its index frame, if the table has as many rows and
    columns as a grid in a frame. -/
inductive Unframed : List (List String) → List (List String) → Prop
  | frame {s : Size} {top side : List String} {grid : List (List String)} :
      top.length = s.side + 1 → side.length = s.side → IsGrid s grid →
      Unframed (inFrame top side grid) grid
  | plain {rows : List (List String)} :
      (∀ s : Size, ¬(rows.length = s.side + 1 ∧
        ∀ entries ∈ rows, entries.length = s.side + 1)) → Unframed rows rows

section Frames

variable {rows grid : List (List String)}

theorem Unframed.dropFrame_eq (h : Unframed rows grid) : dropFrame rows = grid := by
  cases h with
  | frame htop hside hgrid => exact hgrid.dropFrame_inFrame htop hside
  | plain hplain =>
    refine dropFrame_eq_self (Bool.eq_false_iff.2 fun hframed => ?_)
    obtain ⟨s, hs⟩ := isFramed_iff.1 hframed
    exact hplain s hs

/-- A table with a row and a column more than a grid is a grid in a frame. -/
theorem exists_inFrame_eq {s : Size} (hlength : rows.length = s.side + 1)
    (hrows : ∀ entries ∈ rows, entries.length = s.side + 1) :
    ∃ top side grid, top.length = s.side + 1 ∧ side.length = s.side ∧ IsGrid s grid ∧
      rows = inFrame top side grid := by
  obtain ⟨top, below, rfl⟩ := List.exists_cons_of_length_eq_add_one hlength
  obtain ⟨htop, hbelow⟩ := List.forall_mem_cons.1 hrows
  have hlength : below.length = s.side := Nat.succ_inj.1 hlength
  refine ⟨top, below.map (·.headD ""), below.map List.tail, htop, ?_, ⟨?_, ?_⟩, ?_⟩
  · rw [List.length_map, hlength]
  · rw [List.length_map, hlength]
  · rw [List.forall_mem_map]
    intro entries hentries
    rw [List.length_tail, hbelow entries hentries, Nat.add_sub_cancel]
  · have hcons : ∀ entries ∈ below, entries.headD "" :: entries.tail = entries := by
      intro entries hentries
      obtain ⟨token, rest, rfl⟩ := List.exists_cons_of_length_eq_add_one (hbelow entries hentries)
      rfl
    rw [inFrame, List.zipWith_map, List.zipWith_self]
    exact congrArg (top :: ·) ((List.map_congr_left hcons).trans (List.map_id _)).symm

theorem exists_unframed (rows : List (List String)) : ∃ grid, Unframed rows grid := by
  by_cases hframed : ∃ s : Size, rows.length = s.side + 1 ∧
      ∀ entries ∈ rows, entries.length = s.side + 1
  · obtain ⟨s, hlength, hrows⟩ := hframed
    obtain ⟨top, side, grid, htop, hside, hgrid, rfl⟩ := exists_inFrame_eq hlength hrows
    exact ⟨grid, .frame htop hside hgrid⟩
  · exact ⟨rows, .plain (not_exists.1 hframed)⟩

end Frames

/-! ### Boards -/

/-- The row has as many values as a grid of the size, and none is too great. -/
def Fits (s : Size) (nums : List Nat) : Prop :=
  nums.length = s.side ∧ ∀ num ∈ nums, num ≤ s.side

/-- What comes of a table of values: the number of rows is looked at first, and then the
    first row that does not fit. -/
inductive Assessment (values : List (List Nat)) : Except Fault Puzzle → Prop
  | unsupportedSize : (∀ s : Size, values.length ≠ s.side) →
      Assessment values (.error (.unsupportedSize values.length))
  | rowLength {s : Size} {above below : List (List Nat)} {nums : List Nat} :
      values.length = s.side → values = above ++ nums :: below →
      (∀ nums ∈ above, Fits s nums) → nums.length ≠ s.side →
      Assessment values (.error (.rowLength (above.length + 1) nums.length s.side))
  | valueOutOfRange {s : Size} {above below : List (List Nat)} {left right : List Nat}
      {num : Nat} :
      values.length = s.side → values = above ++ (left ++ num :: right) :: below →
      (∀ nums ∈ above, Fits s nums) → (left ++ num :: right).length = s.side →
      (∀ num ∈ left, num ≤ s.side) → s.side < num →
      Assessment values
        (.error (.valueOutOfRange (above.length + 1) (left.length + 1) num s.side))
  | puzzle {s : Size} : values.length = s.side → (∀ nums ∈ values, Fits s nums) →
      Assessment values (.ok ⟨s, ⟨values⟩⟩)

section Boards

variable {s : Size} {values above below : List (List Nat)} {r : Except Fault Puzzle}

theorem ofBoard_of_rowFault? {nums : List Nat} {fault : Fault} (hside : values.length = s.side)
    (hvalues : values = above ++ nums :: below) (habove : ∀ nums ∈ above, Fits s nums)
    (hfault : Puzzle.rowFault? s.side (above.length + 1) nums = some fault) :
    Puzzle.ofBoard ⟨values⟩ = .error fault := by
  rw [Puzzle.ofBoard, Size.ofSide_eq_ok_iff.2 hside]
  dsimp only
  rw [hvalues, Puzzle.findSome?_rowFault?_append habove hfault]

theorem Assessment.ofBoard_eq (h : Assessment values r) : Puzzle.ofBoard ⟨values⟩ = r := by
  cases h with
  | unsupportedSize hsize =>
    have hnone : Size.ofSide? values.length = none :=
      Option.eq_none_iff_forall_ne_some.2 fun s hs => hsize s (Size.ofSide?_eq_some_iff.1 hs)
    rw [Puzzle.ofBoard, Size.ofSide, hnone]
  | rowLength hside hvalues habove hlength =>
    exact ofBoard_of_rowFault? hside hvalues habove (if_pos hlength)
  | @valueOutOfRange s _ _ left right num hside hvalues habove hlength hleft hnum =>
    refine ofBoard_of_rowFault? hside hvalues habove ?_
    rw [Puzzle.rowFault?, if_neg (not_not.2 hlength)]
    exact findSome?_zipIdx_append (fun value hvalue _ => if_neg (Nat.not_lt.2 (hleft value hvalue)))
      (if_pos hnum)
  | @puzzle s hside hvalues => exact (@Puzzle.accepted_iff ⟨s, ⟨values⟩⟩).2 ⟨hside, hvalues⟩

/-- A row that does not fit has a wrong length or a first value that is too great. -/
theorem length_ne_or_exists_first {nums : List Nat} (h : ¬Fits s nums) :
    nums.length ≠ s.side ∨ ∃ left num right, nums = left ++ num :: right ∧
      nums.length = s.side ∧ (∀ num ∈ left, num ≤ s.side) ∧ s.side < num := by
  by_cases hlength : nums.length = s.side
  · rcases forall_or_exists_first (· ≤ s.side) nums with
      hall | ⟨left, num, right, hnums, hleft, hnum⟩
    · exact absurd ⟨hlength, hall⟩ h
    · exact .inr ⟨left, num, right, hnums, hlength, hleft, Nat.lt_of_not_le hnum⟩
  · exact .inl hlength

theorem exists_assessment (values : List (List Nat)) : ∃ r, Assessment values r := by
  by_cases hsize : ∃ s : Size, values.length = s.side
  · obtain ⟨s, hside⟩ := hsize
    rcases forall_or_exists_first (Fits s) values with
      hall | ⟨above, nums, below, hvalues, habove, hnums⟩
    · exact ⟨_, .puzzle hside hall⟩
    · rcases length_ne_or_exists_first hnums with
        hlength | ⟨left, num, right, rfl, hlength, hleft, hnum⟩
      · exact ⟨_, .rowLength hside hvalues habove hlength⟩
      · exact ⟨_, .valueOutOfRange hside hvalues habove hlength hleft hnum⟩
  · exact ⟨_, .unsupportedSize (not_exists.1 hsize)⟩

end Boards

/-! ### Grids -/

/-- The text is an entry of a grid of `n` rows. -/
def IsEntry (n : Nat) (token : String) : Prop :=
  ∃ value, Denotes n token value

/-- What comes of a grid: the first text in reading order that is no entry, and if there
    is none, what comes of the values. -/
inductive Diagnosis (grid : List (List String)) : Except Fault Puzzle → Prop
  | invalidEntry {above below : List (List String)} {left right : List String}
      {token : String} :
      grid = above ++ (left ++ token :: right) :: below →
      (∀ entries ∈ above, ∀ token ∈ entries, IsEntry grid.length token) →
      (∀ token ∈ left, IsEntry grid.length token) → ¬IsEntry grid.length token →
      Diagnosis grid (.error (.invalidEntry (above.length + 1) (left.length + 1) token))
  | assessed {values : List (List Nat)} {r : Except Fault Puzzle} :
      List.Forall₂ (List.Forall₂ (Denotes grid.length)) grid values → Assessment values r →
      Diagnosis grid r

section Grids

variable {grid : List (List String)} {r : Except Fault Puzzle}

theorem exists_values {n : Nat} {rows : List (List String)}
    (h : ∀ entries ∈ rows, ∀ token ∈ entries, IsEntry n token) :
    ∃ values, List.Forall₂ (List.Forall₂ (Denotes n)) rows values :=
  exists_forall₂ fun entries hentries => exists_forall₂ (h entries hentries)

/-- The entries are read, and then the board of their values is checked. -/
theorem Diagnosis.answer_eq (h : Diagnosis grid r) :
    (match readEntries grid with
      | .error fault => .error fault
      | .ok values => Puzzle.ofBoard ⟨values⟩) = r := by
  cases h with
  | invalidEntry hgrid habove hleft htoken =>
    obtain ⟨values, hvalues⟩ := exists_values habove
    obtain ⟨nums, hnums⟩ := exists_forall₂ hleft
    rw [readEntries_of_not_denotes hgrid hvalues hnums (not_exists.1 htoken)]
  | assessed hvalues hr =>
    rw [readEntries_of_denotes hvalues]
    exact hr.ofBoard_eq

theorem exists_diagnosis (grid : List (List String)) : ∃ r, Diagnosis grid r := by
  rcases forall_or_exists_first (fun entries => ∀ token ∈ entries, IsEntry grid.length token) grid
    with hall | ⟨above, entries, below, hgrid, habove, hentries⟩
  · obtain ⟨values, hvalues⟩ := exists_values hall
    obtain ⟨r, hr⟩ := exists_assessment values
    exact ⟨r, .assessed hvalues hr⟩
  · rcases forall_or_exists_first (IsEntry grid.length) entries with
      hall | ⟨left, token, right, rfl, hleft, htoken⟩
    · exact absurd hall hentries
    · exact ⟨_, .invalidEntry hgrid habove hleft htoken⟩

end Grids

/-! ### Bytes -/

/-- The bytes are read as this: a line that is no text comes before all, and otherwise
    the grid of the table has the answer. -/
inductive Parses (bytes : List UInt8) : Except Fault Puzzle → Prop
  | notText {lines : List (List UInt8)} {line : List UInt8} : FallsInto bytes lines →
      line ∈ lines → (∀ cs, encode cs ≠ line) → Parses bytes (.error (.input .notText))
  | table {lines : List (List UInt8)} {rows grid : List (List String)}
      {r : Except Fault Puzzle} : FallsInto bytes lines → TableOf rows lines →
      Unframed rows grid → Diagnosis grid r → Parses bytes r

section Bytes

variable {bytes : ByteArray} {r : Except Fault Puzzle}

/-- One line that is no text is enough. -/
theorem lineTexts_of_not_text {line : List UInt8} (hmem : line ∈ lines bytes)
    (hline : ∀ cs, encode cs ≠ line) : lineTexts bytes = .error (.input .notText) := by
  rcases forall_or_exists_first (fun line => ∃ text, lineText? line = some text) (lines bytes) with
    hall | ⟨before, bad, after, hlines, hbefore, hbad⟩
  · obtain ⟨text, htext⟩ := hall line hmem
    exact absurd (lineText?_eq_some_iff.1 htext) (hline text.toList)
  · have hnone : lineText? bad = none :=
      Option.eq_none_iff_forall_ne_some.2 (not_exists.1 hbad)
    obtain ⟨texts, htexts⟩ := exists_forall₂ hbefore
    rw [lineTexts, hlines]
    refine mapM_append_of_error (htexts.imp fun line text htext => ?_) ?_
    · rw [htext]
    · rw [hnone]

theorem Parses.read_eq (h : Parses bytes.data.toList r) : Puzzle.read bytes = r := by
  cases h with
  | notText hlines hmem hline =>
    rw [Puzzle.read, lineTexts_of_not_text (lines_eq_iff.2 hlines ▸ hmem) hline]
    rfl
  | table hlines htable hgrid hr =>
    obtain ⟨texts, htexts, hrows⟩ := htable.exists_texts
    rw [← lines_eq_iff.2 hlines] at htexts
    rw [Puzzle.read_of_lineTexts (lineTexts_of_forall₂ htexts), hrows, hgrid.dropFrame_eq]
    exact hr.answer_eq

theorem exists_parses (bytes : List UInt8) : ∃ r, Parses bytes r := by
  obtain ⟨lines, hlines⟩ := exists_fallsInto bytes
  by_cases htext : ∀ line ∈ lines, ∃ cs, encode cs = line
  · obtain ⟨rows, hrows⟩ := exists_tableOf htext
    obtain ⟨grid, hgrid⟩ := exists_unframed rows
    obtain ⟨r, hr⟩ := exists_diagnosis grid
    exact ⟨r, .table hlines hrows hgrid hr⟩
  · simp only [not_forall] at htext
    obtain ⟨line, hmem, hline⟩ := htext
    exact ⟨_, .notText hlines hmem (not_exists.1 hline)⟩

/-- What is read from any bytes is said by their grammar: which fault comes before which
    others, where it is, and which puzzle it is if there is none. -/
theorem Puzzle.read_iff_parses (bytes : ByteArray) (r : Except Fault Puzzle) :
    Puzzle.read bytes = r ↔ Parses bytes.data.toList r := by
  refine ⟨?_, Parses.read_eq⟩
  rintro rfl
  obtain ⟨r, hr⟩ := exists_parses bytes.data.toList
  rwa [hr.read_eq]

/-- Inside the frame a text that is no entry comes before a value that is too great. -/
example : Puzzle.readText "01234\n19..4\n2.4x.\n3.14.\n44..1" =
    .error (.invalidEntry 2 3 "x") := by
  decide +kernel

end Bytes

end GridSat.Sudoku
