import GridSat.Distinct
import GridSat.Logic.Literal
import GridSat.Sudoku.Size

/-!
# Puzzles

A *placement* states that a digit stands in a cell. Each placement has a
variable of its own, named after its row, its column and its digit.

A *board* is a table of digits, with zero for a blank. A *puzzle* is a board
with a size; `Puzzle.ofBoard` checks that the two fit together. It is written
with one character for each cell (`digitChar`).

A grid is *solved* if it is complete and every group holds as many different
digits as it has cells. A puzzle *agrees* with a grid of the same size if the
grid keeps all of its digits.
-/

namespace GridSat.Sudoku

/-! ### Digits as characters -/

/-- The character of a digit. Past the letters the characters go on by code
    point, up to the last one of a single byte, and a question mark stands for
    anything beyond. -/
def digitChar (n : Nat) : Char :=
  if n = 0 then '.'
  else if n < 10 then Char.ofNat ('0'.toNat + n)
  else if 'A'.toNat + (n - 10) ≤ 255 then Char.ofNat ('A'.toNat + (n - 10))
  else '?'

/-- The digit that a character stands for. A zero is a blank as well as a dot,
    and letters of either case go up to the twenty-five of the largest grid. -/
def charDigit? (c : Char) : Option Nat :=
  if c = '.' then some 0
  else if c.isDigit then some (c.toNat - '0'.toNat)
  else if 'A' ≤ c ∧ c ≤ 'P' then some (c.toNat - 'A'.toNat + 10)
  else if 'a' ≤ c ∧ c ≤ 'p' then some (c.toNat - 'a'.toNat + 10)
  else none

/-! ### Placements -/

/-- The digit `num` stands at `row` and `col`, all counted from one. -/
structure Placement where
  row : Nat
  col : Nat
  num : Nat
deriving DecidableEq

namespace Placement

/-- The name of the placement. The separators keep `(1, 11, 1)` and
    `(11, 1, 1)` apart. -/
def name (p : Placement) : String :=
  s!"v{p.row}_{p.col}_{p.num}"

/-- The variable of the placement. -/
def var (p : Placement) : Variable :=
  ⟨p.name⟩

/-- The literal that the placement holds. -/
def literal (p : Placement) : Literal :=
  .positive p.var

end Placement

/-! ### Boards -/

/-- Rows of digits, with zero for a blank. -/
structure Board where
  /-- The rows from top to bottom. -/
  rows : List (List Nat)
deriving DecidableEq

namespace Board

/-- The board of blanks. -/
def empty (s : Size) : Board :=
  ⟨List.replicate s.side (List.replicate s.side 0)⟩

/-- The digit at a row and a column, both counted from zero. -/
def get (b : Board) (row col : Nat) : Except OutOfBounds Nat :=
  match b.rows[row]? with
  | none => .error {}
  | some entries =>
    match entries[col]? with
    | none => .error {}
    | some num => .ok num

end Board

/-! ### Puzzles and grids -/

/-- A board that stands for a grid of some size. -/
structure Puzzle where
  /-- The size of the grid. -/
  size : Size
  /-- Its digits. -/
  board : Board
deriving DecidableEq

namespace Puzzle

/-- What is wrong with a row of a grid of the given side, if anything: its
    length, or else the first of its values that is too great. -/
def rowFault? (side row : Nat) (entries : List Nat) : Option Fault :=
  if entries.length ≠ side then some (.rowLength row entries.length side)
  else (entries.zipIdx 1).findSome? fun (value, col) =>
    if side < value then some (.valueOutOfRange row col value side) else none

/-- The puzzle of a board, if it has a supported number of rows and no row is
    at fault. -/
def ofBoard (b : Board) : Except Fault Puzzle :=
  match Size.ofSide b.rows.length with
  | .error fault => .error fault
  | .ok size =>
    match (b.rows.zipIdx 1).findSome? fun (entries, row) => rowFault? size.side row entries with
    | some fault => .error fault
    | none => .ok ⟨size, b⟩

/-- The puzzle of blanks. -/
def empty (s : Size) : Puzzle :=
  ⟨s, .empty s⟩

/-- The digits that are given, in reading order. -/
def clues (p : Puzzle) : List Placement :=
  (p.board.rows.zipIdx 1).flatMap fun (entries, row) =>
    (entries.zipIdx 1).filterMap fun (num, col) => if num = 0 then none else some ⟨row, col, num⟩

/-- Whether no cell is blank. -/
def isComplete (p : Puzzle) : Bool :=
  p.board.rows.all fun entries => entries.all (· != 0)

/-- Whether the cells of a group hold as many different digits as the grid has. -/
def isGroupSolved (p : Puzzle) (group : List (Nat × Nat)) : Except OutOfBounds Bool :=
  match group.mapM fun (row, col) => p.board.get (row - 1) (col - 1) with
  | .error e => .error e
  | .ok digits => .ok ((distinct digits).length == p.size.side)

/-- Whether all of the groups are solved, looking no further than the first
    that is not. -/
def areGroupsSolved (p : Puzzle) : List (List (Nat × Nat)) → Except OutOfBounds Bool
  | [] => .ok true
  | group :: groups =>
    match p.isGroupSolved group with
    | .error e => .error e
    | .ok false => .ok false
    | .ok true => areGroupsSolved p groups

/-- Whether the grid is complete and solved. A complete board that is smaller
    than its size has no answer if a missing cell is looked at. -/
def isSolved (p : Puzzle) : Except OutOfBounds Bool :=
  if p.isComplete then p.areGroupsSolved p.size.groups else .ok false

/-- Whether every digit of `p` stands unchanged in `q`. -/
def agreesWith (p q : Puzzle) : Bool :=
  p.size = q.size && (p.board.rows.zip q.board.rows).all fun (mine, theirs) =>
    (mine.zip theirs).all fun (a, b) => a == 0 || a == b

/-- The rows, each on a line, one character per cell. -/
def render (p : Puzzle) : String :=
  String.join (p.board.rows.map fun entries => String.ofList (entries.map digitChar) ++ "\n")

end Puzzle

/-! ### Two puzzles -/

/-- A puzzle of size four, given by its ones and fours. Its twos and threes may
    be swapped. -/
def sampleFour : Board :=
  ⟨[[1, 0, 0, 4], [0, 4, 1, 0], [0, 1, 4, 0], [4, 0, 0, 1]]⟩

/-- A puzzle of size nine, which propagation alone solves. -/
def sampleNine : Board :=
  ⟨[[5, 3, 0, 0, 7, 0, 0, 0, 0],
    [6, 0, 0, 1, 9, 5, 0, 0, 0],
    [0, 9, 8, 0, 0, 0, 0, 6, 0],
    [8, 0, 0, 0, 6, 0, 0, 0, 3],
    [4, 0, 0, 8, 0, 3, 0, 0, 1],
    [7, 0, 0, 0, 2, 0, 0, 0, 6],
    [0, 6, 0, 0, 0, 0, 2, 8, 0],
    [0, 0, 0, 4, 1, 9, 0, 0, 5],
    [0, 0, 0, 0, 8, 0, 0, 7, 9]]⟩

end GridSat.Sudoku
