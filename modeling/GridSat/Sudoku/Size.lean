import GridSat.Sudoku.Fault

/-!
# Sizes, cells and groups

A grid has four, nine, sixteen or twenty-five rows and as many columns, and
falls into square blocks whose side is the square root of that number. Its
*groups* are its rows, its columns and its blocks, each the list of its cells.
A cell is a row and a column, both counted from one.
-/

namespace GridSat.Sudoku

/-- A supported size of grid. -/
inductive Size where
  | four
  | nine
  | sixteen
  | twentyFive
deriving DecidableEq

namespace Size

/-- The number of rows, of columns, and of digits. -/
def side : Size → Nat
  | four => 4
  | nine => 9
  | sixteen => 16
  | twentyFive => 25

/-- The side length of a block. -/
def block : Size → Nat
  | four => 2
  | nine => 3
  | sixteen => 4
  | twentyFive => 5

theorem block_mul_block (s : Size) : s.block * s.block = s.side := by
  cases s <;> rfl

/-- The size of the given side length, if it is supported. -/
def ofSide? (n : Nat) : Option Size :=
  match n with
  | 4 => some four
  | 9 => some nine
  | 16 => some sixteen
  | 25 => some twentyFive
  | _ => none

/-- The size of the given side length. -/
def ofSide (n : Nat) : Except Fault Size :=
  match ofSide? n with
  | some s => .ok s
  | none => .error (.unsupportedSize n)

theorem ofSide?_eq_some_iff {n : Nat} {s : Size} : ofSide? n = some s ↔ n = s.side := by
  constructor
  · unfold ofSide?
    split <;> rintro ⟨⟩ <;> rfl
  · rintro rfl
    cases s <;> rfl

/-- The numbers from one to the side length: the rows, the columns, the digits. -/
def numbers (s : Size) : List Nat :=
  List.range' 1 s.side

/-- All cells, in reading order. -/
def cells (s : Size) : List (Nat × Nat) :=
  s.numbers.flatMap fun row => s.numbers.map fun col => (row, col)

/-- The cells of each row. -/
def rowGroups (s : Size) : List (List (Nat × Nat)) :=
  s.numbers.map fun row => s.numbers.map fun col => (row, col)

/-- The cells of each column. -/
def colGroups (s : Size) : List (List (Nat × Nat)) :=
  s.numbers.map fun col => s.numbers.map fun row => (row, col)

/-- The cells of the block below the row `top` and right of the column `left`. -/
def blockGroup (s : Size) (top left : Nat) : List (Nat × Nat) :=
  (List.range' (top + 1) s.block).flatMap fun row =>
    (List.range' (left + 1) s.block).map fun col => (row, col)

/-- The cells of each block, in reading order. -/
def blockGroups (s : Size) : List (List (Nat × Nat)) :=
  let corners := (List.range s.block).map (· * s.block)
  corners.flatMap fun top => corners.map fun left => s.blockGroup top left

/-- The rows, then the columns, then the blocks. -/
def groups (s : Size) : List (List (Nat × Nat)) :=
  s.rowGroups ++ s.colGroups ++ s.blockGroups

end Size

end GridSat.Sudoku
