import GridSat.Files.Disk

/-!
# What can be wrong with a puzzle

The faults of a puzzle that is read, of a board that is checked, and of a model
that is read back into a grid. Rows and columns are counted from one.
-/

namespace GridSat.Sudoku

/-- Why something is not a puzzle, or not a solution. -/
inductive Fault where
  /-- The input cannot be read. -/
  | input (cause : InputError)
  /-- The number of rows is not a side length. -/
  | unsupportedSize (side : Nat)
  /-- A row is too short or too long. -/
  | rowLength (row found expected : Nat)
  /-- An entry cannot be read. -/
  | invalidEntry (row col : Nat) (found : String)
  /-- A value is greater than the side length. -/
  | valueOutOfRange (row col value side : Nat)
  /-- A model places two digits or more in a cell. -/
  | multipleValues (row col : Nat)
  /-- A model places no digit in a cell. -/
  | emptyCell (row col : Nat)
deriving DecidableEq

/-- The text of a fault. -/
def Fault.message : Fault → String
  | input cause => cause.message
  | unsupportedSize side => s!"unsupported grid size {side}; expected 4, 9, 16 or 25"
  | rowLength row found expected => s!"row {row} has {found} entries, expected {expected}"
  | invalidEntry row col found => s!"invalid entry '{found}' at row {row}, column {col}"
  | valueOutOfRange row col value side =>
    s!"value {value} at row {row}, column {col} does not fit a {side}x{side} grid"
  | multipleValues row col =>
    s!"solution places more than one digit at row {row}, column {col}"
  | emptyCell row col => s!"solution leaves row {row}, column {col} empty"

/-- Looking at a cell that the board does not have. -/
structure OutOfBounds where
deriving DecidableEq

/-- The text of looking outside the board. -/
def OutOfBounds.message (_ : OutOfBounds) : String :=
  "index out of bounds"

end GridSat.Sudoku
