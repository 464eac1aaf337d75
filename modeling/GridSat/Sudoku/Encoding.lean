import GridSat.Logic.Environment
import GridSat.Logic.Formula
import GridSat.Sudoku.Puzzle

/-!
# Puzzles as formulas

The rules of the game, over the variables of the placements: every cell holds
exactly one digit, and every group holds every digit exactly once. *Exactly
one* is a clause that some literal holds and, for every pair, a clause that not
both hold.

The formula of a puzzle has a unit clause for each clue in front, so that the
search starts with them, and behind them the rules, the last one first.

Back again, an environment gives a grid if it makes exactly one placement true
for every cell. Placements that it leaves unbound count as false. Otherwise the
first cell in reading order that has no digit, or more than one, is at fault.
-/

namespace GridSat.Sudoku

/-! ### Rules -/

/-- The pairs of items at two different positions, the earlier one first. -/
def pairs {α : Type} : List α → List (α × α)
  | [] => []
  | a :: l => l.map (fun b => (a, b)) ++ pairs l

/-- Some literal holds. -/
def atLeastOne (ls : List Literal) : Clause :=
  .ofList ls

/-- No two literals hold together: of any two negations, one holds. -/
def atMostOne (ls : List Literal) : List Clause :=
  (pairs (ls.map Literal.negated)).map fun (a, b) => .ofList [a, b]

/-- Some literal holds, and no two do. -/
def exactlyOne (ls : List Literal) : List Clause :=
  atLeastOne ls :: atMostOne ls

namespace Size

/-- Every cell holds exactly one digit. -/
def cellRules (s : Size) : List Clause :=
  s.cells.flatMap fun (row, col) =>
    exactlyOne (s.numbers.map fun num => Placement.literal ⟨row, col, num⟩)

/-- Every group holds every digit exactly once. -/
def groupRules (s : Size) : List Clause :=
  s.groups.flatMap fun group => s.numbers.flatMap fun num =>
    exactlyOne (group.map fun (row, col) => Placement.literal ⟨row, col, num⟩)

/-- The rules for cells, then those for groups. -/
def rules (s : Size) : List Clause :=
  s.cellRules ++ s.groupRules

end Size

namespace Puzzle

/-- The formula of the puzzle with further placements as clues. A board has one
    digit per cell, so this is how two clues for one cell are stated. -/
def toFormulaWith (p : Puzzle) (extra : List Placement) : Formula :=
  let clues := Formula.ofList ((p.clues ++ extra).map fun clue => .singleton clue.literal)
  (p.size.rules.foldl Formula.add .empty).and clues

/-- The formula of the puzzle. -/
def toFormula (p : Puzzle) : Formula :=
  p.toFormulaWith []

end Puzzle

/-! ### Grids from environments -/

/-- The digits that are placed in a cell. -/
def placedDigits (s : Size) (values : Std.HashMap Variable Bool) (row col : Nat) : List Nat :=
  s.numbers.filter fun num => values.getD (Placement.var ⟨row, col, num⟩) false

/-- The digit of a cell, which has to be the only one placed there. -/
def cellDigit (s : Size) (values : Std.HashMap Variable Bool) (row col : Nat) :
    Except Fault Nat :=
  match placedDigits s values row col with
  | [] => .error (.emptyCell row col)
  | [num] => .ok num
  | _ :: _ :: _ => .error (.multipleValues row col)

/-- The grid, of the size of the puzzle, that an environment describes. -/
def Puzzle.decode (p : Puzzle) (e : Environment) : Except Fault Puzzle :=
  let values := e.toMap
  match p.size.numbers.mapM fun row => p.size.numbers.mapM (cellDigit p.size values row) with
  | .error fault => .error fault
  | .ok rows => .ok ⟨p.size, ⟨rows⟩⟩

end GridSat.Sudoku
