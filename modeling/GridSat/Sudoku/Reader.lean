import GridSat.Sudoku.Puzzle
import GridSat.Text

/-!
# Reading puzzles

A puzzle is written with a row on each line. Blank lines and lines that start
with a number sign are skipped. A row is a run of characters, one for each cell,
or, if it has a blank inside, a sequence of words; a word may be a numeral.

A grid may carry an index frame: a row more in front, and an entry more at the
start of each row. A table of `n + 1` rows of `n + 1` entries is a framed grid
if `n` is a side length, and since no side length follows another one this
never mistakes a plain grid. The frame is dropped unread.

All lines have to be text before anything else is looked at. Then the entries
are read in reading order, and last the board is checked.
-/

namespace GridSat.Sudoku

/-- The entries of a trimmed line. -/
def lineEntries (line : List Char) : List String :=
  if line.any Text.isBlank then Text.words (String.ofList line)
  else line.map fun c => String.ofList [c]

/-- The entries of a line, unless it is to be skipped. -/
def rowEntries? (text : String) : Option (List String) :=
  match Text.trim text.toList with
  | [] => none
  | '#' :: _ => none
  | line => some (lineEntries line)

/-- The texts of all lines. -/
def lineTexts (bytes : ByteArray) : Except Fault (List String) :=
  (Text.lines bytes).mapM fun line =>
    match Text.lineText? line with
    | some text => .ok text
    | none => .error (.input .notText)

/-- Whether the rows are a grid in an index frame. -/
def isFramed (rows : List (List String)) : Bool :=
  let m := rows.length
  1 < m && (Size.ofSide? (m - 1)).isSome && rows.all (·.length == m)

/-- The rows without their index frame. -/
def dropFrame (rows : List (List String)) : List (List String) :=
  if isFramed rows then rows.tail.map List.tail else rows

/-- The value of an entry of a grid of `n` rows: a numeral of any value, or a
    character for a digit, where a letter may not stand for more than `n`. -/
def entryValue? (n : Nat) (token : String) : Option Nat :=
  match Text.nat64? token with
  | some value => some value
  | none =>
    match token.toList with
    | [c] => if c.isAlpha then (charDigit? c).filter (· ≤ n) else charDigit? c
    | _ => none

/-- The values of the entries, which are read in reading order. -/
def readEntries (rows : List (List String)) : Except Fault (List (List Nat)) :=
  (rows.zipIdx 1).mapM fun (entries, row) => (entries.zipIdx 1).mapM fun (token, col) =>
    match entryValue? rows.length token with
    | some value => .ok value
    | none => .error (.invalidEntry row col token)

/-- Reads a puzzle from bytes. -/
def Puzzle.read (bytes : ByteArray) : Except Fault Puzzle := do
  let texts ← lineTexts bytes
  let values ← readEntries (dropFrame (texts.filterMap rowEntries?))
  Puzzle.ofBoard ⟨values⟩

/-- Reads a puzzle from a text. -/
def Puzzle.readText (s : String) : Except Fault Puzzle :=
  Puzzle.read s.toUTF8

end GridSat.Sudoku
