import GridSat.Proofs.Logic.Bindings
import GridSat.Proofs.Sudoku.Grid
import GridSat.Sudoku.Encoding

/-!
# Reading a table of digits back

If every cell has a digit, decoding gives the table of these digits
(`Puzzle.decode_of_cellDigit`). An environment *describes* a table of digits if
it binds every placement on the board, to true if the table has the digit there
and to false otherwise; decoding gives that table back
(`Puzzle.decode_of_describes`).
-/

namespace GridSat.Sudoku

variable {e : Environment} {s : Size} {p : Puzzle} {d : Nat → Nat → Nat} {row col : Nat}

/-- The environment binds every placement on the board, according to the
    table. -/
def Describes (e : Environment) (s : Size) (d : Nat → Nat → Nat) : Prop :=
  ∀ row ∈ s.numbers, ∀ col ∈ s.numbers, ∀ num ∈ s.numbers,
    e.get? (Placement.var ⟨row, col, num⟩) = some (d row col == num)

/-- The table gives every cell of the board a digit. -/
def IsTable (s : Size) (d : Nat → Nat → Nat) : Prop :=
  ∀ row ∈ s.numbers, ∀ col ∈ s.numbers, d row col ∈ s.numbers

theorem IsTable.accepted (hd : IsTable s d) : (Puzzle.ofDigits s d).Accepted :=
  Puzzle.accepted_ofDigits fun row hrow col hcol => (Size.mem_numbers.1 (hd row hrow col hcol)).2

theorem IsTable.isComplete (hd : IsTable s d) : (Puzzle.ofDigits s d).isComplete = true := by
  refine hd.accepted.isComplete_iff.2 fun row hrow col hcol => ?_
  rw [Puzzle.size_ofDigits] at hrow hcol
  rw [Puzzle.digit_ofDigits hrow hcol]
  exact Nat.ne_of_gt (Size.mem_numbers.1 (hd row hrow col hcol)).1

theorem placedDigits_of_describes (h : Describes e s d) (hd : IsTable s d) (hrow : row ∈ s.numbers)
    (hcol : col ∈ s.numbers) : placedDigits s e.toMap row col = [d row col] := by
  have hfilter : placedDigits s e.toMap row col = s.numbers.filter (· == d row col) := by
    refine List.filter_congr fun num hnum => ?_
    rw [Std.HashMap.getD_eq_getD_getElem?, Environment.getElem?_toMap, h row hrow col hcol num hnum,
      Option.getD_some, BEq.comm]
  rw [hfilter, List.filter_beq, List.count_eq_one_of_mem s.nodup_numbers (hd row hrow col hcol),
    List.replicate_one]

/-- Decoding goes through the cells row by row, and then puts the digits on a
    board. -/
theorem Puzzle.decode_eq_bind (p : Puzzle) (e : Environment) : p.decode e =
    (p.size.numbers.mapM fun row => p.size.numbers.mapM (cellDigit p.size e.toMap row)) >>=
      fun rows => .ok ⟨p.size, ⟨rows⟩⟩ := by
  rw [decode]
  cases p.size.numbers.mapM fun row => p.size.numbers.mapM (cellDigit p.size e.toMap row) <;> rfl

theorem Puzzle.decode_of_cellDigit (h : ∀ row ∈ p.size.numbers, ∀ col ∈ p.size.numbers,
    cellDigit p.size e.toMap row col = .ok (d row col)) : p.decode e = .ok (ofDigits p.size d) := by
  have hrows : (p.size.numbers.mapM fun row => p.size.numbers.mapM (cellDigit p.size e.toMap row)) =
      .ok (p.size.numbers.map fun row => p.size.numbers.map (d row)) :=
    mapM_eq_ok fun row hrow => mapM_eq_ok (h row hrow)
  rw [decode_eq_bind, hrows]
  rfl

/-- Decoding gives the described table back. -/
theorem Puzzle.decode_of_describes (h : Describes e p.size d) (hd : IsTable p.size d) :
    p.decode e = .ok (ofDigits p.size d) := by
  refine decode_of_cellDigit fun row hrow col hcol => ?_
  rw [cellDigit, placedDigits_of_describes h hd hrow hcol]

end GridSat.Sudoku
