import Mathlib.Data.List.Nodup
import GridSat.Proofs.Traversal
import GridSat.Sudoku.Puzzle

/-!
# Puzzles as tables of digits

A puzzle that passes the check of `Puzzle.ofBoard` is nothing but a size and a
digit, at most the side length, for each row and column
(`Puzzle.Accepted.eq_ofDigits`). Its clues, its completeness and its agreement
with a grid are read off that table, with rows and columns counted from one.
-/

namespace GridSat.Sudoku

/-! ### Numbers -/

namespace Size

variable {s : Size} {n : Nat}

@[simp] theorem mem_numbers : n ∈ s.numbers ↔ 1 ≤ n ∧ n ≤ s.side := by
  rw [numbers, List.mem_range'_1]
  omega

@[simp] theorem length_numbers (s : Size) : s.numbers.length = s.side :=
  List.length_range'

theorem nodup_numbers (s : Size) : s.numbers.Nodup :=
  List.nodup_range'

theorem pairwise_numbers (s : Size) : s.numbers.Pairwise (· < ·) :=
  List.pairwise_lt_range' ..

theorem ofSide_eq_ok_iff : ofSide n = .ok s ↔ n = s.side := by
  rw [← ofSide?_eq_some_iff, ofSide]
  cases ofSide? n <;> simp

variable {α : Type} (d : Nat → α)

/-- The entry for a number stands one place before it. -/
theorem getElem?_map_numbers (h : n ∈ s.numbers) : (s.numbers.map d)[n - 1]? = some (d n) := by
  rw [mem_numbers] at h
  rw [List.getElem?_map, numbers, List.getElem?_range' (by omega), Option.map_some]
  congr 2
  omega

theorem zipIdx_map_numbers (s : Size) :
    (s.numbers.map d).zipIdx 1 = s.numbers.map fun n => (d n, n) := by
  rw [List.zipIdx_eq_zip_range', List.length_map, length_numbers]
  calc (s.numbers.map d).zip s.numbers
    _ = (s.numbers.map d).zip (s.numbers.map id) := by rw [List.map_id]
    _ = s.numbers.map fun n => (d n, n) := List.zip_map' ..

/-- A list of the right length is a table for the numbers. -/
theorem eq_map_numbers {l : List α} (hlength : l.length = s.side)
    (hd : ∀ i a, l[i]? = some a → d (i + 1) = a) : l = s.numbers.map d := by
  refine List.ext_getElem? fun i => ?_
  by_cases hi : i < s.side
  · have hmem : i + 1 ∈ s.numbers := mem_numbers.2 (by omega)
    have hget : l[i]? = some l[i] := List.getElem?_eq_getElem (by omega)
    have hmap := getElem?_map_numbers d hmem
    rw [Nat.add_sub_cancel] at hmap
    rw [hmap, hget, hd i _ hget]
  · rw [List.getElem?_eq_none (by omega), List.getElem?_eq_none (by simp; omega)]

end Size

namespace Puzzle

variable {p q : Puzzle} {s : Size} {row col : Nat}

/-! ### Accepted puzzles -/

/-- The board of the puzzle passes the check for its size. -/
def Accepted (p : Puzzle) : Prop :=
  ofBoard p.board = .ok p

instance : DecidablePred Accepted := fun p =>
  inferInstanceAs (Decidable (ofBoard p.board = .ok p))

theorem rowFault?_eq_none_iff {side row : Nat} {entries : List Nat} :
    rowFault? side row entries = none ↔ entries.length = side ∧ ∀ num ∈ entries, num ≤ side := by
  rw [rowFault?]
  split
  · next h => exact iff_of_false nofun fun h' => h h'.1
  · next h =>
    rw [List.forall_mem_iff_forall_getElem]
    simp only [List.findSome?_eq_none_iff, List.forall_mem_zipIdx, ite_eq_right_iff, reduceCtorEq,
      imp_false, Nat.not_lt, not_not.1 h, true_and]

theorem findSome?_rowFault?_eq_none_iff {side : Nat} {rows : List (List Nat)} :
    ((rows.zipIdx 1).findSome? fun (entries, row) => rowFault? side row entries) = none ↔
      ∀ entries ∈ rows, entries.length = side ∧ ∀ num ∈ entries, num ≤ side := by
  rw [List.forall_mem_iff_forall_getElem]
  simp only [List.findSome?_eq_none_iff, List.forall_mem_zipIdx, rowFault?_eq_none_iff]

/-- The first row that is at fault decides. -/
theorem findSome?_rowFault?_append {side : Nat} {above below : List (List Nat)} {nums : List Nat}
    {fault : Fault}
    (h : ∀ entries ∈ above, entries.length = side ∧ ∀ num ∈ entries, num ≤ side)
    (hfault : rowFault? side (above.length + 1) nums = some fault) :
    (((above ++ nums :: below).zipIdx 1).findSome? fun (entries, row) =>
      rowFault? side row entries) = some fault :=
  findSome?_zipIdx_append (fun entries hentries _ => rowFault?_eq_none_iff.2 (h entries hentries))
    hfault

/-- What the check is for: as many rows and columns as the size has, and no
    greater digits. -/
theorem accepted_iff : p.Accepted ↔ p.board.rows.length = p.size.side ∧
    ∀ entries ∈ p.board.rows, entries.length = p.size.side ∧
      ∀ num ∈ entries, num ≤ p.size.side := by
  rw [Accepted, ofBoard]
  constructor
  · intro h
    split at h
    · exact absurd h nofun
    next size hsize =>
    split at h
    · exact absurd h nofun
    next hnone =>
    obtain rfl : size = p.size := congrArg Puzzle.size (Except.ok.inj h)
    exact ⟨Size.ofSide_eq_ok_iff.1 hsize, findSome?_rowFault?_eq_none_iff.1 hnone⟩
  · rintro ⟨hlength, hrows⟩
    rw [Size.ofSide_eq_ok_iff.2 hlength]
    dsimp only
    rw [findSome?_rowFault?_eq_none_iff.2 hrows]

theorem accepted_of_ofBoard {b : Board} (h : ofBoard b = .ok p) : p.Accepted := by
  have hboard : p.board = b := by
    rw [ofBoard] at h
    split at h
    · exact absurd h nofun
    split at h
    · exact absurd h nofun
    · exact Except.ok.inj h ▸ rfl
  rw [Accepted, hboard]
  exact h

/-! ### Tables of digits -/

/-- The digit at a row and a column, both counted from one; zero outside the
    board. -/
def digit (p : Puzzle) (row col : Nat) : Nat :=
  (p.board.get (row - 1) (col - 1)).toOption.getD 0

/-- The puzzle of a table of digits. -/
def ofDigits (s : Size) (d : Nat → Nat → Nat) : Puzzle :=
  ⟨s, ⟨s.numbers.map fun row => s.numbers.map (d row)⟩⟩

@[simp] theorem size_ofDigits (s : Size) (d : Nat → Nat → Nat) : (ofDigits s d).size = s := rfl

theorem rows_ofDigits (s : Size) (d : Nat → Nat → Nat) :
    (ofDigits s d).board.rows = s.numbers.map fun row => s.numbers.map (d row) := rfl

variable {d d' : Nat → Nat → Nat}

theorem get_ofDigits (hrow : row ∈ s.numbers) (hcol : col ∈ s.numbers) :
    (ofDigits s d).board.get (row - 1) (col - 1) = .ok (d row col) := by
  rw [Board.get, rows_ofDigits, Size.getElem?_map_numbers _ hrow]
  simp only [Size.getElem?_map_numbers _ hcol]

theorem digit_ofDigits (hrow : row ∈ s.numbers) (hcol : col ∈ s.numbers) :
    (ofDigits s d).digit row col = d row col := by
  rw [digit, get_ofDigits hrow hcol]
  rfl

theorem ofDigits_congr (h : ∀ row ∈ s.numbers, ∀ col ∈ s.numbers, d row col = d' row col) :
    ofDigits s d = ofDigits s d' := by
  have hrows : (s.numbers.map fun row => s.numbers.map (d row)) =
      s.numbers.map fun row => s.numbers.map (d' row) :=
    List.map_congr_left fun row hrow => List.map_congr_left (h row hrow)
  rw [ofDigits, hrows, ofDigits]

/-- An accepted puzzle is the table of its digits. -/
theorem Accepted.eq_ofDigits (hp : p.Accepted) : p = ofDigits p.size p.digit := by
  obtain ⟨hlength, hrows⟩ := accepted_iff.1 hp
  obtain ⟨size, ⟨rows⟩⟩ := p
  have htable : rows = size.numbers.map fun row => size.numbers.map (digit ⟨size, ⟨rows⟩⟩ row) := by
    -- The list of rows is a table for the rows, and each row is one for the columns.
    refine Size.eq_map_numbers _ hlength fun i entries hentries => ?_
    have hmem := List.mem_of_getElem? hentries
    refine (Size.eq_map_numbers _ (hrows entries hmem).1 fun j num hnum => ?_).symm
    simp [digit, Board.get, hentries, hnum, Except.toOption]
  rw [ofDigits]
  congr

theorem accepted_ofDigits (h : ∀ row ∈ s.numbers, ∀ col ∈ s.numbers, d row col ≤ s.side) :
    (ofDigits s d).Accepted := by
  refine accepted_iff.2 ⟨by simp [rows_ofDigits], ?_⟩
  rw [rows_ofDigits, List.forall_mem_map]
  intro row hrow
  refine ⟨by simp, ?_⟩
  rw [List.forall_mem_map]
  exact h row hrow

theorem Accepted.get_eq (hp : p.Accepted) (hrow : row ∈ p.size.numbers)
    (hcol : col ∈ p.size.numbers) :
    p.board.get (row - 1) (col - 1) = .ok (p.digit row col) := by
  have h : (ofDigits p.size p.digit).board.get (row - 1) (col - 1) = .ok (p.digit row col) :=
    get_ofDigits hrow hcol
  rwa [← hp.eq_ofDigits] at h

theorem Accepted.digit_le (hp : p.Accepted) (hrow : row ∈ p.size.numbers)
    (hcol : col ∈ p.size.numbers) : p.digit row col ≤ p.size.side := by
  have hrows := (accepted_iff.1 hp).2
  rw [hp.eq_ofDigits, rows_ofDigits] at hrows
  exact (hrows _ (List.mem_map_of_mem hrow)).2 _ (List.mem_map_of_mem hcol)

/-- Accepted puzzles of one size are told apart by their digits. -/
theorem Accepted.eq_of_digit_eq (hp : p.Accepted) (hq : q.Accepted) (hsize : p.size = q.size)
    (h : ∀ row ∈ p.size.numbers, ∀ col ∈ p.size.numbers, p.digit row col = q.digit row col) :
    p = q := by
  rw [hp.eq_ofDigits, hq.eq_ofDigits, ← hsize]
  exact ofDigits_congr h

/-! ### Clues, completeness and agreement -/

theorem Accepted.mem_clues_iff (hp : p.Accepted) {c : Placement} :
    c ∈ p.clues ↔ c.row ∈ p.size.numbers ∧ c.col ∈ p.size.numbers ∧
      p.digit c.row c.col ≠ 0 ∧ p.digit c.row c.col = c.num := by
  obtain ⟨row, col, num⟩ := c
  rw [hp.eq_ofDigits, clues, rows_ofDigits]
  simp only [Size.zipIdx_map_numbers, List.flatMap_map, List.filterMap_map, List.mem_flatMap,
    List.mem_filterMap, size_ofDigits]
  constructor
  · rintro ⟨row', hrow, col', hcol, h⟩
    simp only [Function.comp_apply] at h
    split at h
    · exact absurd h nofun
    next hne =>
    obtain ⟨rfl, rfl, rfl⟩ := Placement.mk.inj (Option.some.inj h)
    rw [digit_ofDigits hrow hcol]
    exact ⟨hrow, hcol, hne, rfl⟩
  · rintro ⟨hrow, hcol, hne, hnum⟩
    rw [digit_ofDigits hrow hcol] at hne hnum
    obtain rfl : p.digit row col = num := hnum
    exact ⟨row, hrow, col, hcol, if_neg hne⟩

theorem Accepted.isComplete_iff (hp : p.Accepted) :
    p.isComplete = true ↔
      ∀ row ∈ p.size.numbers, ∀ col ∈ p.size.numbers, p.digit row col ≠ 0 := by
  conv => lhs; rw [hp.eq_ofDigits, isComplete, rows_ofDigits]
  simp only [List.all_map, List.all_eq_true, Function.comp_apply, bne_iff_ne]

/-- In a complete puzzle every entry is a digit. -/
theorem Accepted.digit_mem_numbers (hp : p.Accepted) (hcomplete : p.isComplete = true)
    (hrow : row ∈ p.size.numbers) (hcol : col ∈ p.size.numbers) :
    p.digit row col ∈ p.size.numbers := by
  have hne := hp.isComplete_iff.1 hcomplete row hrow col hcol
  have hle := hp.digit_le hrow hcol
  rw [Size.mem_numbers]
  omega

theorem agreesWith_iff (hp : p.Accepted) (hq : q.Accepted) :
    p.agreesWith q = true ↔ p.size = q.size ∧ ∀ row ∈ p.size.numbers, ∀ col ∈ p.size.numbers,
      p.digit row col = 0 ∨ p.digit row col = q.digit row col := by
  rw [agreesWith, Bool.and_eq_true, decide_eq_true_iff]
  refine and_congr_right fun hsize => ?_
  -- The sizes are equal, so the rows of `q` pair up with those of `p`.
  have hrows : q.board.rows = p.size.numbers.map fun row => p.size.numbers.map (q.digit row) := by
    rw [hsize]
    exact congrArg (·.board.rows) hq.eq_ofDigits
  conv => lhs; rw [hrows, hp.eq_ofDigits, rows_ofDigits]
  simp [List.zip_map', List.all_map]

theorem Accepted.agreesWith_self (hp : p.Accepted) : p.agreesWith p = true :=
  (agreesWith_iff hp hp).2 ⟨rfl, fun _ _ _ _ => .inr rfl⟩

/-- A complete puzzle agrees with no grid but itself. -/
theorem eq_of_agreesWith_of_isComplete (hp : p.Accepted) (hq : q.Accepted)
    (hcomplete : p.isComplete = true) (h : p.agreesWith q = true) : p = q := by
  obtain ⟨hsize, hdigits⟩ := (agreesWith_iff hp hq).1 h
  refine hp.eq_of_digit_eq hq hsize fun row hrow col hcol => ?_
  exact (hdigits row hrow col hcol).resolve_left (hp.isComplete_iff.1 hcomplete row hrow col hcol)

end Puzzle

end GridSat.Sudoku
