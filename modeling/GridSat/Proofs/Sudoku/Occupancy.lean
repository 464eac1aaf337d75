import GridSat.Proofs.Sudoku.Models

/-!
# Which environments give grids

An environment *places* a digit in a cell if it makes the variable of the
placement true; to leave it unbound is as good as to make it false. Decoding
gives a grid exactly if one digit is placed in every cell
(`Puzzle.exists_decode_eq_ok_iff`), and otherwise the fault of the first cell in
reading order that has none or several (`Puzzle.decode_eq_error_iff`).

Both are read off the same fact about a cell, that its result is determined by
the digits that are placed there (`cellDigit_eq_ok_iff`, `cellDigit_eq_error_iff`).
So nothing but the placements on the board matters, and neither do other bindings
nor the board of the puzzle (`Puzzle.decode_congr`).
-/

namespace GridSat.Sudoku

variable {e e' : Environment} {s : Size} {p p' g : Puzzle} {q : Placement} {row col num : Nat}
  {fault : Fault}

/-! ### Cells -/

/-- The environment makes the placement true. -/
def Places (e : Environment) (q : Placement) : Prop :=
  (q.var, true) ∈ e.toList

/-- Exactly one digit is placed in the cell. -/
def HasOneDigit (e : Environment) (s : Size) (row col : Nat) : Prop :=
  ∃! num, num ∈ s.numbers ∧ Places e ⟨row, col, num⟩

/-- What is wrong with a cell in which no digit or more than one is placed. -/
inductive CellFault (e : Environment) (s : Size) (row col : Nat) : Fault → Prop
  | empty : (∀ num ∈ s.numbers, ¬Places e ⟨row, col, num⟩) →
      CellFault e s row col (.emptyCell row col)
  | multiple {num num' : Nat} : num ∈ s.numbers → num' ∈ s.numbers → num ≠ num' →
      Places e ⟨row, col, num⟩ → Places e ⟨row, col, num'⟩ →
      CellFault e s row col (.multipleValues row col)

theorem getD_toMap_var : e.toMap.getD q.var false = true ↔ Places e q := by
  rw [Std.HashMap.getD_eq_getD_getElem?, Environment.getElem?_toMap, Places,
    ← Environment.get?_eq_some_iff]
  cases e.get? q.var <;> simp

theorem mem_placedDigits :
    num ∈ placedDigits s e.toMap row col ↔ num ∈ s.numbers ∧ Places e ⟨row, col, num⟩ := by
  rw [placedDigits, List.mem_filter, getD_toMap_var]

theorem nodup_placedDigits (s : Size) (values : Std.HashMap Variable Bool) (row col : Nat) :
    (placedDigits s values row col).Nodup :=
  s.nodup_numbers.filter _

theorem cellDigit_eq_ok_iff : cellDigit s e.toMap row col = .ok num ↔
    (num ∈ s.numbers ∧ Places e ⟨row, col, num⟩) ∧
      ∀ num', num' ∈ s.numbers ∧ Places e ⟨row, col, num'⟩ → num' = num := by
  simp only [← mem_placedDigits]
  have hnodup := nodup_placedDigits s e.toMap row col
  rw [cellDigit]
  split
  · next h => simp [h]
  · next h => simp [h, eq_comm]
  · next a b l h =>
    rw [h] at hnodup ⊢
    refine iff_of_false (fun hok => by cases hok) fun hunique => ?_
    have ha : a = num := hunique.2 a List.mem_cons_self
    have hb : b = num := hunique.2 b (List.mem_cons_of_mem _ List.mem_cons_self)
    exact (List.nodup_cons.1 hnodup).1 (ha.trans hb.symm ▸ List.mem_cons_self)

theorem exists_cellDigit_eq_ok_iff :
    (∃ num, cellDigit s e.toMap row col = .ok num) ↔ HasOneDigit e s row col :=
  exists_congr fun _ => cellDigit_eq_ok_iff

theorem cellFault_of_cellDigit (h : cellDigit s e.toMap row col = .error fault) :
    CellFault e s row col fault := by
  have hnodup := nodup_placedDigits s e.toMap row col
  rw [cellDigit] at h
  split at h
  · next hnil =>
    cases h
    refine .empty fun num hnum hplaced => ?_
    exact absurd (hnil ▸ mem_placedDigits.2 ⟨hnum, hplaced⟩) List.not_mem_nil
  · cases h
  · next a b l hcons =>
    cases h
    have hmem : ∀ num ∈ a :: b :: l, num ∈ s.numbers ∧ Places e ⟨row, col, num⟩ :=
      fun num hnum => mem_placedDigits.1 (hcons ▸ hnum)
    obtain ⟨ha, hplaced⟩ := hmem a List.mem_cons_self
    obtain ⟨hb, hplaced'⟩ := hmem b (List.mem_cons_of_mem _ List.mem_cons_self)
    rw [hcons] at hnodup
    exact .multiple ha hb (fun hab => (List.nodup_cons.1 hnodup).1 (hab ▸ List.mem_cons_self))
      hplaced hplaced'

theorem CellFault.cellDigit_eq (h : CellFault e s row col fault) :
    cellDigit s e.toMap row col = .error fault := by
  cases h with
  | empty hnone =>
    have hnil : placedDigits s e.toMap row col = [] :=
      List.eq_nil_iff_forall_not_mem.2 fun num hmem =>
        hnone num (mem_placedDigits.1 hmem).1 (mem_placedDigits.1 hmem).2
    rw [cellDigit, hnil]
  | multiple hnum hnum' hne hplaced hplaced' =>
    have hmem := mem_placedDigits.2 ⟨hnum, hplaced⟩
    have hmem' := mem_placedDigits.2 ⟨hnum', hplaced'⟩
    rw [cellDigit]
    split
    · next h => exact absurd (h ▸ hmem) List.not_mem_nil
    · next h =>
      rw [h, List.mem_singleton] at hmem hmem'
      exact absurd (hmem.trans hmem'.symm) hne
    · rfl

theorem cellDigit_eq_error_iff :
    cellDigit s e.toMap row col = .error fault ↔ CellFault e s row col fault :=
  ⟨cellFault_of_cellDigit, CellFault.cellDigit_eq⟩

theorem cellDigit_congr
    (h : ∀ num ∈ s.numbers, (Places e' ⟨row, col, num⟩ ↔ Places e ⟨row, col, num⟩)) :
    cellDigit s e'.toMap row col = cellDigit s e.toMap row col := by
  have hplaced : placedDigits s e'.toMap row col = placedDigits s e.toMap row col := by
    refine List.filter_congr fun num hnum => ?_
    rw [Bool.eq_iff_iff, getD_toMap_var, getD_toMap_var]
    exact h num hnum
  rw [cellDigit, hplaced, cellDigit]

/-! ### Boards -/

namespace Puzzle

theorem exists_decode_eq_ok_iff : (∃ g, p.decode e = .ok g) ↔
    ∀ row ∈ p.size.numbers, ∀ col ∈ p.size.numbers, HasOneDigit e p.size row col := by
  simp only [decode_eq_bind, bind_eq_ok_iff, ← exists_cellDigit_eq_ok_iff,
    ← exists_mapM_eq_ok_iff]
  constructor
  · rintro ⟨_, rows, hrows, _⟩
    exact ⟨rows, hrows⟩
  · rintro ⟨rows, hrows⟩
    exact ⟨_, rows, hrows, rfl⟩

/-- A grid has the digits that are placed. -/
theorem exists_digits_of_decode (h : p.decode e = .ok g) :
    ∃ d, IsTable p.size d ∧ g = ofDigits p.size d ∧
      ∀ row ∈ p.size.numbers, ∀ col ∈ p.size.numbers, Places e ⟨row, col, d row col⟩ := by
  have hone := exists_decode_eq_ok_iff.1 ⟨g, h⟩
  simp only [← exists_cellDigit_eq_ok_iff] at hone
  choose! d hd using hone
  have hg : g = ofDigits p.size d := Except.ok.inj (h.symm.trans (decode_of_cellDigit hd))
  refine ⟨d, fun row hrow col hcol => ?_, hg, fun row hrow col hcol => ?_⟩
  · exact (cellDigit_eq_ok_iff.1 (hd row hrow col hcol)).1.1
  · exact (cellDigit_eq_ok_iff.1 (hd row hrow col hcol)).1.2

theorem decode_eq_error_iff : p.decode e = .error fault ↔
    ∃ row ∈ p.size.numbers, ∃ col ∈ p.size.numbers, CellFault e p.size row col fault ∧
      ∀ row' ∈ p.size.numbers, ∀ col' ∈ p.size.numbers, row' < row ∨ row' = row ∧ col' < col →
        HasOneDigit e p.size row' col' := by
  -- Numbers are in increasing order, for the rows and for the columns of each row.
  simp only [decode_eq_bind, bind_eq_error_iff, reduceCtorEq, and_false, exists_false, or_false,
    mapM_eq_error_iff_of_pairwise p.size.pairwise_numbers, exists_mapM_eq_ok_iff,
    cellDigit_eq_error_iff, exists_cellDigit_eq_ok_iff]
  constructor
  · rintro ⟨row, hrow, ⟨col, hcol, hfault, hleft⟩, habove⟩
    refine ⟨row, hrow, col, hcol, hfault, ?_⟩
    rintro row' hrow' col' hcol' (hlt | ⟨rfl, hlt⟩)
    · exact habove row' hrow' hlt col' hcol'
    · exact hleft col' hcol' hlt
  · rintro ⟨row, hrow, col, hcol, hfault, hbefore⟩
    refine ⟨row, hrow, ⟨col, hcol, hfault, fun col' hcol' hlt => ?_⟩,
      fun row' hrow' hlt col' hcol' => ?_⟩
    · exact hbefore row hrow col' hcol' (.inr ⟨rfl, hlt⟩)
    · exact hbefore row' hrow' col' hcol' (.inl hlt)

theorem decode_congr (hsize : p'.size = p.size)
    (h : ∀ q : Placement, q.OnBoard p.size → (Places e' q ↔ Places e q)) :
    p'.decode e' = p.decode e := by
  have hrows : (p.size.numbers.mapM fun row =>
        p.size.numbers.mapM (cellDigit p.size e'.toMap row)) =
      p.size.numbers.mapM fun row => p.size.numbers.mapM (cellDigit p.size e.toMap row) :=
    mapM_congr fun row hrow => mapM_congr fun col hcol =>
      cellDigit_congr fun num hnum => h ⟨row, col, num⟩ ⟨hrow, hcol, hnum⟩
  rw [decode_eq_bind, decode_eq_bind, hsize, hrows]

/-- Decoding gives a grid exactly if in every cell one digit is placed. The grid
    has these digits, and it is a complete one that passes the check of its
    board. Otherwise the first cell in reading order in which no digit or more
    than one is placed is at fault. A binding places a digit in one cell at most,
    and all that matters are the digits that are placed on the board. -/
theorem decode_iff_one_digit_per_cell (p : Puzzle) (e : Environment) :
    ((∃ g, p.decode e = .ok g) ↔
      ∀ row ∈ p.size.numbers, ∀ col ∈ p.size.numbers, HasOneDigit e p.size row col) ∧
    (∀ g, p.decode e = .ok g → g.size = p.size ∧ g.isComplete = true ∧ ofBoard g.board = .ok g ∧
      ∀ row ∈ p.size.numbers, ∀ col ∈ p.size.numbers, ∃ num ∈ p.size.numbers,
        Places e ⟨row, col, num⟩ ∧ g.board.get (row - 1) (col - 1) = .ok num) ∧
    (∀ fault, p.decode e = .error fault ↔
      ∃ row ∈ p.size.numbers, ∃ col ∈ p.size.numbers, CellFault e p.size row col fault ∧
        ∀ row' ∈ p.size.numbers, ∀ col' ∈ p.size.numbers, row' < row ∨ row' = row ∧ col' < col →
          HasOneDigit e p.size row' col') ∧
    (∀ b ∈ e.toList, ∀ q q' : Placement, q.var = b.1 → q'.var = b.1 → q = q') ∧
    ∀ (p' : Puzzle) (e' : Environment), p'.size = p.size →
      (∀ q : Placement, q.OnBoard p.size → (Places e' q ↔ Places e q)) →
        p'.decode e' = p.decode e := by
  refine ⟨exists_decode_eq_ok_iff, fun g h => ?_, fun _ => decode_eq_error_iff,
    fun b _ q q' hq hq' => ?_, fun p' e' => decode_congr⟩
  · obtain ⟨d, htable, rfl, hplaced⟩ := exists_digits_of_decode h
    refine ⟨rfl, htable.isComplete, htable.accepted, fun row hrow col hcol => ?_⟩
    exact ⟨d row col, htable row hrow col hcol, hplaced row hrow col hcol, get_ofDigits hrow hcol⟩
  · exact Placement.var_inj.1 (hq.trans hq'.symm)

theorem decode_iff_one_digit_per_cell_sampleFour :
    decode ⟨.four, sampleFour⟩ .empty = .error (.emptyCell 1 1) ∧
    decode ⟨.four, sampleFour⟩ (solvedFour.modelOf []) = .ok solvedFour ∧
    HasOneDigit (solvedFour.modelOf []) .four 2 3 ∧ ofBoard solvedFour.board = .ok solvedFour ∧
    decode solvedFour (solvedFour.modelOf [⟨0, 7, 9⟩]) = .ok solvedFour := by
  have hsolution : IsSolution ⟨.four, sampleFour⟩ solvedFour := ⟨rfl, rfl, by cbv, by decide⟩
  have hdecode : decode ⟨.four, sampleFour⟩ (solvedFour.modelOf []) = .ok solvedFour :=
    hsolution.decode_eq hsolution.accepted.describedBy_modelOf
  obtain ⟨_, _, hfault, _⟩ := decode_iff_one_digit_per_cell ⟨.four, sampleFour⟩ .empty
  obtain ⟨hiff, hok, _, _, hsame⟩ :=
    decode_iff_one_digit_per_cell ⟨.four, sampleFour⟩ (solvedFour.modelOf [])
  refine ⟨(hfault _).2 ⟨1, by decide, 1, by decide, .empty fun _ _ => List.not_mem_nil, ?_⟩,
    hdecode, hiff.1 ⟨_, hdecode⟩ 2 (by decide) 3 (by decide), (hok _ hdecode).2.2.1, ?_⟩
  · intro row hrow col hcol hbefore
    rw [Size.mem_numbers] at hrow hcol
    omega
  · -- The further placement does not lie on the board.
    refine (hsame solvedFour (solvedFour.modelOf [⟨0, 7, 9⟩]) rfl fun q hq => ?_).trans hdecode
    have hboard : q.OnBoard solvedFour.size := hq
    rw [Places, Places, ← Environment.get?_eq_some_iff, ← Environment.get?_eq_some_iff,
      get?_modelOf (.inl hboard), get?_modelOf (.inl hboard)]

end Puzzle

end GridSat.Sudoku
