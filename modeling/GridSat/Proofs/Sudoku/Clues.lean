import GridSat.Proofs.Search.Priority
import GridSat.Proofs.Sudoku.Solving

/-!
# Clues come first

The formula of a puzzle has a unit clause for each clue, in front of the rules. The
search takes unit clauses in front before any other clause, so it binds the clues
first and in their order, whatever unit clauses come of them further behind. The
order of the clues is that of the board, read row by row
(`Puzzle.Accepted.clues_eq`), with further clues after them.
-/

namespace GridSat.Sudoku

theorem Placement.literal_injective : Function.Injective Placement.literal := fun _ _ h =>
  Placement.var_inj.1 (congrArg Literal.var h)

namespace Puzzle

variable {p : Puzzle} {extra : List Placement} {e : Environment}

/-- The clues are the digits of the board, in reading order. -/
theorem Accepted.clues_eq (hp : p.Accepted) :
    p.clues = p.size.cells.filterMap fun (row, col) =>
      if p.digit row col = 0 then none else some ⟨row, col, p.digit row col⟩ := by
  conv_lhs => rw [hp.eq_ofDigits, clues, rows_ofDigits]
  simp only [Size.zipIdx_map_numbers, List.flatMap_map, List.filterMap_map, Size.cells,
    List.filterMap_flatMap]
  rfl

/-- The unit clauses of the clues stand in front. -/
theorem toList_toFormulaWith (p : Puzzle) (extra : List Placement) :
    (p.toFormulaWith extra).toList =
      ((p.clues ++ extra).map Placement.literal).map .singleton ++ p.size.rules.reverse := by
  rw [toFormulaWith, Formula.toList_and, Formula.toList_ofList, toList_foldl_add,
    Formula.toList_empty, List.append_nil, List.map_map]
  rfl

/-- The bindings that the clues ask for are those of their variables, each once. -/
theorem map_binding_eraseDups (qs : List Placement) :
    (qs.map Placement.literal).eraseDups.map Literal.binding =
      (qs.map Placement.var).eraseDups.map fun x => (x, true) := by
  have hvar : Function.Injective Placement.var := fun _ _ h => Placement.var_inj.1 h
  rw [eraseDups_map Placement.literal_injective, eraseDups_map hvar, List.map_map, List.map_map]
  rfl

/-- A model that is found for a puzzle with further clues has bound the clues first:
    its oldest bindings, oldest first, are the variables of the digits of the board
    in reading order and then those of the further clues in their order, each once
    where it appears first, all of them to true. -/
theorem clues_are_bound_first (hp : p.Accepted) (extra : List Placement)
    (h : (p.toFormulaWith extra).solve = some e) :
    p.clues = (p.size.cells.filterMap fun (row, col) =>
      if p.digit row col = 0 then none else some ⟨row, col, p.digit row col⟩) ∧
    ∃ later, e.toList.reverse =
      ((p.clues ++ extra).map Placement.var).eraseDups.map (fun x => (x, true)) ++ later := by
  refine ⟨hp.clues_eq, ?_⟩
  obtain ⟨later, hlater⟩ := Formula.isPrefix_of_solve (toList_toFormulaWith p extra) h
  exact ⟨later, by rw [← hlater, map_binding_eraseDups]⟩

/-- The small sample with three further clues: a two next to the one in the first row,
    that one once more, and a placement outside the board. -/
theorem clues_are_bound_first_sampleFour :
    Accepted ⟨.four, sampleFour⟩ ∧ ∃ e later,
      (toFormulaWith ⟨.four, sampleFour⟩ [⟨1, 2, 2⟩, ⟨1, 1, 1⟩, ⟨0, 7, 9⟩]).solve = some e ∧
      e.toList.reverse =
        ["v1_1_1", "v1_4_4", "v2_2_4", "v2_3_1", "v3_2_1", "v3_3_4", "v4_1_4", "v4_4_1", "v1_2_2",
          "v0_7_9"].map (fun name => (⟨name⟩, true)) ++ later := by
  let extra : List Placement := [⟨1, 2, 2⟩, ⟨1, 1, 1⟩, ⟨0, 7, 9⟩]
  have hp : Accepted ⟨.four, sampleFour⟩ := rfl
  have hsolution : IsSolution ⟨.four, sampleFour⟩ solvedFour := ⟨rfl, rfl, by cbv, by decide⟩
  have hmodel : (toFormulaWith ⟨.four, sampleFour⟩ extra).isSatisfiedBy
      (solvedFour.modelOf extra) = true :=
    hsolution.isSatisfiedBy_modelOf hp (by decide)
  obtain ⟨e, he⟩ :=
    Formula.exists_solve_of_satisfiable (Formula.satisfiable_of_isSatisfiedBy hmodel)
  obtain ⟨_, later, hlater⟩ := clues_are_bound_first hp extra he
  have hvars : ((clues ⟨.four, sampleFour⟩ ++ extra).map Placement.var).eraseDups =
      ["v1_1_1", "v1_4_4", "v2_2_4", "v2_3_1", "v3_2_1", "v3_3_4", "v4_1_4", "v4_4_1", "v1_2_2",
        "v0_7_9"].map Variable.mk := by decide
  refine ⟨hp, e, later, he, ?_⟩
  rw [hlater, hvars, List.map_map]
  rfl

end Puzzle

end GridSat.Sudoku
