import Mathlib.Tactic.Ring
import GridSat.Proofs.Sudoku.Export

/-!
# Solved grids are confirmed by propagation

A model that the search finds for a puzzle binds the placements on the board and
nothing else, so it has as many bindings as there are placements
(`Puzzle.Accepted.length_of_solve`). For a solved grid there is no decision to
make, and then the number of bindings is also that of the forced literals and
of the levels: nothing is ever tried, and nothing has to be taken back.
-/

namespace GridSat.Sudoku.Puzzle

variable {p g : Puzzle} {e : Environment}

/-- Every placement on the board is bound by a model. -/
theorem Accepted.boardPlacements_subset (hp : p.Accepted) (h : p.toFormula.isSatisfiedBy e = true) :
    (boardPlacements p.size).map Placement.var ⊆ e.toList.map Prod.fst := by
  obtain ⟨_, s, hs, hdescribed⟩ := hp.isSatisfiedBy_iff_exists_solution.1 h
  refine List.forall_mem_map.2 fun q hq => ?_
  have hboard : q.OnBoard s.size := hs.size_eq ▸ mem_boardPlacements.1 hq
  obtain ⟨hrow, hcol, hnum⟩ := hboard
  obtain ⟨digit, _, hvalue⟩ := hdescribed _ hrow _ hcol _ hnum
  exact List.mem_map_of_mem (Environment.mem_toList_of_get? hvalue)

theorem boardPlacements_eq_map_product (s : Size) : boardPlacements s =
    (s.numbers ×ˢ s.numbers ×ˢ s.numbers).map fun (row, col, num) => ⟨row, col, num⟩ := by
  simp [boardPlacements, SProd.sprod, List.product, List.map_flatMap, Function.comp_def]

theorem nodup_boardPlacements (s : Size) : (boardPlacements s).Nodup := by
  rw [boardPlacements_eq_map_product]
  refine (s.nodup_numbers.product (s.nodup_numbers.product s.nodup_numbers)).map ?_
  rintro ⟨row, col, num⟩ ⟨row', col', num'⟩ h
  obtain ⟨rfl, rfl, rfl⟩ := Placement.mk.inj h
  rfl

/-- A model that is found binds the placements on the board, each once. -/
theorem Accepted.length_of_solve (hp : p.Accepted) (h : p.toFormula.solve = some e) :
    e.length = p.size.side ^ 3 := by
  obtain ⟨hsat, hmem⟩ := Formula.isSatisfiedBy_of_solve h
  have hnodup : ((boardPlacements p.size).map Placement.var).Nodup :=
    (nodup_boardPlacements _).map fun _ _ h => Placement.var_inj.1 h
  have hlength : (e.toList.map Prod.fst).length = e.length := by
    rw [List.length_map, Environment.length_toList]
  have hboard : ((boardPlacements p.size).map Placement.var).length = p.size.side ^ 3 := by
    rw [List.length_map, length_boardPlacements]
    ring
  rw [← hlength]
  refine Nat.le_antisymm ?_ ?_
  · calc (e.toList.map Prod.fst).length
      _ ≤ p.toFormula.vars.length :=
        (List.subperm_of_subset e.nodup (List.forall_mem_map.2 hmem)).length_le
      _ ≤ p.size.side * (p.size.side * p.size.side) := hp.length_vars_le
      _ = p.size.side ^ 3 := by ring
  · rw [← hboard]
    exact (List.subperm_of_subset hnodup (hp.boardPlacements_subset hsat)).length_le

/-- The search on a solved grid comes to a model by forced literals alone, one for
    each placement on the board and one on each level, with no decision and no
    conflict. It binds all placements on the board, and is decoded to the grid. -/
theorem confirmed_by_propagation (hg : g.Accepted) (hsolved : g.isSolved = .ok true) :
    ∃ e, g.toFormula.solve = some e ∧ g.decode e = .ok g ∧ e.length = g.size.side ^ 3 ∧
      g.toFormula.search.stats.decisions = 0 ∧ g.toFormula.search.stats.conflicts = 0 ∧
      g.toFormula.search.stats.propagations = g.size.side ^ 3 ∧
      g.toFormula.search.stats.maxDepth = g.size.side ^ 3 := by
  have hself := hg.isSolution_self hsolved
  obtain ⟨e, h⟩ := Formula.exists_solve_of_satisfiable (hg.satisfiable_iff.2 ⟨g, hself⟩)
  obtain ⟨s, hdecode, hs⟩ := hg.exists_solution_of_solve h
  obtain rfl : g = s := hs.eq_of_isSolved hg hsolved
  have hzero := hg.decisions_eq_zero_of_isSolved hsolved
  obtain ⟨hconflicts, hpropagations, hdepth⟩ := Formula.counters_of_decisions_eq_zero h hzero
  have hlength := hg.length_of_solve h
  rw [hlength] at hpropagations hdepth
  exact ⟨e, h, hdecode, hlength, hzero, hconflicts, hpropagations, hdepth⟩

theorem confirmed_by_propagation_solvedFour :
    solvedFour.Accepted ∧ solvedFour.isSolved = .ok true ∧
      ∃ e, solvedFour.toFormula.solve = some e ∧ solvedFour.decode e = .ok solvedFour ∧
        e.length = 64 ∧ solvedFour.toFormula.search.stats = ⟨0, 64, 0, 64⟩ := by
  have hg : solvedFour.Accepted := rfl
  have hsolved : solvedFour.isSolved = .ok true := by cbv
  obtain ⟨e, h, hdecode, hlength, hdecisions, hconflicts, hpropagations, hdepth⟩ :=
    confirmed_by_propagation hg hsolved
  refine ⟨hg, hsolved, e, h, hdecode, hlength, ?_⟩
  generalize solvedFour.toFormula.search.stats = stats at *
  obtain ⟨decisions, propagations, conflicts, maxDepth⟩ := stats
  subst hdecisions hconflicts hpropagations hdepth
  rfl

end GridSat.Sudoku.Puzzle
