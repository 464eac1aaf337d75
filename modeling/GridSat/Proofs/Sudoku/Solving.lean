import GridSat.Proofs.Search.Satisfiability
import GridSat.Proofs.Sudoku.Models

/-!
# Solving puzzles

From a puzzle to its formula, through the search, and back to a grid. The
formula is satisfiable exactly if the puzzle has a solution, since the models
of the one are the solutions of the other, and the search decides which is the
case. If it finds an environment, the grid it is decoded to is a solution.
-/

namespace GridSat.Sudoku.Puzzle

variable {p g : Puzzle} {e : Environment}

theorem Accepted.exists_solution_of_isSatisfiedBy (hp : p.Accepted)
    (h : p.toFormula.isSatisfiedBy e = true) : ∃ g, p.decode e = .ok g ∧ p.IsSolution g := by
  obtain ⟨_, g, hg, hdescribed⟩ := hp.isSatisfiedBy_iff_exists_solution.1 h
  exact ⟨g, hg.decode_eq hdescribed, hg⟩

theorem Accepted.exists_solution_of_solve (hp : p.Accepted) (h : p.toFormula.solve = some e) :
    ∃ g, p.decode e = .ok g ∧ p.IsSolution g :=
  hp.exists_solution_of_isSatisfiedBy (Formula.isSatisfiedBy_of_solve h).1

theorem Accepted.satisfiable_iff (hp : p.Accepted) :
    p.toFormula.Satisfiable ↔ ∃ g, p.IsSolution g := by
  constructor
  · intro hsat
    -- The search finds an environment, which describes a solution.
    obtain ⟨e, h⟩ := Formula.exists_solve_of_satisfiable hsat
    obtain ⟨g, _, hg⟩ := hp.exists_solution_of_solve h
    exact ⟨g, hg⟩
  · rintro ⟨g, hg⟩
    exact Formula.satisfiable_of_isSatisfiedBy (hg.isSatisfiedBy_toFormula hp)

theorem Accepted.isSolution_self (hp : p.Accepted) (h : p.isSolved = .ok true) :
    p.IsSolution p where
  accepted := hp
  size_eq := rfl
  solved := h
  agrees := hp.agreesWith_self

/-- A solution is a grid of the size of the puzzle that follows the rules and
    keeps the digits of the puzzle. -/
theorem isSolution_iff_followsRules : p.IsSolution g ↔
    g.Accepted ∧ g.size = p.size ∧ g.FollowsRules ∧ p.agreesWith g = true := by
  constructor
  · rintro ⟨hg, hsize, hsolved, hagrees⟩
    exact ⟨hg, hsize, hg.isSolved_iff_followsRules.1 hsolved, hagrees⟩
  · rintro ⟨hg, hsize, hrules, hagrees⟩
    exact ⟨hg, hsize, hg.isSolved_iff_followsRules.2 hrules, hagrees⟩

/-- A solved grid is the only solution of itself. -/
theorem IsSolution.eq_of_isSolved (h : p.IsSolution g) (hp : p.Accepted)
    (hsolved : p.isSolved = .ok true) : p = g :=
  eq_of_agreesWith_of_isComplete hp h.accepted (isComplete_of_isSolved hsolved) h.agrees

/-- Solving the formula of a puzzle fails, by reporting that there is no model,
    exactly if no grid of its size follows the rules and keeps its digits.
    Otherwise the environment that is found is decoded to such a grid, and to
    the puzzle itself if that is solved already. -/
theorem solve_toFormula_eq_none_iff (hp : p.Accepted) :
    (p.toFormula.solve = none ↔ ¬∃ g : Puzzle, g.Accepted ∧ g.size = p.size ∧ g.FollowsRules ∧
      p.agreesWith g = true) ∧
    (p.toFormula.solve = none ↔ p.toFormula.search.verdict = .unsatisfiable) ∧
    (∀ e, p.toFormula.solve = some e →
      ∃ g, p.decode e = .ok g ∧ g.isSolved = .ok true ∧ p.agreesWith g = true) ∧
    (p.isSolved = .ok true → ∃ e, p.toFormula.solve = some e ∧ p.decode e = .ok p) := by
  refine ⟨?_, ?_, fun e h => ?_, fun hsolved => ?_⟩
  · rw [Formula.solve_eq_none_iff, hp.satisfiable_iff]
    simp only [isSolution_iff_followsRules]
  · rw [Formula.solve_eq_none_iff, Formula.verdict_eq_unsatisfiable_iff]
  · obtain ⟨g, hdecode, hg⟩ := hp.exists_solution_of_solve h
    exact ⟨g, hdecode, hg.solved, hg.agrees⟩
  · have hsat := hp.satisfiable_iff.2 ⟨p, hp.isSolution_self hsolved⟩
    obtain ⟨e, h⟩ := Formula.exists_solve_of_satisfiable hsat
    obtain ⟨g, hdecode, hg⟩ := hp.exists_solution_of_solve h
    obtain rfl : p = g := hg.eq_of_isSolved hp hsolved
    exact ⟨e, h, hdecode⟩

theorem solve_toFormula_eq_none_iff_sampleFour :
    Accepted ⟨.four, sampleFour⟩ ∧ ∃ e g, (toFormula ⟨.four, sampleFour⟩).solve = some e ∧
      decode ⟨.four, sampleFour⟩ e = .ok g ∧ g.isSolved = .ok true ∧
        agreesWith ⟨.four, sampleFour⟩ g = true := by
  have hp : Accepted ⟨.four, sampleFour⟩ := rfl
  have hsolution : IsSolution ⟨.four, sampleFour⟩ solvedFour := ⟨rfl, rfl, by cbv, by decide⟩
  obtain ⟨hnone, _, hsome, _⟩ := solve_toFormula_eq_none_iff hp
  obtain ⟨e, he⟩ := Option.ne_none_iff_exists'.1 fun h =>
    hnone.1 h ⟨solvedFour, isSolution_iff_followsRules.1 hsolution⟩
  obtain ⟨g, hg⟩ := hsome e he
  exact ⟨hp, e, g, he, hg⟩

end GridSat.Sudoku.Puzzle
