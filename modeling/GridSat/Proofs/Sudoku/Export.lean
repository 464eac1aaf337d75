import GridSat.Proofs.Dimacs.Comments
import GridSat.Proofs.Sudoku.Propagation

/-!
# Puzzles in DIMACS

The formula of a puzzle has a variable for each placement on the board. These are
few enough to be numbered (`Puzzle.Accepted.length_vars_le`), and there is no line
feed in the name of a placement. So the text of the formula can be solved in place
of the puzzle: what is read from it has a model exactly if the puzzle has a solution,
and every model, translated by the comments, is decoded to a solution.
-/

namespace GridSat.Sudoku

namespace Puzzle

variable {p : Puzzle}

theorem length_boardPlacements (s : Size) :
    (boardPlacements s).length = s.side * (s.side * s.side) := by
  simp [boardPlacements, Size.numbers]

theorem Accepted.length_vars_le (hp : p.Accepted) :
    p.toFormula.vars.length ≤ p.size.side * (p.size.side * p.size.side) := by
  have hsubset : p.toFormula.vars ⊆ (boardPlacements p.size).map Placement.var := by
    intro x hx
    obtain ⟨q, hq, rfl⟩ := hp.exists_onBoard_of_mem_vars hx
    exact List.mem_map_of_mem (mem_boardPlacements.2 hq)
  rw [← length_boardPlacements, ← List.length_map (f := Placement.var)]
  exact (p.toFormula.nodup_vars.subperm hsubset).length_le

theorem Accepted.length_vars_lt (hp : p.Accepted) : p.toFormula.vars.length < Text.bound31 := by
  refine Nat.lt_of_le_of_lt hp.length_vars_le ?_
  cases p.size <;> decide

theorem Accepted.lineFeed_notMem (hp : p.Accepted) :
    ∀ x ∈ p.toFormula.vars, '\n' ∉ x.name.toList := by
  intro x hx
  obtain ⟨q, _, rfl⟩ := hp.exists_onBoard_of_mem_vars hx
  exact q.lineFeed_notMem_name

theorem Accepted.readText_toFormula (hp : p.Accepted) :
    Dimacs.readText (Dimacs.write p.toFormula) = .ok (Dimacs.renumbered p.toFormula) :=
  Dimacs.readText_write_of_quiet hp.length_vars_lt fun x hx =>
    Dimacs.quiet_of_lineFeed_notMem (hp.lineFeed_notMem x hx)

/-- The text of a puzzle can be read, and what is read has a model exactly if the
    puzzle has a solution. Every model can be translated by the comments of the
    text, and however that is done, it makes the formula of the puzzle true and is
    decoded to a solution. -/
theorem solved_by_comments (hp : p.Accepted) :
    ∃ g, Dimacs.readText (Dimacs.write p.toFormula) = .ok g ∧
      (∀ e, g.isSatisfiedBy e = true →
        (∃ e', Dimacs.Translates (Dimacs.write p.toFormula) e e') ∧
        ∀ e', Dimacs.Translates (Dimacs.write p.toFormula) e e' →
          p.toFormula.isSatisfiedBy e' = true ∧
          ∃ s, p.decode e' = .ok s ∧ s.isSolved = .ok true ∧ p.agreesWith s = true) ∧
      (g.Satisfiable ↔ ∃ s : Puzzle, s.Accepted ∧ s.size = p.size ∧ s.isSolved = .ok true ∧
        p.agreesWith s = true) := by
  refine ⟨_, hp.readText_toFormula, fun e he => ⟨?_, fun e' htranslates => ?_⟩, ?_⟩
  · exact ⟨_, Dimacs.translates_translation hp.length_vars_lt hp.lineFeed_notMem e⟩
  · have hsat : p.toFormula.isSatisfiedBy e' = true :=
      (htranslates.isSatisfiedBy_iff hp.length_vars_lt hp.lineFeed_notMem).1 he
    obtain ⟨s, hdecode, hs⟩ := hp.exists_solution_of_isSatisfiedBy hsat
    exact ⟨hsat, s, hdecode, hs.solved, hs.agrees⟩
  · rw [Dimacs.satisfiable_renumbered_iff, hp.satisfiable_iff]
    constructor
    · rintro ⟨s, hs⟩
      exact ⟨s, hs.accepted, hs.size_eq, hs.solved, hs.agrees⟩
    · rintro ⟨s, haccepted, hsize, hsolved, hagrees⟩
      exact ⟨s, haccepted, hsize, hsolved, hagrees⟩

theorem solved_by_comments_sampleFour :
    Accepted ⟨.four, sampleFour⟩ ∧ ∃ g e e' s,
      Dimacs.readText (Dimacs.write (toFormula ⟨.four, sampleFour⟩)) = .ok g ∧
      g.isSatisfiedBy e = true ∧
      Dimacs.Translates (Dimacs.write (toFormula ⟨.four, sampleFour⟩)) e e' ∧
      decode ⟨.four, sampleFour⟩ e' = .ok s ∧ s.isSolved = .ok true := by
  have hp : Accepted ⟨.four, sampleFour⟩ := rfl
  have hsolved : solvedFour.isSolved = .ok true := by cbv
  have hagrees : agreesWith ⟨.four, sampleFour⟩ solvedFour = true := by decide
  obtain ⟨g, hread, hmodels, hsat⟩ := solved_by_comments hp
  obtain ⟨e, he⟩ := Formula.exists_solve_of_satisfiable
    (hsat.2 ⟨solvedFour, rfl, rfl, hsolved, hagrees⟩)
  have hmodel := (Formula.isSatisfiedBy_of_solve he).1
  obtain ⟨⟨e', htranslates⟩, hdecodes⟩ := hmodels e hmodel
  obtain ⟨_, s, hdecode, hs, _⟩ := hdecodes e' htranslates
  exact ⟨hp, g, e, e', s, hread, hmodel, htranslates, hdecode, hs⟩

end Puzzle

end GridSat.Sudoku
