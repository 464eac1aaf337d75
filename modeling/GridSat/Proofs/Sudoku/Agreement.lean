import GridSat.Proofs.Sudoku.Solving

/-!
# More clues, fewer solutions

A puzzle agrees with another one of its size if its clues are clues of the other
one as well (`agreesWith_iff_clues_subset`). So agreement is a partial order on
the puzzles that pass the check of their boards, the puzzle with fewer clues being
below.

The formula of a puzzle asks for its clues and for the rules of its size. Up the
order the clues become more and the rules stay, so there are fewer models
(`isSatisfiedBy_toFormula_of_agreesWith`) and fewer solutions
(`IsSolution.of_agreesWith`). In particular no solution comes back: above a puzzle
without one there is none, and below a solved grid there always is one.
-/

namespace GridSat.Sudoku.Puzzle

variable {p q r g : Puzzle} {e : Environment} {extra : List Placement}

/-! ### Agreement as an order -/

theorem agreesWith_iff_clues_subset (hp : p.Accepted) (hq : q.Accepted) :
    p.agreesWith q = true ↔ p.size = q.size ∧ p.clues ⊆ q.clues := by
  rw [agreesWith_iff hp hq]
  refine and_congr_right fun hsize => ?_
  constructor
  · rintro h ⟨row, col, num⟩ hc
    rw [hp.mem_clues_iff] at hc
    rw [hq.mem_clues_iff, ← hsize]
    obtain ⟨hrow, hcol, hne, hnum⟩ := hc
    have hsame := (h row hrow col hcol).resolve_left hne
    exact ⟨hrow, hcol, hsame ▸ hne, hsame ▸ hnum⟩
  · intro h row hrow col hcol
    by_cases hzero : p.digit row col = 0
    · exact .inl hzero
    · have hmem : (⟨row, col, p.digit row col⟩ : Placement) ∈ q.clues :=
        h (hp.mem_clues_iff.2 ⟨hrow, hcol, hzero, rfl⟩)
      exact .inr (hq.mem_clues_iff.1 hmem).2.2.2.symm

theorem agreesWith_trans (hp : p.Accepted) (hq : q.Accepted) (hr : r.Accepted)
    (hpq : p.agreesWith q = true) (hqr : q.agreesWith r = true) : p.agreesWith r = true := by
  rw [agreesWith_iff_clues_subset hp hq] at hpq
  rw [agreesWith_iff_clues_subset hq hr] at hqr
  exact (agreesWith_iff_clues_subset hp hr).2 ⟨hpq.1.trans hqr.1, List.Subset.trans hpq.2 hqr.2⟩

theorem eq_of_agreesWith_of_agreesWith (hp : p.Accepted) (hq : q.Accepted)
    (hpq : p.agreesWith q = true) (hqp : q.agreesWith p = true) : p = q := by
  obtain ⟨hsize, h⟩ := (agreesWith_iff hp hq).1 hpq
  obtain ⟨_, h'⟩ := (agreesWith_iff hq hp).1 hqp
  rw [← hsize] at h'
  refine hp.eq_of_digit_eq hq hsize fun row hrow col hcol => ?_
  -- A cell that is blank in one of the puzzles is blank in both.
  rcases h row hrow col hcol with hzero | heq
  · rcases h' row hrow col hcol with hzero' | heq
    · rw [hzero, hzero']
    · exact heq.symm
  · exact heq

/-! ### Models and solutions -/

theorem isSatisfiedBy_toFormulaWith_of_clues_subset (hsize : p.size = q.size)
    (hclues : p.clues ⊆ q.clues) (h : (q.toFormulaWith extra).isSatisfiedBy e = true) :
    (p.toFormulaWith extra).isSatisfiedBy e = true := by
  rw [isSatisfiedBy_toFormulaWith] at h ⊢
  obtain ⟨hq, hextra, hrules⟩ := h
  exact ⟨fun c hc => hq c (hclues hc), hextra, hsize ▸ hrules⟩

theorem isSatisfiedBy_toFormula_of_agreesWith (hp : p.Accepted) (hq : q.Accepted)
    (hagrees : p.agreesWith q = true) (h : q.toFormula.isSatisfiedBy e = true) :
    p.toFormula.isSatisfiedBy e = true := by
  obtain ⟨hsize, hclues⟩ := (agreesWith_iff_clues_subset hp hq).1 hagrees
  exact isSatisfiedBy_toFormulaWith_of_clues_subset hsize hclues h

theorem IsSolution.of_agreesWith (h : q.IsSolution g) (hp : p.Accepted) (hq : q.Accepted)
    (hagrees : p.agreesWith q = true) : p.IsSolution g where
  accepted := h.accepted
  size_eq := h.size_eq.trans ((agreesWith_iff hp hq).1 hagrees).1.symm
  solved := h.solved
  agrees := agreesWith_trans hp hq h.accepted hagrees h.agrees

theorem solve_eq_none_of_agreesWith (hp : p.Accepted) (hq : q.Accepted)
    (hagrees : p.agreesWith q = true) (h : p.toFormula.solve = none) :
    q.toFormula.solve = none := by
  rw [Formula.solve_eq_none_iff, hp.satisfiable_iff] at h
  rw [Formula.solve_eq_none_iff, hq.satisfiable_iff]
  rintro ⟨g, hg⟩
  exact h ⟨g, hg.of_agreesWith hp hq hagrees⟩

theorem exists_solve_of_agreesWith_of_isSolved (hp : p.Accepted) (hq : q.Accepted)
    (hagrees : p.agreesWith q = true) (hsolved : q.isSolved = .ok true) :
    ∃ e, p.toFormula.solve = some e := by
  have hsolution : p.IsSolution q := (hq.isSolution_self hsolved).of_agreesWith hp hq hagrees
  exact Formula.exists_solve_of_satisfiable (hp.satisfiable_iff.2 ⟨q, hsolution⟩)

/-- Agreement is a partial order on the puzzles that pass the check of their
    boards. If a puzzle agrees with another one, the models of the other one are
    models of it, and the solutions are solutions. So if the search finds nothing
    for the first puzzle it finds nothing for the other one, and if the other one
    is a solved grid it finds something for the first. -/
theorem adding_clues_removes_solutions :
    (∀ p : Puzzle, p.Accepted → p.agreesWith p = true) ∧
    (∀ p q r : Puzzle, p.Accepted → q.Accepted → r.Accepted →
      p.agreesWith q = true → q.agreesWith r = true → p.agreesWith r = true) ∧
    (∀ p q : Puzzle, p.Accepted → q.Accepted →
      p.agreesWith q = true → q.agreesWith p = true → p = q) ∧
    ∀ p q : Puzzle, p.Accepted → q.Accepted → p.agreesWith q = true →
      (∀ e, q.toFormula.isSatisfiedBy e = true → p.toFormula.isSatisfiedBy e = true) ∧
      (∀ g, q.IsSolution g → p.IsSolution g) ∧
      (p.toFormula.solve = none → q.toFormula.solve = none) ∧
      (q.isSolved = .ok true → ∃ e, p.toFormula.solve = some e) := by
  refine ⟨fun _ => Accepted.agreesWith_self, fun _ _ _ => agreesWith_trans,
    fun _ _ => eq_of_agreesWith_of_agreesWith, fun p q hp hq hagrees => ⟨?_, ?_, ?_, ?_⟩⟩
  · exact fun _ => isSatisfiedBy_toFormula_of_agreesWith hp hq hagrees
  · exact fun _ hg => hg.of_agreesWith hp hq hagrees
  · exact solve_eq_none_of_agreesWith hp hq hagrees
  · exact exists_solve_of_agreesWith_of_isSolved hp hq hagrees

theorem adding_clues_removes_solutions_sampleFour :
    agreesWith ⟨.four, sampleFour⟩ solvedFour = true ∧
      (toFormula ⟨.four, sampleFour⟩).isSatisfiedBy (solvedFour.modelOf []) = true ∧
      ∃ e, (toFormula ⟨.four, sampleFour⟩).solve = some e := by
  have hp : Accepted ⟨.four, sampleFour⟩ := rfl
  have hq : solvedFour.Accepted := rfl
  have hsolved : solvedFour.isSolved = .ok true := by cbv
  have hagrees : agreesWith ⟨.four, sampleFour⟩ solvedFour = true := by decide
  obtain ⟨hmodels, _, _, hfound⟩ := adding_clues_removes_solutions.2.2.2 _ _ hp hq hagrees
  have hmodel := (hq.isSolution_self hsolved).isSatisfiedBy_toFormula hq
  exact ⟨hagrees, hmodels _ hmodel, hfound hsolved⟩

end GridSat.Sudoku.Puzzle
