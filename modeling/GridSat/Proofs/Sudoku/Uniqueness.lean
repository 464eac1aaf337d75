import GridSat.Proofs.Sudoku.Propagation

/-!
# Puzzles with one solution

The counters of a search can tell that there is no other model: after as many
conflicts as decisions, every model has the bindings of the one that was found.
The formula of a puzzle leaves no placement open, so the model that was found
describes every solution of the puzzle, and that is the grid it is decoded to
(`Puzzle.Accepted.decode_eq_of_extends`).
-/

namespace GridSat.Sudoku.Puzzle

variable {p g g' : Puzzle} {e e' : Environment}

/-- If a model agrees with an environment that binds every placement on the board,
    the environment describes the grid of the model. -/
theorem DescribedBy.of_extends (h : g.DescribedBy e) (h' : g'.DescribedBy e')
    (hsize : g.size = g'.size) (hextends : e.Extends e'.valuation) : g'.DescribedBy e := by
  intro row hrow col hcol num hnum
  obtain ⟨digit', hget', hvalue'⟩ := h' row hrow col hcol num hnum
  rw [← hsize] at hrow hcol hnum
  obtain ⟨digit, _, hvalue⟩ := h row hrow col hcol num hnum
  have hsame := Environment.extends_iff.1 hextends _ _ hvalue
  rw [Environment.valuation, hvalue', Option.getD_some] at hsame
  exact ⟨digit', hget', hsame ▸ hvalue⟩

/-- If all models of the formula have the bindings of the one that was found, all
    solutions of the puzzle are what it is decoded to. -/
theorem Accepted.decode_eq_of_extends (hp : p.Accepted) (h : p.toFormula.solve = some e)
    (hall : ∀ v : Valuation, p.toFormula.holds v = true → e.Extends v) (hg : p.IsSolution g) :
    p.decode e = .ok g := by
  have hsat := (Formula.isSatisfiedBy_of_solve h).1
  obtain ⟨_, found, hfound, hdescribed⟩ := hp.isSatisfiedBy_iff_exists_solution.1 hsat
  have hextends := hall _ (hg.holds_toFormula hp)
  have hsize := hfound.size_eq.trans hg.size_eq.symm
  exact hg.decode_eq (hdescribed.of_extends hg.accepted.describedBy_modelOf hsize hextends)

/-- If a search finds a model after as many conflicts as decisions, as it does if
    there were no decisions, then every valuation that makes the formula true
    agrees with all bindings of the model. If the formula is that of a puzzle,
    the grid that the model is decoded to is the only solved one that the puzzle
    agrees with. -/
theorem unique_of_conflicts_eq_decisions :
    (∀ (f : Formula) (e : Environment), f.solve = some e →
      (f.search.stats.decisions = 0 → f.search.stats.conflicts = f.search.stats.decisions) ∧
      (f.search.stats.conflicts = f.search.stats.decisions →
        ∀ v : Valuation, f.holds v = true → ∀ x b, e.get? x = some b → v x = b)) ∧
    ∀ (p : Puzzle) (e : Environment), p.Accepted → p.toFormula.solve = some e →
      p.toFormula.search.stats.conflicts = p.toFormula.search.stats.decisions →
        ∃ g, p.decode e = .ok g ∧ ∀ g' : Puzzle, g'.Accepted →
          (g'.isSolved = .ok true ∧ p.agreesWith g' = true ↔ g' = g) := by
  refine ⟨fun f e h => ⟨fun hzero => ?_, fun hstats v hv => ?_⟩, fun p e hp h hstats => ?_⟩
  · have hle := Formula.conflicts_le_decisions_of_solve h
    omega
  · exact Environment.extends_iff.1 (Formula.extends_of_conflicts_eq_decisions h hstats hv)
  · have hall : ∀ v : Valuation, p.toFormula.holds v = true → e.Extends v := fun v =>
      Formula.extends_of_conflicts_eq_decisions h hstats
    obtain ⟨g, hdecode, hg⟩ := hp.exists_solution_of_solve h
    refine ⟨g, hdecode, fun g' hg' => ⟨?_, ?_⟩⟩
    · rintro ⟨hsolved, hagrees⟩
      have hsize := ((agreesWith_iff hp hg').1 hagrees).1.symm
      have hdecode' := hp.decode_eq_of_extends h hall ⟨hg', hsize, hsolved, hagrees⟩
      exact Except.ok.inj (hdecode'.symm.trans hdecode)
    · rintro rfl
      exact ⟨hg.solved, hg.agrees⟩

/-- The formula with the clauses `a | b` and `~a | ~a`: its one decision, for `a`,
    comes to a conflict. And a solved grid, for which there are no decisions. -/
theorem unique_of_conflicts_eq_decisions_solvedFour :
    (∃ f e, Formula.solve f = some e ∧ f.search.stats.conflicts = 1 ∧
      f.search.stats.decisions = 1 ∧ ∀ v : Valuation, f.holds v = true →
        v ⟨"a"⟩ = false ∧ v ⟨"b"⟩ = true) ∧
    ∃ e, solvedFour.toFormula.solve = some e ∧ solvedFour.decode e = .ok solvedFour ∧
      ∀ g' : Puzzle, g'.Accepted →
        (g'.isSolved = .ok true ∧ solvedFour.agreesWith g' = true ↔ g' = solvedFour) := by
  obtain ⟨hformula, hpuzzle⟩ := unique_of_conflicts_eq_decisions
  constructor
  · let a := Literal.named "a"
    let f := Formula.ofList [.ofList [a, .named "b"], .ofList [a.negated, a.negated]]
    have hsearch : (f.solve.map Environment.toList, f.search.stats) =
        (some [(⟨"b"⟩, true), (⟨"a"⟩, false)], ⟨1, 1, 1, 2⟩) := by cbv
    obtain ⟨hmodel, hstats⟩ := Prod.mk.inj hsearch
    obtain ⟨e, hsolve, hlist⟩ := Option.map_eq_some_iff.1 hmodel
    refine ⟨f, e, hsolve, congrArg Stats.conflicts hstats, congrArg Stats.decisions hstats,
      fun v hv => ?_⟩
    have hvalue := (hformula f e hsolve).2 (by rw [hstats]) v hv
    have hbound : ∀ b ∈ e.toList, v b.1 = b.2 := fun b hb =>
      hvalue b.1 b.2 (Environment.get?_eq_some_iff.2 hb)
    rw [hlist] at hbound
    exact ⟨hbound (⟨"a"⟩, false) (by decide), hbound (⟨"b"⟩, true) (by decide)⟩
  · have hp : solvedFour.Accepted := rfl
    have hsolved : solvedFour.isSolved = .ok true := by cbv
    have hself := hp.isSolution_self hsolved
    obtain ⟨e, he⟩ := Formula.exists_solve_of_satisfiable (hp.satisfiable_iff.2 ⟨_, hself⟩)
    have hstats := (hformula _ e he).1 (hp.decisions_eq_zero_of_isSolved hsolved)
    obtain ⟨g, hdecode, hunique⟩ := hpuzzle solvedFour e hp he hstats
    obtain rfl := (hunique solvedFour hp).1 ⟨hsolved, hself.agrees⟩
    exact ⟨e, he, hdecode, hunique⟩

end GridSat.Sudoku.Puzzle
