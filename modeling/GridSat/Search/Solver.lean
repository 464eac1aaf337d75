import GridSat.Search.Machine

/-!
# Solving a formula

`Formula.search` runs the search machine on a formula, and `Formula.solve`
keeps the environment it found. Variables that the search never had to bind
stay unbound: any value will do for them.

A `Solver` is a formula together with the counters of the latest search.
-/

namespace GridSat

namespace Formula

/-- Searches for an environment that makes every clause true. -/
def search (f : Formula) : Outcome :=
  (Machine.start f).run

/-- An environment that makes every clause true, if the search finds one. -/
def solve (f : Formula) : Option Environment :=
  f.search.verdict.model?

end Formula

/-- A formula to solve, with the counters of the latest search. -/
structure Solver where
  /-- The formula. -/
  formula : Formula
  /-- The counters, all zero before the first search. -/
  stats : Stats := {}

namespace Solver

/-- Searches, and keeps the counters. -/
def search (s : Solver) : Outcome × Solver :=
  let outcome := s.formula.search
  (outcome, { s with stats := outcome.stats })

/-- Puts another formula in the place of the solver's; the counters stay. -/
def setFormula (s : Solver) (f : Formula) : Solver :=
  { s with formula := f }

end Solver

end GridSat
