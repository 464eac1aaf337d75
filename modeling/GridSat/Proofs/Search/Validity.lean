import GridSat.Proofs.Logic.Connectives
import GridSat.Proofs.Search.Satisfiability

/-!
# Negation and validity

What makes the negation of a formula true makes a clause of the formula false, be it
an environment that leaves variables unbound or one that binds them all. So the
formula is valid exactly if no search on its negation finds anything
(`Formula.not_refutes`).
-/

namespace GridSat.Formula

variable {f : Formula} {e : Environment}

theorem isSatisfiedBy_not_iff :
    f.not.isSatisfiedBy e = true ↔ ∃ c ∈ f.toList, c.evaluate e = some false := by
  simp only [isSatisfiedBy_iff_meets, meets_not, Clause.evaluate_eq_some_false_iff,
    Environment.literal?_eq_some_false_iff, Literal.var_negated]

/-- If all variables are bound, a clause that is not true is false. -/
theorem isSatisfiedBy_not_iff_of_bound (h : ∀ x ∈ f.vars, ∃ b, e.get? x = some b) :
    f.not.isSatisfiedBy e = true ↔ f.isSatisfiedBy e = false := by
  rw [← Bool.not_eq_true, isSatisfiedBy_iff_meets, isSatisfiedBy_iff_meets, meets_not]
  simp only [Meets, not_forall, not_exists, not_and, exists_prop]
  refine exists_congr fun c => and_congr_right fun hc => forall₂_congr fun l hl => ?_
  obtain ⟨b, hb⟩ := h l.var (mem_vars_iff.2 ⟨c, hc, l, hl, rfl⟩)
  rw [Literal.var_negated, Literal.polarity_negated, hb]
  simp only [Option.some.injEq, Bool.eq_not]

theorem not_satisfiable_not_iff : ¬f.not.Satisfiable ↔ ∀ v, f.holds v = true := by
  rw [not_satisfiable_iff]
  simp only [holds_not, Bool.not_eq_false']

theorem length_not_of_mem (h : .empty ∈ f.toList) : f.not.length = 0 := by
  rw [length_not, List.prod_eq_zero_iff_exists_zero_nat]
  exact ⟨_, List.mem_map_of_mem h, rfl⟩

/-- The negation is true where some clause of the formula is false, which is where
    the formula is not true if all of its variables are bound. Hence the search on
    the negation comes out empty-handed exactly if every valuation makes the formula
    true. The negation has a clause for each way to choose a literal from every
    clause: one if there are no clauses, and none if one of them is empty. -/
theorem not_refutes (f : Formula) :
    (∀ e, f.not.isSatisfiedBy e = true ↔ ∃ c ∈ f.toList, c.evaluate e = some false) ∧
    (∀ e : Environment, (∀ x ∈ f.vars, ∃ b, e.get? x = some b) →
      (f.not.isSatisfiedBy e = true ↔ f.isSatisfiedBy e = false)) ∧
    (f.not.solve = none ↔ ∀ v : Valuation, f.holds v = true) ∧
    (f.not.solve = none ↔ f.not.search.verdict = .unsatisfiable) ∧
    f.not.length = (f.toList.map Clause.length).prod ∧
    (f.toList = [] → f.not.length = 1) ∧ (.empty ∈ f.toList → f.not.length = 0) := by
  refine ⟨fun e => isSatisfiedBy_not_iff, fun e => isSatisfiedBy_not_iff_of_bound, ?_, ?_,
    length_not f, fun h => ?_, length_not_of_mem⟩
  · rw [solve_eq_none_iff, not_satisfiable_not_iff]
  · rw [solve_eq_none_iff, verdict_eq_unsatisfiable_iff]
  · rw [length_not, h]
    rfl

/-- That `a` and `b` have the same value, with a literal repeated. -/
def equivalence : Formula :=
  let a := Literal.named "a"
  let b := Literal.named "b"
  .ofList [.ofList [a, b.negated], .ofList [a.negated, b, b]]

theorem not_refutes_equivalence :
    ∃ e : Environment, (∀ x ∈ equivalence.vars, ∃ b, e.get? x = some b) ∧
      equivalence.not.isSatisfiedBy e = true ∧ equivalence.isSatisfiedBy e = false ∧
      equivalence.not.length = 6 := by
  let e : Environment := ⟨.ofList [(⟨"b"⟩, true), (⟨"a"⟩, false)], by decide⟩
  have hvars : equivalence.vars = [⟨"a"⟩, ⟨"b"⟩] := by cbv
  have hbound : ∀ x ∈ equivalence.vars, ∃ b, e.get? x = some b := by
    rw [hvars]
    exact List.forall_mem_cons.2 ⟨⟨false, rfl⟩, List.forall_mem_singleton.2 ⟨true, rfl⟩⟩
  obtain ⟨_, hiff, _, _, hlength, _⟩ := not_refutes equivalence
  have hfalse : equivalence.isSatisfiedBy e = false := by decide
  exact ⟨e, hbound, (hiff e hbound).2 hfalse, hfalse, hlength⟩

end GridSat.Formula
