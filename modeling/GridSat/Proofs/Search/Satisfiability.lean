import GridSat.Proofs.Search.Invariant

/-!
# The search decides satisfiability

A search ends in one of two ways (`Formula.search_cases`). If the stack is
empty, no pending state is left that could admit a model, so there is none. If
a state has no clauses left, they have all been made true by the bindings of
its environment, as that state is faithful to the formula.

So the environment of a search makes the formula true, whatever values the
variables get that it leaves unbound, and there is one exactly if the formula
is satisfiable (`Formula.solve_eq_none_iff`).
-/

namespace GridSat

namespace Formula

variable {f : Formula} {e : Environment}

/-- The two ways a search can end. -/
theorem search_cases (f : Formula) :
    (f.search.verdict = .unsatisfiable ∧ ∀ v, f.holds v = false) ∨
      ∃ e, f.search.verdict = .model e ∧ f.isSatisfiedBy e = true ∧
        ∀ b ∈ e.toList, b.1 ∈ f.vars := by
  obtain ⟨m, hm, hends⟩ := f.exists_ends_search
  generalize f.search = outcome at hends ⊢
  cases hends with
  | exhausted =>
    refine .inl ⟨rfl, fun v => Bool.eq_false_iff.2 fun hv => ?_⟩
    -- A model would be admitted by a state on the empty stack.
    obtain ⟨frame, hframe, _⟩ := hm.exists_admits hv
    exact absurd hframe List.not_mem_nil
  | rebound hbound => exact absurd rfl (hm.verdict_ne_rebound (.rebound hbound) _)
  | @model frame rest stats log env hbound hmove =>
    have hsettled := (hm.faithful _ List.mem_cons_self).settled hbound
    have hnil := toList_eq_nil_of_move hmove
    rw [hsettled.clauses_eq] at hnil
    exact .inr ⟨env, rfl, isSatisfiedBy_of_condition_eq_nil hnil, hsettled.bound_mem⟩

theorem search_verdict_ne_rebound (f : Formula) (error : Rebinding) :
    f.search.verdict ≠ .rebound error := by
  rcases f.search_cases with ⟨h, _⟩ | ⟨e, h, _⟩ <;> exact h ▸ nofun

theorem solve_eq_some_iff : f.solve = some e ↔ f.search.verdict = .model e := by
  rw [solve]
  cases f.search.verdict <;> simp [Verdict.model?]

theorem isSatisfiedBy_of_solve (h : f.solve = some e) :
    f.isSatisfiedBy e = true ∧ ∀ b ∈ e.toList, b.1 ∈ f.vars := by
  rw [solve_eq_some_iff] at h
  rcases f.search_cases with ⟨h', _⟩ | ⟨e', h', hsat, hmem⟩
  · exact absurd (h.symm.trans h') nofun
  · obtain rfl : e = e' := Verdict.model.inj (h.symm.trans h')
    exact ⟨hsat, hmem⟩

theorem not_satisfiable_iff : ¬f.Satisfiable ↔ ∀ v, f.holds v = false := by
  simp [Satisfiable]

/-- Without a model the search reports that there is none, and with one it
    finds one. -/
theorem verdict_eq_unsatisfiable_iff : f.search.verdict = .unsatisfiable ↔ ¬f.Satisfiable := by
  rcases f.search_cases with ⟨h, hnone⟩ | ⟨e, h, hsat, _⟩
  · exact iff_of_true h (not_satisfiable_iff.2 hnone)
  · rw [h]
    exact iff_of_false nofun (not_not_intro (satisfiable_of_isSatisfiedBy hsat))

theorem solve_eq_none_iff : f.solve = none ↔ ¬f.Satisfiable := by
  rw [← verdict_eq_unsatisfiable_iff, solve]
  rcases f.search_cases with ⟨h, _⟩ | ⟨e, h, _⟩ <;> simp [h, Verdict.model?]

theorem exists_solve_of_satisfiable (h : f.Satisfiable) : ∃ e, f.solve = some e :=
  Option.ne_none_iff_exists'.1 fun hnone => solve_eq_none_iff.1 hnone h

theorem isSome_solve_eq {g : Formula} (h : f.Satisfiable ↔ g.Satisfiable) :
    f.solve.isSome = g.solve.isSome := by
  rw [Bool.eq_iff_iff, Option.isSome_iff_ne_none, Option.isSome_iff_ne_none, ne_eq, ne_eq,
    solve_eq_none_iff, solve_eq_none_iff, h]

/-- The environment that a search finds makes the formula true by itself, so it
    does so for all values of the variables it leaves unbound. It binds no
    variable twice, and only variables of the formula. -/
theorem holds_of_extends_solve (h : f.solve = some e) :
    f.isSatisfiedBy e = true ∧
      (∀ v : Valuation, e.Extends v → ∀ c ∈ f.toList, c.holds v = true) ∧
      (e.toList.map Prod.fst).Nodup ∧
      ∀ b ∈ e.toList, ∃ c ∈ f.toList, ∃ l ∈ c.toList, l.var = b.1 := by
  obtain ⟨hsat, hmem⟩ := isSatisfiedBy_of_solve h
  refine ⟨hsat, fun v hv => ?_, e.nodup, fun b hb => ?_⟩
  · exact holds_iff.1 (holds_of_isSatisfiedBy hsat hv)
  · exact mem_vars_iff.1 (hmem b hb)

/-- A formula with a repeated clause, a repeated literal and a clause with a
    literal and its negation. Trying `a` first leads to a conflict, and `c`
    does not matter in the end. -/
def backtracking : Formula :=
  let a := Literal.named "a"
  let b := Literal.named "b"
  let c := Literal.named "c"
  let d := Literal.named "d"
  .ofList [.ofList [a, b], .ofList [a, b], .ofList [a.negated, c, c],
    .ofList [a.negated, c.negated], .ofList [d, d.negated]]

theorem holds_of_extends_solve_backtracking :
    ∃ e, backtracking.solve = some e ∧
      e.toList = [(⟨"d"⟩, true), (⟨"b"⟩, true), (⟨"a"⟩, false)] ∧
      ∀ v : Valuation, e.Extends v → ∀ c ∈ backtracking.toList, c.holds v = true := by
  have h : backtracking.solve.map Environment.toList =
      some [(⟨"d"⟩, true), (⟨"b"⟩, true), (⟨"a"⟩, false)] := by cbv
  obtain ⟨e, hsolve, hlist⟩ := Option.map_eq_some_iff.1 h
  exact ⟨e, hsolve, hlist, (holds_of_extends_solve hsolve).2.1⟩

/-- A search finds an environment exactly if the formula is satisfiable, and
    otherwise reports that it is not. This is because at any time of the search
    every valuation that makes the formula true agrees with the environment,
    the literal and the clauses of some state on the stack. -/
theorem solve_isSome_iff_satisfiable (f : Formula) :
    (f.solve = none → ∀ v : Valuation, f.holds v = false) ∧
      (f.solve.isSome = true ↔ f.Satisfiable) ∧
      (f.search.verdict = .unsatisfiable ↔ ¬f.Satisfiable) ∧
      ∀ m, Machine.Reachable f m → ∀ v : Valuation, f.holds v = true →
        ∃ frame ∈ m.stack, frame.env.Extends v ∧ (∀ l ∈ frame.assumed, l.holds v = true) ∧
          frame.clauses.holds v = true := by
  refine ⟨fun h => not_satisfiable_iff.1 (solve_eq_none_iff.1 h), ?_,
    verdict_eq_unsatisfiable_iff, fun m hm v hv => ?_⟩
  · rw [Option.isSome_iff_ne_none, ne_eq, solve_eq_none_iff, not_not]
  · obtain ⟨frame, hmem, hadmits⟩ := hm.exists_admits hv
    exact ⟨frame, hmem, hadmits.extends_env, hadmits.assumed_holds, hadmits.clauses_holds⟩

end Formula

end GridSat
