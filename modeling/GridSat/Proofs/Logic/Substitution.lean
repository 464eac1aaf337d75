import GridSat.Proofs.Logic.Conditioning

/-!
# Assuming a literal

A literal can be assumed in two ways: in the formula, by substituting it, or in the
environment, by binding its variable. Whether the bindings make the formula true is
the same either way (`Formula.isSatisfiedBy_substitute_iff`), for environments that
leave other variables unbound too.

This is because of what is left of each clause. After the binding a literal is true
if it is the one assumed, or was true before and is not its negation
(`Environment.get?_assign_iff`), and the substitution goes by the same two cases: it
drops a clause for the first one, and literals for the second.
-/

namespace GridSat

variable {e e' : Environment} {l m : Literal}

namespace Environment

/-- A literal can be assumed unless its variable has the other value. -/
theorem exists_assign (h : e.get? l.var = none ∨ e.get? l.var = some l.polarity) :
    ∃ e', e.assign l = .ok e' := by
  rcases h with hfree | hbound
  · obtain ⟨e', h, _⟩ := exists_assign_of_get?_eq_none hfree
    exact ⟨e', h⟩
  · exact ⟨e, (put_of_get?_eq_some hbound _).trans (if_pos rfl)⟩

/-- The literals that are true once `l` is assumed. -/
theorem get?_assign_iff (h : e.assign l = .ok e') :
    e'.get? m.var = some m.polarity ↔
      m = l ∨ m ≠ l.negated ∧ e.get? m.var = some m.polarity := by
  rw [get?_of_put h]
  split
  · next hvar =>
    -- Of the literals of the variable, one has become true and one false.
    rcases Literal.eq_or_eq_negated hvar with rfl | rfl
    · simp
    · simp [Literal.negated_ne]
  · next hvar =>
    have hne : m ≠ l := fun hml => hvar (congrArg Literal.var hml)
    have hne' : m ≠ l.negated := fun hml => hvar (by rw [hml, Literal.var_negated])
    simp [hne, hne']

end Environment

namespace Clause

variable {c d : Clause}

theorem isSatisfiedBy_of_mem (h : e.assign l = .ok e') (hl : l ∈ c.toList) :
    c.isSatisfiedBy e' = true :=
  isSatisfiedBy_iff.2 ⟨l, hl, (Environment.get?_assign_iff h).2 (.inl rfl)⟩

theorem isSatisfiedBy_of_reduce_eq_some (h : e.assign l = .ok e') (hd : c.reduce l = some d) :
    d.isSatisfiedBy e = true ↔ c.isSatisfiedBy e' = true := by
  obtain ⟨hl, hlist⟩ := reduce_eq_some_iff.1 hd
  simp only [isSatisfiedBy_iff, hlist, List.mem_filter, Bool.not_eq_true', beq_eq_false_iff_ne]
  constructor
  · rintro ⟨m, ⟨hm, hne⟩, htrue⟩
    exact ⟨m, hm, (Environment.get?_assign_iff h).2 (.inr ⟨hne, htrue⟩)⟩
  · rintro ⟨m, hm, htrue⟩
    rcases (Environment.get?_assign_iff h).1 htrue with rfl | ⟨hne, htrue⟩
    · exact absurd hm hl
    · exact ⟨m, ⟨hm, hne⟩, htrue⟩

end Clause

namespace Formula

variable {f : Formula}

theorem isSatisfiedBy_substitute_iff (h : e.assign l = .ok e') :
    (f.substitute l).isSatisfiedBy e = true ↔ f.isSatisfiedBy e' = true := by
  simp only [isSatisfiedBy_iff, toList_substitute, List.mem_filterMap, forall_exists_index,
    and_imp]
  constructor
  · intro hall c hc
    cases hd : c.reduce l with
    | none => exact Clause.isSatisfiedBy_of_mem h (Clause.reduce_eq_none_iff.1 hd)
    | some d => exact (Clause.isSatisfiedBy_of_reduce_eq_some h hd).1 (hall d c hc hd)
  · intro hall d c hc hd
    exact (Clause.isSatisfiedBy_of_reduce_eq_some h hd).2 (hall c hc)

/-- Substituting keeps the clauses without the literal, in their order, and of each
    the literals other than the negation, in their order. -/
theorem toList_substitute_eq (f : Formula) (l : Literal) :
    (f.substitute l).toList.map Clause.toList =
      (f.toList.filter fun c => l ∉ c.toList).map fun c =>
        c.toList.filter fun m => m ≠ l.negated := by
  rw [toList_substitute]
  induction f.toList with
  | nil => rfl
  | cons c cs ih =>
    cases hd : c.reduce l with
    | none =>
      have hl := Clause.reduce_eq_none_iff.1 hd
      simp only [List.filterMap_cons, hd]
      rw [ih, List.filter_cons_of_neg (by simpa using hl)]
    | some d =>
      obtain ⟨hl, hlist⟩ := Clause.reduce_eq_some_iff.1 hd
      simp only [List.filterMap_cons, hd]
      rw [List.map_cons, ih, List.filter_cons_of_pos (by simpa using hl), List.map_cons, hlist]
      simp only [beq_eq_decide, ne_eq, decide_not]

/-- Assuming a literal in the formula or in the environment comes to the same,
    unless the environment has its negation. The variable does not occur in the
    formula any more. What remains of it is all clauses without the literal, in the
    order they had and each less the negation, and otherwise as it was. -/
theorem substitute_conditions (f : Formula) (l : Literal) :
    (∀ e : Environment, e.get? l.var = none ∨ e.get? l.var = some l.polarity →
      ∃ e', e.assign l = .ok e' ∧
        ((f.substitute l).isSatisfiedBy e = true ↔ f.isSatisfiedBy e' = true)) ∧
    (∀ c ∈ (f.substitute l).toList, ∀ m ∈ c.toList, m.var ≠ l.var) ∧
    (f.substitute l).toList.map Clause.toList =
      (f.toList.filter fun c => l ∉ c.toList).map fun c =>
        c.toList.filter fun m => m ≠ l.negated := by
  refine ⟨fun e he => ?_, fun c hc m hm hvar => ?_, toList_substitute_eq f l⟩
  · obtain ⟨e', h⟩ := Environment.exists_assign he
    exact ⟨e', h, isSatisfiedBy_substitute_iff h⟩
  · have hvars : l.var ∈ (f.substitute l).vars := mem_vars_iff.2 ⟨c, hc, m, hm, hvar⟩
    exact (mem_vars_of_mem_vars_substitute hvars).2 rfl

/-- A clause with `a`, one with its negation in it twice, one with both, and one
    with neither. -/
def mixed : Formula :=
  let a := Literal.named "a"
  let b := Literal.named "b"
  let c := Literal.named "c"
  .ofList [.ofList [a, b], .ofList [a.negated, c, a.negated], .ofList [a, a.negated],
    .ofList [b, c.negated]]

theorem substitute_conditions_mixed :
    ∃ e e' : Environment, e.get? ⟨"a"⟩ = none ∧ e.get? ⟨"c"⟩ = some true ∧
      e.assign (.named "a") = .ok e' ∧
      ((mixed.substitute (.named "a")).isSatisfiedBy e = true ↔ mixed.isSatisfiedBy e' = true) ∧
      (mixed.substitute (.named "a")).toList.map Clause.toList =
        [[.named "c"], [.named "b", (Literal.named "c").negated]] := by
  let e : Environment := ⟨.ofList [(⟨"c"⟩, true)], by decide⟩
  obtain ⟨hassume, _, hlist⟩ := substitute_conditions mixed (.named "a")
  have hfree : e.get? ⟨"a"⟩ = none := by decide
  obtain ⟨e', h, hiff⟩ := hassume e (.inl hfree)
  exact ⟨e, e', hfree, by decide, h, hiff, hlist.trans (by decide)⟩

end Formula

end GridSat
