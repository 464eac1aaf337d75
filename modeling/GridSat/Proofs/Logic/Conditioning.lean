import GridSat.Proofs.Logic.Truth

/-!
# Substituting along an environment

What the substitution of a literal does to a formula: the clauses that stay
are those without the literal, less its negation (`mem_substitute_iff`), so its
variable is gone, and in a valuation that makes the literal true the formula
has the value it had (`holds_substitute`).

`Formula.condition` substitutes a list of bindings one after the other, the
oldest one first. A clause without a literal that one of the bindings makes true
leaves a clause behind (`exists_mem_condition`). So if nothing is left, the
bindings alone make every clause true.
-/

namespace GridSat

/-- The literal that a binding makes true. -/
def Literal.ofBinding (b : Variable × Bool) : Literal :=
  ⟨b.2, b.1⟩

@[simp] theorem Literal.ofBinding_var_polarity (l : Literal) :
    ofBinding (l.var, l.polarity) = l := rfl

namespace Clause

variable {c d : Clause} {l : Literal} {v : Valuation}

/-- What is left of a clause has the value of the clause if the literal holds. -/
theorem holds_of_reduce_eq_some (h : c.reduce l = some d) (hl : l.holds v = true) :
    d.holds v = true ↔ c.holds v = true := by
  have hd := (reduce_eq_some_iff.1 h).2
  simp only [holds, List.any_eq_true, hd, List.mem_filter]
  constructor
  · rintro ⟨m, ⟨hm, _⟩, hv⟩
    exact ⟨m, hm, hv⟩
  · -- The negation of `l` is false, so it is not what makes the clause true.
    rintro ⟨m, hm, hv⟩
    refine ⟨m, ⟨hm, ?_⟩, hv⟩
    rw [Bool.not_eq_true', beq_eq_false_iff_ne]
    rintro rfl
    rw [Literal.holds_negated, hl] at hv
    exact absurd hv Bool.false_ne_true

end Clause

namespace Formula

variable {f : Formula} {c d : Clause} {l : Literal} {v : Valuation} {x : Variable}

/-! ### One literal -/

/-- The clauses left are those without the literal, less its negation. -/
theorem mem_substitute_iff : d ∈ (f.substitute l).toList ↔
    ∃ c ∈ f.toList, l ∉ c.toList ∧ d.toList = c.toList.filter fun m => !(m == l.negated) := by
  simp only [toList_substitute, List.mem_filterMap, Clause.reduce_eq_some_iff]

/-- Substituting a true literal does not change the value of a formula. -/
theorem holds_substitute (hl : l.holds v = true) :
    (f.substitute l).holds v = true ↔ f.holds v = true := by
  simp only [holds_iff, toList_substitute, List.mem_filterMap, forall_exists_index, and_imp]
  constructor
  · intro h c hc
    cases hr : c.reduce l with
    | none => exact Clause.holds_of_mem (Clause.reduce_eq_none_iff.1 hr) hl
    | some d => exact (Clause.holds_of_reduce_eq_some hr hl).1 (h d c hc hr)
  · intro h d c hc hr
    exact (Clause.holds_of_reduce_eq_some hr hl).2 (h c hc)

/-- The variable of a substituted literal is gone, and no other one appears. -/
theorem mem_vars_of_mem_vars_substitute (h : x ∈ (f.substitute l).vars) :
    x ∈ f.vars ∧ x ≠ l.var := by
  obtain ⟨d, hd, m, hm, rfl⟩ := mem_vars_iff.1 h
  obtain ⟨c, hc, hl, hlist⟩ := mem_substitute_iff.1 hd
  rw [hlist, List.mem_filter, Bool.not_eq_true', beq_eq_false_iff_ne] at hm
  refine ⟨mem_vars_iff.2 ⟨c, hc, m, hm.1, rfl⟩, fun hvar => ?_⟩
  -- A clause with the literal would not be here, and its negation was left out.
  rcases Literal.eq_or_eq_negated hvar with rfl | rfl
  · exact hl hm.1
  · exact hm.2 rfl

/-- Substituting a literal leaves fewer variables, if it occurs, itself or
    negated. -/
theorem length_vars_substitute_lt (h : l.var ∈ f.vars) :
    (f.substitute l).vars.length < f.vars.length := by
  have hsubset : l.var :: (f.substitute l).vars ⊆ f.vars :=
    List.cons_subset.2 ⟨h, fun _ hx => (mem_vars_of_mem_vars_substitute hx).1⟩
  have hnodup : (l.var :: (f.substitute l).vars).Nodup :=
    List.nodup_cons.2 ⟨fun hx => (mem_vars_of_mem_vars_substitute hx).2 rfl, nodup_vars _⟩
  exact (List.subperm_of_subset hnodup hsubset).length_le

/-! ### A list of bindings -/

/-- The formula after the bindings are substituted, the last one of the list
    first. -/
def condition (f : Formula) : List (Variable × Bool) → Formula
  | [] => f
  | b :: bs => (f.condition bs).substitute (.ofBinding b)

theorem condition_eq_foldl (f : Formula) (bs : List (Variable × Bool)) :
    f.condition bs = bs.reverse.foldl (fun g b => g.substitute (.ofBinding b)) f := by
  induction bs with
  | nil => rfl
  | cons b bs ih => rw [condition, ih, List.reverse_cons, List.foldl_append, List.foldl_cons,
      List.foldl_nil]

theorem mem_vars_of_mem_vars_condition {bs : List (Variable × Bool)}
    (h : x ∈ (f.condition bs).vars) : x ∈ f.vars ∧ x ∉ bs.map Prod.fst := by
  induction bs with
  | nil => exact ⟨h, List.not_mem_nil⟩
  | cons b bs ih =>
    obtain ⟨h, hne⟩ := mem_vars_of_mem_vars_substitute h
    obtain ⟨hf, hbs⟩ := ih h
    rw [List.map_cons, List.mem_cons, not_or]
    exact ⟨hf, hne, hbs⟩

/-- Bindings that hold in a valuation do not change the value of a formula. -/
theorem holds_condition {bs : List (Variable × Bool)} (h : ∀ b ∈ bs, v b.1 = b.2) :
    (f.condition bs).holds v = true ↔ f.holds v = true := by
  induction bs with
  | nil => exact Iff.rfl
  | cons b bs ih =>
    obtain ⟨hb, hbs⟩ := List.forall_mem_cons.1 h
    exact (holds_substitute (Literal.holds_iff.2 hb)).trans (ih hbs)

/-- A clause without a literal that the bindings make true stays, less the
    literals that they make false. -/
theorem exists_mem_condition (hc : c ∈ f.toList) {bs : List (Variable × Bool)}
    (h : ∀ b ∈ bs, .ofBinding b ∉ c.toList) :
    ∃ d ∈ (f.condition bs).toList,
      d.toList = c.toList.filter fun m => bs.all fun b => !(m == (Literal.ofBinding b).negated) := by
  induction bs with
  | nil => exact ⟨c, hc, by simp⟩
  | cons b bs ih =>
    obtain ⟨hb, hbs⟩ := List.forall_mem_cons.1 h
    obtain ⟨d, hd, hlist⟩ := ih hbs
    refine ⟨.ofList (d.toList.filter fun m => !(m == (Literal.ofBinding b).negated)), ?_, ?_⟩
    · -- What the older bindings leave of a clause is a part of it.
      have hbd : .ofBinding b ∉ d.toList := fun hmem =>
        hb (List.mem_filter.1 (hlist ▸ hmem)).1
      exact mem_substitute_iff.2 ⟨d, hd, hbd, Clause.toList_ofList _⟩
    · rw [Clause.toList_ofList, hlist, List.filter_filter]
      simp only [List.all_cons]

/-- What an environment leaves of a clause in which no literal is true. -/
theorem exists_mem_condition_toList {e : Environment} (hc : c ∈ f.toList)
    (h : ∀ m ∈ c.toList, e.get? m.var ≠ some m.polarity) :
    ∃ d ∈ (f.condition e.toList).toList,
      d.toList = c.toList.filter fun m => e.get? m.var != some (!m.polarity) := by
  have hnone : ∀ b ∈ e.toList, .ofBinding b ∉ c.toList := fun b hb hmem =>
    h _ hmem (Environment.get?_eq_some_iff.2 hb)
  obtain ⟨d, hd, hlist⟩ := exists_mem_condition hc hnone
  refine ⟨d, hd, hlist.trans (List.filter_congr fun m _ => ?_)⟩
  rw [Bool.eq_iff_iff, List.all_eq_true, bne_iff_ne, ne_eq, Environment.get?_eq_some_iff]
  constructor
  · intro hall hmem
    simpa [Literal.ofBinding, Literal.negated] using hall _ hmem
  · intro hmem b hb
    rw [Bool.not_eq_true', beq_eq_false_iff_ne]
    rintro rfl
    exact hmem (by simpa [Literal.ofBinding, Literal.negated] using hb)

/-- If the bindings of an environment leave no clause, they make the formula
    true. -/
theorem isSatisfiedBy_of_condition_eq_nil {e : Environment}
    (h : (f.condition e.toList).toList = []) : f.isSatisfiedBy e = true := by
  refine isSatisfiedBy_iff.2 fun c hc => Clause.isSatisfiedBy_iff.2 ?_
  by_contra hfalse
  push Not at hfalse
  -- The clause would have left something behind.
  obtain ⟨d, hd, _⟩ := exists_mem_condition_toList hc hfalse
  rw [h] at hd
  exact absurd hd List.not_mem_nil

end Formula

end GridSat
