import Mathlib.Algebra.BigOperators.Group.List.Basic
import Mathlib.Data.List.Forall2
import GridSat.Proofs.Logic.Truth

/-!
# Conjunction, disjunction and negation

The connectives, although their results are formulas of the same form, mean what
their names say. Environments and valuations both make literals true, and a formula
is true if each clause has one of these (`Formula.Meets`); so what the connectives
mean is said once, for any choice of true literals (`meets_and`, `meets_or`,
`meets_not`), and then holds for both.

Disjunction merges every clause of one formula with every clause of the other
(`Formula.distribution`). The short cuts for true and contradictory operands give
the same clauses, with their literals in another order (`forall₂_perm_or`), so they
matter neither for what is true nor for the number of clauses. Negation is a
disjunction over the clauses, one after the other, so what is known of disjunction
carries over by induction.
-/

namespace GridSat

/-! ### Merged clauses -/

namespace Clause

variable {c d : Clause} {l : Literal}

theorem mem_merge_iff : l ∈ (c.merge d).toList ↔ l ∈ c.toList ∨ l ∈ d.toList := by
  rw [toList_merge, List.mem_append, List.mem_reverse, List.mem_filter, Bool.not_eq_true',
    ← Bool.not_eq_true, contains_iff]
  by_cases hc : l ∈ c.toList <;> simp [hc]

/-- A merged clause has a literal as often as the first clause that has it. -/
theorem count_merge (c d : Clause) (l : Literal) :
    (c.merge d).toList.count l =
      if l ∈ c.toList then c.toList.count l else d.toList.count l := by
  rw [toList_merge, List.count_append, List.count_reverse]
  split
  · next hc =>
    have hnone : l ∉ d.toList.filter fun m => !c.contains m := fun hmem => by
      have hnew := (List.mem_filter.1 hmem).2
      rw [contains_iff.2 hc] at hnew
      exact absurd hnew nofun
    rw [List.count_eq_zero.2 hnone, Nat.zero_add]
  · next hc =>
    have hkept : (fun m => !c.contains m) l = true := by
      rw [Bool.not_eq_true', ← Bool.not_eq_true, contains_iff]
      exact hc
    rw [List.count_filter (p := fun m => !c.contains m) hkept, List.count_eq_zero.2 hc,
      Nat.add_zero]

theorem merge_empty (c : Clause) : c.merge empty = c := rfl

theorem perm_empty_merge (d : Clause) : (empty.merge d).toList.Perm d.toList := by
  refine List.perm_iff_count.2 fun l => ?_
  rw [count_merge, toList_empty, if_neg List.not_mem_nil]

end Clause

/-! ### True literals -/

namespace Formula

variable {f g : Formula} {c : Clause} {e : Environment} {v : Valuation} {T : Literal → Prop}

/-- Every clause has one of the literals in `T`. -/
def Meets (f : Formula) (T : Literal → Prop) : Prop :=
  ∀ c ∈ f.toList, ∃ l ∈ c.toList, T l

theorem isSatisfiedBy_iff_meets :
    f.isSatisfiedBy e = true ↔ f.Meets fun l => e.get? l.var = some l.polarity := by
  simp only [isSatisfiedBy_iff, Clause.isSatisfiedBy_iff, Meets]

theorem holds_iff_meets : f.holds v = true ↔ f.Meets fun l => v l.var = l.polarity := by
  simp only [holds_iff, Clause.holds_iff, Meets]

theorem not_meets_contradiction : ¬contradiction.Meets T := fun h => by
  obtain ⟨l, hl, _⟩ := h .empty (List.mem_singleton.2 rfl)
  exact absurd hl List.not_mem_nil

/-! ### Conjunction -/

theorem length_and (f g : Formula) : (f.and g).length = f.length + g.length := by
  rw [← length_toList, toList_and, List.length_append, length_toList, length_toList, Nat.add_comm]

theorem meets_and : (f.and g).Meets T ↔ f.Meets T ∧ g.Meets T := by
  rw [Meets, toList_and, List.forall_mem_append, and_comm]
  rfl

/-! ### Disjunction -/

/-- The clauses of `f`, each merged with every clause of `g`. -/
def distribution (f g : Formula) : List Clause :=
  f.toList.flatMap fun c => g.toList.map c.merge

theorem length_distribution (f g : Formula) :
    (f.distribution g).length = f.length * g.length := by
  have hrow : (fun c : Clause => (g.toList.map c.merge).length) = fun _ => g.length :=
    funext fun c => (List.length_map _).trans (length_toList g)
  rw [distribution, List.length_flatMap, hrow, List.map_const', List.sum_replicate_nat,
    length_toList]

/-- A contradiction is the formula of the empty clause and nothing else. -/
theorem isContradiction_iff : f.isContradiction = true ↔ f = contradiction := by
  rw [isContradiction, Bool.and_eq_true, beq_iff_eq, hasEmptyClause_iff, ← length_toList,
    List.length_eq_one_iff]
  constructor
  · rintro ⟨⟨c, hc⟩, hempty⟩
    rw [hc, List.mem_singleton] at hempty
    exact ext (hc.trans (congrArg (fun d => [d]) hempty.symm))
  · rintro rfl
    exact ⟨⟨_, rfl⟩, List.mem_singleton.2 rfl⟩

/-- A disjunction has the clauses of the distribution, up to the order of the
    literals in each of them. -/
theorem forall₂_perm_or (f g : Formula) :
    List.Forall₂ (fun c d => c.toList.Perm d.toList) (f.or g).toList (f.distribution g) := by
  rw [or]
  split
  · -- Without clauses on one side there is no pair of clauses.
    next htrue =>
    rw [Bool.or_eq_true, isEmpty_eq, isEmpty_eq, List.isEmpty_iff, List.isEmpty_iff] at htrue
    rcases htrue with hf | hg
    · rw [distribution, hf]
      exact .nil
    · have hnil : f.distribution g = [] := List.flatMap_eq_nil_iff.2 fun c _ => by
        rw [hg, List.map_nil]
      rw [hnil]
      exact .nil
  split
  · next hf =>
    -- Merging with the empty clause in front turns a clause round.
    obtain rfl := isContradiction_iff.1 hf
    rw [distribution, contradiction, toList_ofClause, List.flatMap_singleton,
      List.forall₂_map_right_iff, List.forall₂_same]
    exact fun d _ => d.perm_empty_merge.symm
  split
  · next hg =>
    obtain rfl := isContradiction_iff.1 hg
    rw [distribution, contradiction, toList_ofClause]
    simp only [List.map_singleton, Clause.merge_empty, List.flatMap_singleton', List.forall₂_same]
    exact fun c _ => .refl _
  · rw [toList_ofList, distribution, List.forall₂_same]
    exact fun c _ => .refl _

theorem length_or (f g : Formula) : (f.or g).length = f.length * g.length := by
  rw [← length_toList, (forall₂_perm_or f g).length_eq, length_distribution]

/-- The order of the literals in the clauses is not what makes a formula true. -/
theorem meets_congr (h : List.Forall₂ (fun c d => c.toList.Perm d.toList) f.toList g.toList) :
    f.Meets T ↔ g.Meets T := by
  rw [Meets, Meets]
  generalize f.toList = cs, g.toList = ds at h
  induction h with
  | nil => exact Iff.rfl
  | cons hcd _ ih =>
    rw [List.forall_mem_cons, List.forall_mem_cons, ih]
    simp only [hcd.mem_iff]

theorem meets_or : (f.or g).Meets T ↔ f.Meets T ∨ g.Meets T := by
  have hsame : List.Forall₂ (fun c d => c.toList.Perm d.toList) (f.or g).toList
      (ofList (f.distribution g)).toList := by
    rw [toList_ofList]
    exact forall₂_perm_or f g
  rw [meets_congr hsame, Meets, toList_ofList, distribution]
  simp only [List.forall_mem_flatMap, List.forall_mem_map, Clause.mem_merge_iff]
  constructor
  · intro h
    -- If a clause of `f` has no true literal, all clauses of `g` have one.
    by_contra hnone
    rw [not_or] at hnone
    obtain ⟨hf, hg⟩ := hnone
    simp only [Meets, not_forall] at hf hg
    obtain ⟨c, hc, hcT⟩ := hf
    obtain ⟨d, hd, hdT⟩ := hg
    obtain ⟨l, hl | hl, hT⟩ := h c hc d hd
    · exact hcT ⟨l, hl, hT⟩
    · exact hdT ⟨l, hl, hT⟩
  · rintro (h | h) c hc d hd
    · obtain ⟨l, hl, hT⟩ := h c hc
      exact ⟨l, .inl hl, hT⟩
    · obtain ⟨l, hl, hT⟩ := h d hd
      exact ⟨l, .inr hl, hT⟩

/-! ### Negation -/

theorem length_negatedClause (c : Clause) : (negatedClause c).length = c.length := by
  rw [← length_toList, negatedClause, toList_ofList, List.length_map, Clause.length_toList]

theorem meets_negatedClause : (negatedClause c).Meets T ↔ ∀ l ∈ c.toList, T l.negated := by
  rw [Meets, negatedClause, toList_ofList, List.forall_mem_map]
  simp only [Clause.toList_singleton, List.mem_singleton, exists_eq_left]

/-- Going on with the disjunction of the negated clauses. -/
theorem meets_foldl_or (cs : List Clause) (g : Formula) :
    (cs.foldl (fun g c => g.or (negatedClause c)) g).Meets T ↔
      g.Meets T ∨ ∃ c ∈ cs, ∀ l ∈ c.toList, T l.negated := by
  induction cs generalizing g with
  | nil => simp
  | cons c cs ih =>
    rw [List.foldl_cons, ih, meets_or, meets_negatedClause, List.exists_mem_cons_iff, or_assoc]

theorem length_foldl_or (cs : List Clause) (g : Formula) :
    (cs.foldl (fun g c => g.or (negatedClause c)) g).length =
      g.length * (cs.map Clause.length).prod := by
  induction cs generalizing g with
  | nil => simp
  | cons c cs ih =>
    rw [List.foldl_cons, ih, length_or, length_negatedClause, List.map_cons, List.prod_cons,
      Nat.mul_assoc]

theorem meets_not : f.not.Meets T ↔ ∃ c ∈ f.toList, ∀ l ∈ c.toList, T l.negated := by
  rw [not, Chain.foldl_eq, meets_foldl_or]
  exact or_iff_right not_meets_contradiction

theorem length_not (f : Formula) : f.not.length = (f.toList.map Clause.length).prod := by
  rw [not, Chain.foldl_eq, length_foldl_or]
  exact Nat.one_mul _

theorem holds_not (f : Formula) (v : Valuation) : f.not.holds v = !f.holds v := by
  rw [Bool.eq_iff_iff, holds_iff_meets, meets_not, Bool.not_eq_true', ← Bool.not_eq_true,
    holds_iff_meets]
  simp only [Meets, not_forall, not_exists, not_and, Literal.var_negated,
    Literal.polarity_negated, Bool.eq_not, exists_prop]

/-! ### The meaning of conjunction and disjunction -/

/-- A conjunction is true where both operands are, and has the clauses of both,
    those of `g` first. A disjunction is true where one of the operands is, and
    has a clause for every pair of clauses, short cut or not: the one that merging
    the two gives, with its literals in some order. Merging takes each literal as
    often as the left clause has it, or else as often as the right one. -/
theorem and_or_distribute (f g : Formula) :
    (∀ e, (f.and g).isSatisfiedBy e = true ↔
      f.isSatisfiedBy e = true ∧ g.isSatisfiedBy e = true) ∧
    (f.and g).toList = g.toList ++ f.toList ∧
    (f.and g).length = f.length + g.length ∧
    (∀ e, (f.or g).isSatisfiedBy e = true ↔
      f.isSatisfiedBy e = true ∨ g.isSatisfiedBy e = true) ∧
    (f.or g).length = f.length * g.length ∧
    List.Forall₂ (fun c d => c.toList.Perm d.toList) (f.or g).toList
      (f.toList.flatMap fun c => g.toList.map c.merge) ∧
    ∀ (c d : Clause) (l : Literal), (c.merge d).toList.count l =
      if l ∈ c.toList then c.toList.count l else d.toList.count l := by
  refine ⟨fun e => ?_, toList_and f g, length_and f g, fun e => ?_, length_or f g,
    forall₂_perm_or f g, Clause.count_merge⟩
  · simp only [isSatisfiedBy_iff_meets, meets_and]
  · simp only [isSatisfiedBy_iff_meets, meets_or]

end Formula

end GridSat
