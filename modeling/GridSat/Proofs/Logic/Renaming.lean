import GridSat.Proofs.Logic.Truth

/-!
# Other names and another order

Two ways to write a formula differently. `Formula.rename` gives its variables
other names, and `Formula.reversed` turns the order of its clauses round, and that
of the literals in each of them.

The order matters for no value. A renamed formula has the value that the formula
has when each variable takes the value of its new name (`holds_rename`), and the
same for the bindings of an environment (`isSatisfiedBy_rename_iff`). If different
variables get different names, every valuation of the formula comes from one of the
renamed formula, and so one is satisfiable if the other is
(`satisfiable_rename_iff`). Then also substituting a literal and listing the variables
come to the same before and after renaming (`substitute_rename`, `vars_rename`).
-/

namespace GridSat

/-! ### Renaming -/

/-- The literal of the renamed variable, with the same sign. -/
def Literal.rename (r : Variable → Variable) (l : Literal) : Literal :=
  ⟨l.polarity, r l.var⟩

/-- The clause with its variables renamed. -/
def Clause.rename (r : Variable → Variable) (c : Clause) : Clause :=
  .ofList (c.toList.map (.rename r))

/-- The formula with its variables renamed. -/
def Formula.rename (r : Variable → Variable) (f : Formula) : Formula :=
  .ofList (f.toList.map (.rename r))

theorem Literal.rename_injective {r : Variable → Variable} (hr : Function.Injective r) :
    Function.Injective (Literal.rename r) := by
  rintro ⟨p, x⟩ ⟨q, y⟩ h
  obtain ⟨hpq, hxy⟩ := Literal.mk.inj h
  exact congrArg₂ Literal.mk hpq (hr hxy)

/-! ### Reversal -/

/-- The clause with its literals in reverse. -/
def Clause.reversed (c : Clause) : Clause :=
  .ofList c.toList.reverse

/-- The formula with its clauses in reverse, and the literals in each of them. -/
def Formula.reversed (f : Formula) : Formula :=
  .ofList (f.toList.map .reversed).reverse

namespace Clause

variable {c : Clause} {r : Variable → Variable} {e e' : Environment} {v : Valuation}

@[simp] theorem toList_rename : (c.rename r).toList = c.toList.map (.rename r) :=
  toList_ofList _

@[simp] theorem toList_reversed : c.reversed.toList = c.toList.reverse :=
  toList_ofList _

@[simp] theorem length_rename : (c.rename r).length = c.length := by
  rw [← length_toList, toList_rename, List.length_map, length_toList]

@[simp] theorem length_reversed : c.reversed.length = c.length := by
  rw [← length_toList, toList_reversed, List.length_reverse, length_toList]

theorem holds_rename : (c.rename r).holds v = c.holds (v ∘ r) := by
  rw [holds, toList_rename, List.any_map]
  rfl

theorem holds_reversed : c.reversed.holds v = c.holds v := by
  rw [holds, toList_reversed, List.any_reverse, holds]

theorem isSatisfiedBy_rename_iff (h : ∀ l ∈ c.toList, e'.get? l.var = e.get? (r l.var)) :
    (c.rename r).isSatisfiedBy e = true ↔ c.isSatisfiedBy e' = true := by
  simp only [isSatisfiedBy_iff, toList_rename, List.mem_map]
  constructor
  · rintro ⟨_, ⟨l, hl, rfl⟩, hvalue⟩
    exact ⟨l, hl, (h l hl).trans hvalue⟩
  · rintro ⟨l, hl, hvalue⟩
    exact ⟨l.rename r, ⟨l, hl, rfl⟩, (h l hl).symm.trans hvalue⟩

theorem isSatisfiedBy_reversed_iff : c.reversed.isSatisfiedBy e = true ↔ c.isSatisfiedBy e = true := by
  simp only [isSatisfiedBy_iff, toList_reversed, List.mem_reverse]

/-- Renamed or not, a clause is left over or not, and with the same literals. -/
theorem reduce_rename (hr : Function.Injective r) (c : Clause) (l : Literal) :
    (c.rename r).reduce (l.rename r) = (c.reduce l).map (.rename r) := by
  have hinj := Literal.rename_injective hr
  cases h : c.reduce l with
  | none =>
    have hl := reduce_eq_none_iff.1 h
    exact reduce_eq_none_iff.2 (toList_rename ▸ List.mem_map_of_mem hl)
  | some d =>
    obtain ⟨hl, hd⟩ := reduce_eq_some_iff.1 h
    refine reduce_eq_some_iff.2 ⟨?_, ?_⟩
    · rw [toList_rename, List.mem_map_of_injective hinj]
      exact hl
    · rw [toList_rename, toList_rename, hd]
      exact (filter_map_of_injective hinj c.toList l.negated).symm

end Clause

namespace Formula

variable {f : Formula} {r : Variable → Variable} {e e' : Environment} {v w : Valuation}

@[simp] theorem toList_rename : (f.rename r).toList = f.toList.map (.rename r) :=
  toList_ofList _

@[simp] theorem toList_reversed : f.reversed.toList = (f.toList.map .reversed).reverse :=
  toList_ofList _

/-! ### Numbers of clauses and literals -/

theorem countLiterals_map {g : Clause → Clause} (h : ∀ c, (g c).length = c.length)
    (cs : List Clause) : countLiterals (cs.map g) = countLiterals cs := by
  induction cs with
  | nil => rfl
  | cons c cs ih => rw [List.map_cons, countLiterals, h, ih, countLiterals]

theorem countLiterals_reverse (cs : List Clause) : countLiterals cs.reverse = countLiterals cs := by
  induction cs with
  | nil => rfl
  | cons c cs ih =>
    rw [List.reverse_cons, countLiterals_append, ih]
    exact Nat.add_comm ..

@[simp] theorem length_rename : (f.rename r).length = f.length := by
  rw [← length_toList, toList_rename, List.length_map, length_toList]

@[simp] theorem length_reversed : f.reversed.length = f.length := by
  rw [← length_toList, toList_reversed, List.length_reverse, List.length_map, length_toList]

@[simp] theorem numLiterals_rename : (f.rename r).numLiterals = f.numLiterals := by
  rw [numLiterals_eq, toList_rename, countLiterals_map fun _ => Clause.length_rename,
    numLiterals_eq]

@[simp] theorem numLiterals_reversed : f.reversed.numLiterals = f.numLiterals := by
  rw [numLiterals_eq, toList_reversed, countLiterals_reverse,
    countLiterals_map fun _ => Clause.length_reversed, numLiterals_eq]

/-! ### Values -/

theorem holds_rename : (f.rename r).holds v = f.holds (v ∘ r) := by
  rw [holds, toList_rename, List.all_map]
  exact List.all_congr rfl fun c => Clause.holds_rename

theorem holds_reversed : f.reversed.holds v = f.holds v := by
  rw [holds, toList_reversed, List.all_reverse, List.all_map]
  exact List.all_congr rfl fun c => Clause.holds_reversed

/-- The value depends on those of the variables of the formula. -/
theorem holds_congr (h : ∀ x ∈ f.vars, v x = w x) (hv : f.holds v = true) : f.holds w = true := by
  refine holds_iff.2 fun c hc => ?_
  obtain ⟨l, hl, hvalue⟩ := Clause.holds_iff.1 (holds_iff.1 hv c hc)
  exact Clause.holds_iff.2 ⟨l, hl, h l.var (mem_vars_iff.2 ⟨c, hc, l, hl, rfl⟩) ▸ hvalue⟩

theorem satisfiable_reversed_iff : f.reversed.Satisfiable ↔ f.Satisfiable :=
  exists_congr fun _ => by rw [holds_reversed]

theorem satisfiable_of_rename (h : (f.rename r).Satisfiable) : f.Satisfiable := by
  obtain ⟨v, hv⟩ := h
  exact ⟨v ∘ r, holds_rename ▸ hv⟩

/-- If different variables get different names, renaming them makes no difference
    to whether a formula is satisfiable. -/
theorem satisfiable_rename_iff (h : ∀ x ∈ f.vars, ∀ y ∈ f.vars, r x = r y → x = y) :
    (f.rename r).Satisfiable ↔ f.Satisfiable := by
  refine ⟨satisfiable_of_rename, fun ⟨v, hv⟩ => ?_⟩
  -- A name has the value of the variable that got it.
  let w : Valuation := fun y => f.vars.any fun x => r x == y && v x
  have hw : ∀ x ∈ f.vars, v x = (w ∘ r) x := by
    intro x hx
    rw [Bool.eq_iff_iff, Function.comp, List.any_eq_true]
    constructor
    · intro htrue
      exact ⟨x, hx, by rw [beq_self_eq_true, htrue, Bool.and_self]⟩
    · rintro ⟨y, hy, htrue⟩
      rw [Bool.and_eq_true, beq_iff_eq] at htrue
      exact h y hy x hx htrue.1 ▸ htrue.2
  exact ⟨w, holds_rename ▸ holds_congr hw hv⟩

theorem isSatisfiedBy_rename_iff (h : ∀ x ∈ f.vars, e'.get? x = e.get? (r x)) :
    (f.rename r).isSatisfiedBy e = true ↔ f.isSatisfiedBy e' = true := by
  simp only [isSatisfiedBy_iff, toList_rename, List.forall_mem_map]
  refine forall₂_congr fun c hc => Clause.isSatisfiedBy_rename_iff fun l hl => ?_
  exact h l.var (mem_vars_iff.2 ⟨c, hc, l, hl, rfl⟩)

theorem isSatisfiedBy_reversed_iff :
    f.reversed.isSatisfiedBy e = true ↔ f.isSatisfiedBy e = true := by
  simp only [isSatisfiedBy_iff, toList_reversed, List.mem_reverse, List.forall_mem_map,
    Clause.isSatisfiedBy_reversed_iff]

/-! ### Substitution and variables -/

theorem substitute_rename (hr : Function.Injective r) (f : Formula) (l : Literal) :
    (f.rename r).substitute (l.rename r) = (f.substitute l).rename r := by
  apply Formula.ext
  rw [toList_substitute, toList_rename, toList_rename, toList_substitute, List.filterMap_map,
    List.map_filterMap]
  exact List.filterMap_congr fun c _ => Clause.reduce_rename hr c l

theorem vars_rename (hr : Function.Injective r) (f : Formula) :
    (f.rename r).vars = f.vars.map r := by
  rw [vars_eq, vars_eq, ← eraseDups_map hr, toList_rename, List.flatMap_map, List.map_flatMap]
  refine congrArg List.eraseDups (List.flatMap_congr fun c _ => ?_)
  rw [Clause.toList_rename, List.map_map, List.map_map]
  rfl

end Formula

end GridSat
