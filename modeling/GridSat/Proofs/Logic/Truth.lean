import Mathlib.Data.List.Nodup
import GridSat.Logic.Valuation
import GridSat.Proofs.Distinct

/-!
# Truth under environments and valuations

The tests `Clause.isSatisfiedBy` and `Formula.isSatisfiedBy` in terms of
bindings: a literal is true in an environment if its variable is bound to its
polarity, a clause if one of its literals is, a formula if all of its clauses
are. Valuations make literals, clauses and formulas true in the same way, so
what an environment makes true is true in every valuation that extends it
(`Formula.holds_of_isSatisfiedBy`): the variables that it leaves unbound do not
matter.
-/

namespace GridSat

/-! ### Bindings -/

namespace Environment

variable {e e' : Environment} {x : Variable} {b : Bool} {l : Literal} {v : Valuation}

theorem eq_of_toList_eq (h : e.toList = e'.toList) : e = e' :=
  Environment.ext (Chain.ext h)

theorem nodup_toList (e : Environment) : e.toList.Nodup :=
  e.nodup.of_map

theorem mem_toList_of_get? (h : e.get? x = some b) : (x, b) ∈ e.toList := by
  rw [get?, Chain.findSome?_eq] at h
  obtain ⟨⟨y, value⟩, hmem, hy⟩ := List.exists_of_findSome?_eq_some h
  simp only [Option.ite_none_right_eq_some, Option.some.injEq] at hy
  obtain ⟨rfl, rfl⟩ := hy
  exact hmem

/-- Looking a variable up finds its binding, as there is no other one. -/
theorem get?_eq_some_iff : e.get? x = some b ↔ (x, b) ∈ e.toList := by
  refine ⟨mem_toList_of_get?, fun h => ?_⟩
  cases hx : e.get? x with
  | none => exact absurd (List.mem_map_of_mem h) (get?_eq_none_iff.1 hx)
  | some value =>
    -- Two bindings of one variable are one binding.
    have heq := List.inj_on_of_nodup_map e.nodup (mem_toList_of_get? hx) h rfl
    exact congrArg (some ·.2) heq

theorem extends_iff : e.Extends v ↔ ∀ x b, e.get? x = some b → v x = b :=
  ⟨fun h x b hx => h (x, b) (mem_toList_of_get? hx),
    fun h b hb => h b.1 b.2 (get?_eq_some_iff.2 hb)⟩

/-- The valuation with the values of the environment, and those of `d` where
    nothing is bound. -/
def completion (e : Environment) (d : Valuation) : Valuation :=
  fun x => (e.get? x).getD (d x)

theorem extends_completion (e : Environment) (d : Valuation) : e.Extends (e.completion d) :=
  extends_iff.2 fun x b h => by rw [completion, h, Option.getD_some]

/-- The valuation that makes every unbound variable false. -/
def valuation (e : Environment) : Valuation :=
  fun x => (e.get? x).getD false

theorem extends_valuation (e : Environment) : e.Extends e.valuation :=
  e.extends_completion fun _ => false

/-- Assuming an unbound literal binds its variable in front of the others. -/
theorem exists_assign_of_get?_eq_none (h : e.get? l.var = none) :
    ∃ e', e.assign l = .ok e' ∧ e'.toList = (l.var, l.polarity) :: e.toList :=
  exists_put_of_get?_eq_none h l.polarity

/-- A binding that is there already changes nothing, and that of an unbound variable
    comes in front of the others. -/
theorem put_eq_ok_iff : e.put x b = .ok e' ↔
    e.get? x = some b ∧ e' = e ∨ e.get? x = none ∧ e'.toList = (x, b) :: e.toList := by
  cases hx : e.get? x with
  | none =>
    obtain ⟨e'', hput, hlist⟩ := exists_put_of_get?_eq_none hx b
    rw [hput, Except.ok.injEq]
    constructor
    · rintro rfl
      exact .inr ⟨rfl, hlist⟩
    · rintro (⟨h, _⟩ | ⟨_, h⟩)
      · exact absurd h nofun
      · exact eq_of_toList_eq (hlist.trans h.symm)
  | some current =>
    rw [put_of_get?_eq_some hx]
    split
    · next h => simp [h, eq_comm]
    · next h => simp [h]

/-- Assuming a literal asks no more of a valuation than the literal. -/
theorem extends_of_assign (h : e.assign l = .ok e') (he : e.Extends v) (hl : v l.var = l.polarity) :
    e'.Extends v := by
  rcases put_eq_ok_iff.1 h with ⟨_, rfl⟩ | ⟨_, hlist⟩
  · exact he
  · rw [Extends, hlist]
    exact List.forall_mem_cons.2 ⟨hl, he⟩

/-- Binding a variable changes the value of this variable only. -/
theorem get?_of_put (h : e.put x b = .ok e') (y : Variable) :
    e'.get? y = if y = x then some b else e.get? y := by
  rcases put_eq_ok_iff.1 h with ⟨hx, rfl⟩ | ⟨hx, hlist⟩
  · split
    · next hy => rw [hy, hx]
    · rfl
  · refine Option.ext fun value => ?_
    rw [get?_eq_some_iff, hlist, List.mem_cons, Prod.mk.injEq]
    split
    · next hy =>
      have hnew : (x, value) ∉ e.toList := fun hmem =>
        get?_eq_none_iff.1 hx (List.mem_map_of_mem hmem)
      simp [hy, hnew, eq_comm]
    · next hy => simp [hy, get?_eq_some_iff]

@[simp] theorem length_toList (e : Environment) : e.toList.length = e.length :=
  Chain.length_toList _

theorem literal?_eq_some_true_iff : e.literal? l = some true ↔ e.get? l.var = some l.polarity := by
  rw [literal?, Option.map_eq_some_iff]
  constructor
  · rintro ⟨value, hx, hl⟩
    rw [hx, eq_of_beq hl]
  · intro h
    exact ⟨_, h, beq_self_eq_true _⟩

theorem literal?_eq_some_false_iff :
    e.literal? l = some false ↔ e.get? l.var = some l.negated.polarity := by
  rw [literal?, Option.map_eq_some_iff]
  constructor
  · rintro ⟨value, hx, hl⟩
    rw [hx, Literal.polarity_negated, Bool.eq_not_of_ne (beq_eq_false_iff_ne.1 hl).symm]
  · intro h
    exact ⟨_, h, by simp [Literal.evalWith]⟩

end Environment

/-! ### Literals, clauses and formulas -/

theorem Literal.holds_iff {l : Literal} {v : Valuation} :
    l.holds v = true ↔ v l.var = l.polarity := by
  rw [Literal.holds, Literal.evalWith, beq_iff_eq, eq_comm]

/-- Of two literals of a variable, one is the other or its negation. -/
theorem Literal.eq_or_eq_negated {l m : Literal} (h : m.var = l.var) :
    m = l ∨ m = l.negated := by
  obtain ⟨p, x⟩ := l
  obtain ⟨q, y⟩ := m
  obtain rfl : y = x := h
  cases p <;> cases q <;> simp [negated]

namespace Clause

variable {c : Clause} {e : Environment} {v : Valuation}

theorem evaluateFrom_eq_some_true_iff (e : Environment) (ls : List Literal) (undecided : Bool) :
    evaluateFrom e ls undecided = some true ↔ ∃ l ∈ ls, e.literal? l = some true := by
  induction ls generalizing undecided with
  | nil => cases undecided <;> simp [evaluateFrom]
  | cons l ls ih =>
    rw [evaluateFrom, List.exists_mem_cons_iff]
    split
    · next h => simp [h]
    · next h => simp [h, ih]
    · next h => simp [h, ih]

/-- The value is false if all literals are. -/
theorem evaluateFrom_eq_some_false_iff (e : Environment) (ls : List Literal) (undecided : Bool) :
    evaluateFrom e ls undecided = some false ↔
      undecided = false ∧ ∀ l ∈ ls, e.literal? l = some false := by
  induction ls generalizing undecided with
  | nil => cases undecided <;> simp [evaluateFrom]
  | cons l ls ih =>
    rw [evaluateFrom, List.forall_mem_cons]
    split
    · next h => simp [h]
    · next h => simp [h, ih]
    · next h => simp [h, ih]

theorem evaluate_eq_some_true_iff :
    c.evaluate e = some true ↔ ∃ l ∈ c.toList, e.literal? l = some true :=
  evaluateFrom_eq_some_true_iff ..

theorem evaluate_eq_some_false_iff :
    c.evaluate e = some false ↔ ∀ l ∈ c.toList, e.literal? l = some false := by
  rw [evaluate, evaluateFrom_eq_some_false_iff]
  exact and_iff_right rfl

theorem isSatisfiedBy_iff :
    c.isSatisfiedBy e = true ↔ ∃ l ∈ c.toList, e.get? l.var = some l.polarity := by
  rw [isSatisfiedBy, beq_iff_eq, evaluate_eq_some_true_iff]
  simp only [Environment.literal?_eq_some_true_iff]

theorem holds_iff : c.holds v = true ↔ ∃ l ∈ c.toList, v l.var = l.polarity := by
  simp only [holds, List.any_eq_true, Literal.holds_iff]

theorem holds_of_mem {l : Literal} (hl : l ∈ c.toList) (h : l.holds v = true) :
    c.holds v = true :=
  List.any_eq_true.2 ⟨l, hl, h⟩

end Clause

namespace Formula

variable {f : Formula} {e : Environment} {v : Valuation} {x : Variable}

theorem isSatisfiedBy_iff :
    f.isSatisfiedBy e = true ↔ ∀ c ∈ f.toList, c.isSatisfiedBy e = true := by
  rw [isSatisfiedBy, Chain.all_eq, List.all_eq_true]
  rfl

theorem holds_iff : f.holds v = true ↔ ∀ c ∈ f.toList, c.holds v = true :=
  List.all_eq_true

/-- What an environment makes true stays true however the unbound variables
    are chosen. -/
theorem holds_of_isSatisfiedBy (h : f.isSatisfiedBy e = true) (hv : e.Extends v) :
    f.holds v = true := by
  refine holds_iff.2 fun c hc => ?_
  obtain ⟨l, hl, hx⟩ := Clause.isSatisfiedBy_iff.1 (isSatisfiedBy_iff.1 h c hc)
  exact Clause.holds_iff.2 ⟨l, hl, Environment.extends_iff.1 hv _ _ hx⟩

theorem satisfiable_of_isSatisfiedBy (h : f.isSatisfiedBy e = true) : f.Satisfiable :=
  ⟨e.valuation, holds_of_isSatisfiedBy h e.extends_valuation⟩

theorem mem_vars_iff : x ∈ f.vars ↔ ∃ c ∈ f.toList, ∃ l ∈ c.toList, l.var = x := by
  rw [vars_eq, List.mem_eraseDups, List.mem_flatMap]
  simp only [List.mem_map]

theorem nodup_vars (f : Formula) : f.vars.Nodup :=
  f.vars_eq ▸ nodup_eraseDups _

end Formula

end GridSat
