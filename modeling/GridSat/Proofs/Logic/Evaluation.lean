import Mathlib.Order.Basic
import GridSat.Proofs.Logic.Bindings

/-!
# What an environment decides

A clause is evaluated in an environment to true, to false or to neither. This is
exact: a value is given if the clause has it in every valuation that extends the
environment, and none if both values are still possible
(`Clause.evaluate_eq_some_iff`, `evaluate_eq_none_iff`).

For one direction, every literal that is decided keeps its value. For the other
one, the variables that are unbound have to be chosen so that all literals that
are undecided become false together. Making true exactly those variables of which
the negation is in the clause does this (`Clause.opposition`), unless some literal
is there together with its negation. Clauses with such a literal are the ones that
are true in every valuation (`Clause.isTautology_iff_forall_holds`), and they are
never evaluated to false.

Environments are ordered by what they bind. What is decided stays decided in
greater ones (`Clause.evaluate_of_le`), and further bindings make greater ones
(`Environment.le_of_putAll`).
-/

namespace GridSat

/-! ### More bindings -/

namespace Environment

variable {e e' : Environment} {x : Variable} {b : Bool} {bs : List (Variable × Bool)}
  {l : Literal} {v d : Valuation}

/-- An environment is below those that have all of its bindings. -/
instance : Preorder Environment where
  le e e' := ∀ x b, e.get? x = some b → e'.get? x = some b
  le_refl _ _ _ h := h
  le_trans _ _ _ h h' x b hx := h' x b (h x b hx)

theorem le_of_put (h : e.put x b = .ok e') : e ≤ e' := by
  rcases put_eq_ok_iff.1 h with ⟨_, rfl⟩ | ⟨_, hcons⟩
  · exact le_rfl
  · intro y value hy
    rw [get?_eq_some_iff, hcons]
    exact List.mem_cons_of_mem _ (get?_eq_some_iff.1 hy)

theorem le_of_putAll (h : e.putAll bs = .ok e') : e ≤ e' := by
  induction bs generalizing e with
  | nil =>
    cases h
    exact le_rfl
  | cons c bs ih =>
    obtain ⟨x, b⟩ := c
    rw [putAll_cons, bind_eq_ok_iff] at h
    obtain ⟨e₁, hput, h⟩ := h
    exact (le_of_put hput).trans (ih h)

theorem literal?_of_le (hle : e ≤ e') (h : e.literal? l = some b) : e'.literal? l = some b := by
  obtain ⟨value, hx, hvalue⟩ := Option.map_eq_some_iff.1 h
  exact Option.map_eq_some_iff.2 ⟨value, hle _ _ hx, hvalue⟩

/-! ### Completions -/

theorem holds_of_literal? (h : e.literal? l = some b) (hv : e.Extends v) : l.holds v = b := by
  obtain ⟨value, hx, hvalue⟩ := Option.map_eq_some_iff.1 h
  rw [Literal.holds, extends_iff.1 hv _ _ hx, hvalue]

theorem holds_completion (h : e.literal? l = none) : l.holds (e.completion d) = l.holds d := by
  have hx : e.get? l.var = none := Option.map_eq_none_iff.1 h
  rw [Literal.holds, completion, hx, Option.getD_none]
  rfl

end Environment

namespace Clause

variable {c : Clause} {e e' : Environment} {l : Literal} {v : Valuation} {b : Bool}

/-! ### Decided clauses -/

theorem evaluate_of_le (hle : e ≤ e') (h : c.evaluate e = some b) : c.evaluate e' = some b := by
  cases b with
  | true =>
    obtain ⟨l, hl, htrue⟩ := evaluate_eq_some_true_iff.1 h
    exact evaluate_eq_some_true_iff.2 ⟨l, hl, Environment.literal?_of_le hle htrue⟩
  | false =>
    rw [evaluate_eq_some_false_iff] at h ⊢
    exact fun l hl => Environment.literal?_of_le hle (h l hl)

theorem holds_eq_false_iff : c.holds v = false ↔ ∀ l ∈ c.toList, l.holds v = false := by
  simp [holds]

theorem holds_of_evaluate (h : c.evaluate e = some b) (hv : e.Extends v) : c.holds v = b := by
  cases b with
  | true =>
    obtain ⟨l, hl, htrue⟩ := evaluate_eq_some_true_iff.1 h
    exact holds_of_mem hl (Environment.holds_of_literal? htrue hv)
  | false =>
    rw [evaluate_eq_some_false_iff] at h
    exact holds_eq_false_iff.2 fun l hl => Environment.holds_of_literal? (h l hl) hv

/-! ### Tautologies -/

theorem isTautology_iff : c.isTautology = true ↔ ∃ l ∈ c.toList, l.negated ∈ c.toList := by
  simp only [isTautology, Chain.any_eq, List.any_eq_true, contains_iff]
  rfl

/-- The valuation that makes a variable true if its negation is in the clause. -/
def opposition (c : Clause) : Valuation :=
  fun x => c.contains (.negative x)

/-- The literals that are in the clause without their negations are false. -/
theorem holds_opposition (hl : l ∈ c.toList) (hneg : l.negated ∉ c.toList) :
    l.holds c.opposition = false := by
  obtain ⟨polarity, x⟩ := l
  have hvalue : c.opposition x = !polarity := by
    rw [Bool.eq_iff_iff, opposition, contains_iff]
    cases polarity with
    | true => exact iff_of_false hneg nofun
    | false => exact iff_of_true hl rfl
  rw [Literal.holds, hvalue, Literal.evalWith]
  cases polarity <;> rfl

theorem holds_opposition_of_isTautology_eq_false (h : c.isTautology = false) (hl : l ∈ c.toList) :
    l.holds c.opposition = false := by
  refine holds_opposition hl fun hneg => ?_
  rw [isTautology_iff.2 ⟨l, hl, hneg⟩] at h
  exact absurd h nofun

theorem isTautology_iff_forall_holds :
    c.isTautology = true ↔ ∀ v : Valuation, c.holds v = true := by
  constructor
  · intro h v
    obtain ⟨l, hl, hneg⟩ := isTautology_iff.1 h
    cases hv : l.holds v with
    | true => exact holds_of_mem hl hv
    | false => exact holds_of_mem hneg (by rw [Literal.holds_negated, hv]; rfl)
  · intro h
    by_contra htaut
    have hfalse : c.holds c.opposition = false := holds_eq_false_iff.2 fun l hl =>
      holds_opposition_of_isTautology_eq_false (Bool.not_eq_true _ ▸ htaut) hl
    exact absurd ((h _).symm.trans hfalse) nofun

theorem evaluate_ne_some_false (h : c.isTautology = true) : c.evaluate e ≠ some false := fun he =>
  absurd ((isTautology_iff_forall_holds.1 h _).symm.trans
    (holds_of_evaluate he e.extends_valuation)) nofun

/-! ### Undecided clauses -/

theorem exists_extends_holds_eq_true (h : c.evaluate e ≠ some false) :
    ∃ v, e.Extends v ∧ c.holds v = true := by
  rw [ne_eq, evaluate_eq_some_false_iff] at h
  push Not at h
  obtain ⟨l, hl, hne⟩ := h
  -- A literal that is not false may be made true.
  refine ⟨e.completion fun _ => l.polarity, e.extends_completion _, holds_of_mem hl ?_⟩
  cases hvalue : e.literal? l with
  | none =>
    rw [Environment.holds_completion hvalue]
    exact Literal.holds_iff.2 rfl
  | some value =>
    rw [Environment.holds_of_literal? hvalue (e.extends_completion _)]
    simpa [hvalue] using hne

theorem exists_extends_holds_eq_false (htaut : c.isTautology = false)
    (h : c.evaluate e ≠ some true) : ∃ v, e.Extends v ∧ c.holds v = false := by
  refine ⟨e.completion c.opposition, e.extends_completion _, holds_eq_false_iff.2 fun l hl => ?_⟩
  cases hvalue : e.literal? l with
  | none =>
    rw [Environment.holds_completion hvalue, holds_opposition_of_isTautology_eq_false htaut hl]
  | some value =>
    cases value with
    | true => exact absurd (evaluate_eq_some_true_iff.2 ⟨l, hl, hvalue⟩) h
    | false => exact Environment.holds_of_literal? hvalue (e.extends_completion _)

/-- A value is possible unless the clause is decided to the other one. -/
theorem exists_extends_holds_eq (htaut : c.isTautology = false) (h : c.evaluate e ≠ some !b) :
    ∃ v, e.Extends v ∧ c.holds v = b := by
  cases b with
  | true => exact exists_extends_holds_eq_true h
  | false => exact exists_extends_holds_eq_false htaut h

theorem evaluate_eq_some_iff (htaut : c.isTautology = false) :
    c.evaluate e = some b ↔ ∀ v, e.Extends v → c.holds v = b := by
  refine ⟨fun h v => holds_of_evaluate h, fun h => ?_⟩
  by_contra hne
  obtain ⟨v, hv, hvalue⟩ := exists_extends_holds_eq (e := e) (b := !b) htaut (by simpa using hne)
  rw [h v hv] at hvalue
  exact absurd hvalue (by simp)

theorem evaluate_eq_none_iff (htaut : c.isTautology = false) :
    c.evaluate e = none ↔ ∀ b, ∃ v, e.Extends v ∧ c.holds v = b := by
  constructor
  · intro h b
    exact exists_extends_holds_eq htaut (by simp [h])
  · intro h
    cases he : c.evaluate e with
    | none => rfl
    | some b =>
      obtain ⟨v, hv, hvalue⟩ := h !b
      rw [holds_of_evaluate he hv] at hvalue
      exact absurd hvalue (by simp)

end Clause

theorem Formula.isSatisfiedBy_of_le {f : Formula} {e e' : Environment} (hle : e ≤ e')
    (h : f.isSatisfiedBy e = true) : f.isSatisfiedBy e' = true := by
  rw [isSatisfiedBy_iff] at h ⊢
  intro c hc
  have htrue : c.evaluate e = some true := eq_of_beq (h c hc)
  rw [Clause.isSatisfiedBy, Clause.evaluate_of_le hle htrue, beq_self_eq_true]

/-! ### Evaluation is exact -/

namespace Clause

/-- A clause has a literal together with its negation exactly if every valuation
    makes it true, and then it is never evaluated to false. Any other clause is
    evaluated to a value exactly if all valuations that extend the environment
    give it this value, and to neither exactly if both values are possible. The
    value of a clause stays the same when further bindings are made, and so a
    formula that is true stays true. -/
theorem evaluate_is_exact (c : Clause) :
    (c.isTautology = true ↔ ∀ v : Valuation, c.holds v = true) ∧
    (c.isTautology = false → ∀ e : Environment,
      (∀ b, c.evaluate e = some b ↔ ∀ v, e.Extends v → c.holds v = b) ∧
      (c.evaluate e = none ↔ ∀ b, ∃ v, e.Extends v ∧ c.holds v = b)) ∧
    (c.isTautology = true → ∀ e : Environment, c.evaluate e ≠ some false) ∧
    (∀ (e e' : Environment) (bs : List (Variable × Bool)), e.putAll bs = .ok e' →
      ∀ b, c.evaluate e = some b → c.evaluate e' = some b) ∧
    ∀ (f : Formula) (e e' : Environment) (bs : List (Variable × Bool)), e.putAll bs = .ok e' →
      f.isSatisfiedBy e = true → f.isSatisfiedBy e' = true := by
  refine ⟨isTautology_iff_forall_holds, fun htaut e => ⟨fun b => ?_, ?_⟩, fun htaut e => ?_,
    fun e e' bs h b => ?_, fun f e e' bs h => ?_⟩
  · exact evaluate_eq_some_iff htaut
  · exact evaluate_eq_none_iff htaut
  · exact evaluate_ne_some_false htaut
  · exact evaluate_of_le (Environment.le_of_putAll h)
  · exact Formula.isSatisfiedBy_of_le (Environment.le_of_putAll h)

/-- The clause that `a` holds if `b` does. -/
def implication : Clause :=
  .ofList [.named "a", .negative ⟨"b"⟩]

theorem evaluate_is_exact_implication :
    ∃ e e' e'' : Environment, e.put ⟨"a"⟩ false = .ok e' ∧ e'.put ⟨"c"⟩ true = .ok e'' ∧
      implication.evaluate e = none ∧ (∀ b, ∃ v, e.Extends v ∧ implication.holds v = b) ∧
      (∀ v, e'.Extends v → implication.holds v = false) ∧
      implication.evaluate e'' = some false := by
  let e : Environment := ⟨.ofList [(⟨"b"⟩, true)], by decide⟩
  let e' : Environment := ⟨.ofList [(⟨"a"⟩, false), (⟨"b"⟩, true)], by decide⟩
  let e'' : Environment := ⟨.ofList [(⟨"c"⟩, true), (⟨"a"⟩, false), (⟨"b"⟩, true)], by decide⟩
  have hput : e'.putAll [(⟨"c"⟩, true)] = .ok e'' := by decide
  have hnone : implication.evaluate e = none := by decide
  have hfalse : implication.evaluate e' = some false := by decide
  have htaut : implication.isTautology = false := by decide
  obtain ⟨_, hexact, _, hstays, _⟩ := evaluate_is_exact implication
  exact ⟨e, e', e'', by decide, hput, hnone, (hexact htaut e).2.1 hnone,
    ((hexact htaut e').1 false).1 hfalse, hstays e' e'' _ hput false hfalse⟩

end Clause

end GridSat
