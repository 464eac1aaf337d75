import GridSat.Logic.Formula

/-!
# Valuations

A *valuation* gives a value to every variable. It makes every literal, clause
and formula true or false, and a formula is *satisfiable* if some valuation
makes it true. An environment is a valuation known in part: a valuation
*extends* it if it agrees with all of its bindings.
-/

namespace GridSat

/-- A value for every variable. -/
abbrev Valuation := Variable → Bool

/-- Whether a valuation makes a literal true. -/
def Literal.holds (l : Literal) (v : Valuation) : Bool :=
  l.evalWith (v l.var)

/-- Whether a valuation makes some literal of a clause true. -/
def Clause.holds (c : Clause) (v : Valuation) : Bool :=
  c.toList.any (·.holds v)

/-- Whether a valuation makes every clause of a formula true. -/
def Formula.holds (f : Formula) (v : Valuation) : Bool :=
  f.toList.all (·.holds v)

/-- Some valuation makes the formula true. -/
def Formula.Satisfiable (f : Formula) : Prop :=
  ∃ v : Valuation, f.holds v = true

/-- The valuation agrees with every binding of the environment. -/
def Environment.Extends (e : Environment) (v : Valuation) : Prop :=
  ∀ b ∈ e.toList, v b.1 = b.2

theorem Literal.holds_negated (l : Literal) (v : Valuation) : l.negated.holds v = !l.holds v :=
  l.evalWith_negated _

end GridSat
