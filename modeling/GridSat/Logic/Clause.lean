import GridSat.Logic.Environment

/-!
# Clauses

A *clause* is a disjunction of literals. It is a chain: a literal is added in
front, and repeated literals are kept. The empty clause is false.

`Clause.reduce` is what a literal being true makes of a clause: nothing, if the
literal is in it, for then the clause is true, and otherwise the clause without
the negated literal.
-/

namespace GridSat

/-- A disjunction of literals. -/
structure Clause where
  /-- The literals, newest first. -/
  literals : Chain Literal
deriving DecidableEq

namespace Clause

/-- The clause without literals, which is false. -/
def empty : Clause :=
  ⟨.empty⟩

instance : Inhabited Clause := ⟨empty⟩

/-- The clause of a single literal. -/
def singleton (l : Literal) : Clause :=
  ⟨.singleton l⟩

/-- The clause of the literals of a list, in the order of the list. -/
def ofList (literals : List Literal) : Clause :=
  ⟨.ofList literals⟩

/-- The literals, newest first. -/
def toList (c : Clause) : List Literal :=
  c.literals.toList

/-- Adds a literal in front. -/
def add (c : Clause) (l : Literal) : Clause :=
  ⟨c.literals.add l⟩

/-- The number of literals, repeated ones included. -/
def length (c : Clause) : Nat :=
  c.literals.length

/-- Whether there are no literals. -/
def isEmpty (c : Clause) : Bool :=
  c.literals.isEmpty

/-- Whether there is exactly one literal. -/
def isUnit (c : Clause) : Bool :=
  c.length == 1

/-- Whether a literal is in the clause, with this sign. -/
def contains (c : Clause) (l : Literal) : Bool :=
  c.literals.contains l

/-- Whether some literal is in the clause together with its negation. -/
def isTautology (c : Clause) : Bool :=
  c.literals.any fun l => c.contains l.negated

/-- The literal to branch on: the newest one. -/
def choose? (c : Clause) : Option Literal :=
  c.literals.first?

/-- What is left of the clause once `l` holds: `none` if the clause holds too,
    and otherwise the clause without the negation of `l`. -/
@[inline] def reduce (c : Clause) (l : Literal) : Option Clause :=
  if c.contains l then none else some ⟨c.literals.remove l.negated⟩

/-- The disjunction of two clauses: the literals of `d` that are not in `c`
    are added to `c` one after the other. -/
def merge (c d : Clause) : Clause :=
  d.literals.foldl (fun merged l => if c.contains l then merged else merged.add l) c

/-- Goes through literals, given whether an undecided one was met: true at the
    first true literal, and at the end undecided or false. -/
def evaluateFrom (e : Environment) : List Literal → Bool → Option Bool
  | [], undecided => if undecided then none else some false
  | l :: ls, undecided =>
    match e.literal? l with
    | some true => some true
    | some false => evaluateFrom e ls undecided
    | none => evaluateFrom e ls true

/-- The value of the clause, as far as the environment decides it: true if
    some literal is true, false if all are false. -/
def evaluate (c : Clause) (e : Environment) : Option Bool :=
  evaluateFrom e c.toList false

/-- Whether some literal is true. -/
def isSatisfiedBy (c : Clause) (e : Environment) : Bool :=
  c.evaluate e == some true

/-- The literals in parentheses, with bars between them. -/
def render (c : Clause) : String :=
  "(" ++ String.intercalate " | " (c.toList.map Literal.render) ++ ")"

/-! ### The list of literals -/

/-- A clause is determined by its literals. -/
@[ext] theorem ext {c d : Clause} (h : c.toList = d.toList) : c = d := by
  cases c
  cases d
  exact congrArg mk (Chain.ext h)

@[simp] theorem toList_empty : empty.toList = [] := rfl

@[simp] theorem toList_singleton (l : Literal) : (singleton l).toList = [l] := rfl

@[simp] theorem toList_ofList (ls : List Literal) : (ofList ls).toList = ls :=
  Chain.toList_ofList ls

@[simp] theorem toList_add (c : Clause) (l : Literal) : (c.add l).toList = l :: c.toList :=
  Chain.toList_add ..

@[simp] theorem length_toList (c : Clause) : c.toList.length = c.length :=
  Chain.length_toList _

theorem length_add (c : Clause) (l : Literal) : (c.add l).length = c.length + 1 := rfl

@[simp] theorem isEmpty_eq (c : Clause) : c.isEmpty = c.toList.isEmpty :=
  Chain.isEmpty_eq _

@[simp] theorem contains_iff {c : Clause} {l : Literal} : c.contains l = true ↔ l ∈ c.toList :=
  Chain.contains_iff

@[simp] theorem choose?_eq (c : Clause) : c.choose? = c.toList.head? :=
  Chain.first?_eq _

theorem reduce_eq_none_iff {c : Clause} {l : Literal} : c.reduce l = none ↔ l ∈ c.toList := by
  rw [reduce]
  split <;> simp_all

theorem reduce_eq_some_iff {c d : Clause} {l : Literal} :
    c.reduce l = some d ↔ l ∉ c.toList ∧ d.toList = c.toList.filter fun m => !(m == l.negated) := by
  rw [reduce]
  split
  · simp_all
  · next h =>
    simp only [Option.some.injEq, Clause.ext_iff, toList, Chain.toList_remove]
    rw [contains_iff] at h
    exact ⟨fun e => ⟨h, e.symm⟩, fun e => e.2.symm⟩

theorem toList_foldl_add (c : Clause) (ls : List Literal) (merged : Clause) :
    (ls.foldl (fun merged l => if c.contains l then merged else merged.add l) merged).toList =
      (ls.filter fun l => !c.contains l).reverse ++ merged.toList := by
  induction ls generalizing merged with
  | nil => rfl
  | cons l ls ih =>
    rw [List.foldl_cons, ih]
    cases h : c.contains l <;> simp [h]

theorem toList_merge (c d : Clause) :
    (c.merge d).toList = (d.toList.filter fun l => !c.contains l).reverse ++ c.toList := by
  rw [merge, Chain.foldl_eq]
  exact toList_foldl_add c d.toList c

end Clause

end GridSat
