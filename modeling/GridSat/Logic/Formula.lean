import GridSat.Distinct
import GridSat.Logic.Clause

/-!
# Formulas

A *formula* is a conjunction of clauses. It is a chain: a clause is added in
front, and repeated clauses are kept. The empty formula is true, and a formula
with the empty clause is false.

The connectives give formulas of the same form: `and` joins the clauses, `or`
distributes, and `not` negates the literals of each clause and distributes.
`Formula.substitute` takes a literal as true in every clause.
-/

namespace GridSat

/-- A conjunction of clauses. -/
structure Formula where
  /-- The clauses, newest first. -/
  clauses : Chain Clause
deriving DecidableEq

namespace Formula

/-- The formula without clauses, which is true. -/
def empty : Formula :=
  ⟨.empty⟩

instance : Inhabited Formula := ⟨empty⟩

/-- The formula of a single clause. -/
def ofClause (c : Clause) : Formula :=
  ⟨.singleton c⟩

/-- The formula that a variable holds. -/
def ofVariable (x : Variable) : Formula :=
  ofClause (.singleton (.positive x))

/-- The formula of the empty clause only, which is false. -/
def contradiction : Formula :=
  ofClause .empty

/-- The formula of the clauses of a list, in the order of the list. -/
def ofList (clauses : List Clause) : Formula :=
  ⟨.ofList clauses⟩

/-- The clauses, newest first. -/
def toList (f : Formula) : List Clause :=
  f.clauses.toList

/-- Adds a clause in front. -/
def add (f : Formula) (c : Clause) : Formula :=
  ⟨f.clauses.add c⟩

/-- The number of clauses. -/
def length (f : Formula) : Nat :=
  f.clauses.length

/-- Whether there are no clauses. -/
def isEmpty (f : Formula) : Bool :=
  f.clauses.isEmpty

/-- Whether the empty clause is among the clauses. -/
def hasEmptyClause (f : Formula) : Bool :=
  f.clauses.any Clause.isEmpty

/-- Whether the empty clause is the only clause. -/
def isContradiction (f : Formula) : Bool :=
  f.length == 1 && f.hasEmptyClause

/-- The different variables, in order of first appearance. -/
def vars (f : Formula) : List Variable :=
  distinct (f.toList.flatMap fun c => c.toList.map Literal.var)

/-- The number of literals in all clauses of a list together. -/
def countLiterals : List Clause → Nat
  | [] => 0
  | c :: cs => c.length + countLiterals cs

/-- The number of literals in all clauses together. -/
def numLiterals (f : Formula) : Nat :=
  f.clauses.foldl (fun n c => n + c.length) 0

/-- Conjunction: the clauses of `g` in front of those of `f`. -/
def and (f g : Formula) : Formula :=
  ⟨f.clauses.append g.clauses⟩

/-- Disjunction, by distribution: every clause of `f` merged with every clause
    of `g`. A true operand absorbs the other one and a contradiction leaves it
    as it is. -/
def or (f g : Formula) : Formula :=
  if f.isEmpty || g.isEmpty then empty
  else if f.isContradiction then g
  else if g.isContradiction then f
  else ofList (f.toList.flatMap fun c => g.toList.map c.merge)

/-- The negation of a clause: a unit clause for the negation of each literal. -/
def negatedClause (c : Clause) : Formula :=
  ofList (c.toList.map fun l => .singleton l.negated)

/-- Negation: the disjunction of the negations of the clauses. -/
def not (f : Formula) : Formula :=
  f.clauses.foldl (fun g c => g.or (negatedClause c)) contradiction

/-- Takes `l` as true: clauses with `l` disappear, and its negation disappears
    from the others. -/
def substitute (f : Formula) (l : Literal) : Formula :=
  ⟨f.clauses.filterMap fun c => c.reduce l⟩

/-- Whether every clause has a true literal. -/
def isSatisfiedBy (f : Formula) (e : Environment) : Bool :=
  f.clauses.all fun c => c.isSatisfiedBy e

/-- The clauses in brackets, each on a line of its own. -/
def render (f : Formula) : String :=
  "Problem[" ++ String.join (f.toList.map fun c => "\n" ++ c.render) ++ "]"

/-! ### The list of clauses -/

/-- A formula is determined by its clauses. -/
@[ext] theorem ext {f g : Formula} (h : f.toList = g.toList) : f = g := by
  cases f
  cases g
  exact congrArg mk (Chain.ext h)

@[simp] theorem toList_empty : empty.toList = [] := rfl

@[simp] theorem toList_ofClause (c : Clause) : (ofClause c).toList = [c] := rfl

@[simp] theorem toList_ofList (cs : List Clause) : (ofList cs).toList = cs :=
  Chain.toList_ofList cs

@[simp] theorem toList_add (f : Formula) (c : Clause) : (f.add c).toList = c :: f.toList :=
  Chain.toList_add ..

@[simp] theorem length_toList (f : Formula) : f.toList.length = f.length :=
  Chain.length_toList _

theorem length_add (f : Formula) (c : Clause) : (f.add c).length = f.length + 1 := rfl

@[simp] theorem isEmpty_eq (f : Formula) : f.isEmpty = f.toList.isEmpty :=
  Chain.isEmpty_eq _

theorem hasEmptyClause_iff {f : Formula} : f.hasEmptyClause = true ↔ .empty ∈ f.toList := by
  simp only [hasEmptyClause, Chain.any_eq, List.any_eq_true, Clause.isEmpty_eq,
    List.isEmpty_iff]
  exact ⟨fun ⟨c, hc, h⟩ => (Clause.ext h : c = .empty) ▸ hc, fun h => ⟨_, h, rfl⟩⟩

@[simp] theorem toList_and (f g : Formula) : (f.and g).toList = g.toList ++ f.toList :=
  Chain.toList_append ..

@[simp] theorem toList_substitute (f : Formula) (l : Literal) :
    (f.substitute l).toList = f.toList.filterMap fun c => c.reduce l :=
  Chain.toList_filterMap ..

theorem vars_eq (f : Formula) :
    f.vars = (f.toList.flatMap fun c => c.toList.map Literal.var).eraseDups :=
  distinct_eq_eraseDups _

theorem foldl_length_eq (cs : List Clause) (n : Nat) :
    cs.foldl (fun n c => n + c.length) n = n + countLiterals cs := by
  induction cs generalizing n with
  | nil => rfl
  | cons c cs ih => rw [List.foldl_cons, ih, countLiterals, Nat.add_assoc]

theorem numLiterals_eq (f : Formula) : f.numLiterals = countLiterals f.toList := by
  rw [numLiterals, Chain.foldl_eq, foldl_length_eq, Nat.zero_add]
  rfl

theorem numLiterals_add (f : Formula) (c : Clause) :
    (f.add c).numLiterals = c.length + f.numLiterals := by
  rw [numLiterals_eq, numLiterals_eq, toList_add, countLiterals]

theorem countLiterals_append (cs ds : List Clause) :
    countLiterals (cs ++ ds) = countLiterals cs + countLiterals ds := by
  induction cs with
  | nil => rw [List.nil_append, countLiterals, Nat.zero_add]
  | cons c cs ih => rw [List.cons_append, countLiterals, countLiterals, ih, Nat.add_assoc]

end Formula

end GridSat
