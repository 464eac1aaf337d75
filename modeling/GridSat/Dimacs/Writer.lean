import Std.Data.HashMap.Basic
import GridSat.Logic.Formula

/-!
# Writing DIMACS

The variables of a formula are numbered from one, in order of first appearance.
A comment for each variable gives its number and its name, a problem line gives
the numbers of variables and clauses, and every clause is a line of integers
that ends with a zero. Clauses and literals are written newest first.
-/

namespace GridSat.Dimacs

/-- The numbers of the variables, from one on. -/
def numbering (vars : List Variable) : Std.HashMap Variable Nat :=
  (vars.zipIdx 1).foldl (fun numbers (x, k) => numbers.insert x k) ∅

/-- The comment that names the variable of the given number. -/
def commentLine (x : Variable) (k : Nat) : String :=
  s!"c {k} {x.name}\n"

/-- The line with the numbers of variables and clauses. -/
def problemLine (vars clauses : Nat) : String :=
  s!"p cnf {vars} {clauses}\n"

/-- The integer of a literal. -/
def literalText (numbers : Std.HashMap Variable Nat) (l : Literal) : String :=
  let k := toString (numbers.getD l.var 0)
  if l.polarity then k else "-" ++ k

/-- The line of a clause. -/
def clauseLine (numbers : Std.HashMap Variable Nat) (c : Clause) : String :=
  String.intercalate " " (c.toList.map (literalText numbers) ++ ["0"]) ++ "\n"

/-- The text of a formula. -/
def write (f : Formula) : String :=
  let vars := f.vars
  let numbers := numbering vars
  String.join ((vars.zipIdx 1).map fun (x, k) => commentLine x k) ++
    problemLine vars.length f.length ++
    String.join (f.toList.map (clauseLine numbers))

end GridSat.Dimacs
