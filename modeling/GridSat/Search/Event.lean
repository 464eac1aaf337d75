import GridSat.Logic.Literal

/-!
# Counters and events of a search

A search counts what it does (`Stats`) and keeps a log of its decisions and
conflicts between an opening and a closing record (`Event`).
-/

namespace GridSat

/-- The counters of a search. -/
structure Stats where
  /-- Literals tried without being forced. -/
  decisions : Nat := 0
  /-- Literals forced by a unit clause. -/
  propagations : Nat := 0
  /-- States abandoned because they held the empty clause. -/
  conflicts : Nat := 0
  /-- The greatest depth of a state, counted in assumed literals. -/
  maxDepth : Nat := 0
deriving DecidableEq

namespace Stats

/-- Takes note of a state at the given depth. -/
def visit (s : Stats) (depth : Nat) : Stats :=
  { s with maxDepth := max s.maxDepth depth }

/-- Counts a decision. -/
def decision (s : Stats) : Stats :=
  { s with decisions := s.decisions + 1 }

/-- Counts a forced literal. -/
def propagation (s : Stats) : Stats :=
  { s with propagations := s.propagations + 1 }

/-- Counts a conflict. -/
def conflict (s : Stats) : Stats :=
  { s with conflicts := s.conflicts + 1 }

/-- The four counters on one line. -/
def render (s : Stats) : String :=
  s!"decisions: {s.decisions}, propagations: {s.propagations}, " ++
    s!"conflicts: {s.conflicts}, max depth: {s.maxDepth}"

end Stats

/-- A record in the log of a search. -/
inductive Event where
  /-- The search begins on so many clauses and variables. -/
  | started (clauses vars : Nat)
  /-- A literal is tried at a state of the given depth. -/
  | decided (literal : Literal) (depth : Nat)
  /-- The state at the given depth holds the empty clause. -/
  | conflict (depth : Nat)
  /-- The search ends with a model. -/
  | satisfiable (stats : Stats)
  /-- The search ends without a model. -/
  | unsatisfiable (stats : Stats)
deriving DecidableEq

namespace Event

/-- How much detail has to be asked for to see a record. -/
def level : Event → String
  | decided .. | conflict .. => "TRACE"
  | started .. | satisfiable .. | unsatisfiable .. => "DEBUG"

/-- The text of a record. -/
def message : Event → String
  | started clauses vars => s!"solving {clauses} clauses over {vars} variables"
  | decided literal depth => s!"decide {literal.render} at depth {depth}"
  | conflict depth => s!"conflict at depth {depth}"
  | satisfiable stats => s!"satisfiable ({stats.render})"
  | unsatisfiable stats => s!"unsatisfiable ({stats.render})"

/-- A record with its level in front. -/
def render (e : Event) : String :=
  s!"{e.level} {e.message}"

end Event

end GridSat
