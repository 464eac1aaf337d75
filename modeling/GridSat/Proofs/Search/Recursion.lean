import GridSat.Proofs.Search.Choice
import GridSat.Proofs.Search.Satisfiability

/-!
# The search as a recursion

A recursive search (`Formula.explore`) is given clauses, an environment and a
depth. It succeeds if there are no clauses and fails if one is empty. Otherwise
it takes a literal and calls itself with the literal assumed; if the literal was
not forced and the call fails, it calls itself once more with the negation. It
gives its verdict and the states it visited on the way, in order.

The machine does the same with its stack. What lies below a state on the stack
is what remains to be done if that state leads to nothing: to run the machine
with a state on top is to explore the state and, should that fail, to run the
rest (`Machine.follows`). The counters and the log of a search are those of the
visits of the recursion (`Formula.search_eq_explore`).
-/

namespace GridSat

/-! ### Visits -/

/-- What a search does at a state it visits, and how deep. -/
inductive Visit where
  /-- No clauses are left. -/
  | success (depth : Nat)
  /-- Some clause is empty. -/
  | conflict (depth : Nat)
  /-- The literal of a unit clause is assumed. -/
  | propagation (l : Literal) (depth : Nat)
  /-- A literal is tried, and its negation after it. -/
  | decision (l : Literal) (depth : Nat)

namespace Visit

/-- The depth of the state. -/
def depth : Visit → Nat
  | success depth | conflict depth | propagation _ depth | decision _ depth => depth

/-- Whether a literal is tried. -/
def isDecision : Visit → Bool
  | decision .. => true
  | _ => false

/-- Whether a literal is forced. -/
def isPropagation : Visit → Bool
  | propagation .. => true
  | _ => false

/-- Whether some clause is empty. -/
def isConflict : Visit → Bool
  | conflict _ => true
  | _ => false

/-- The record of the visit in the log, if it leaves one. -/
def event? : Visit → Option Event
  | conflict depth => some (.conflict depth)
  | decision l depth => some (.decided l depth)
  | success _ | propagation .. => none

end Visit

/-- The counters of a list of visits. -/
def Stats.ofVisits (visits : List Visit) : Stats where
  decisions := visits.countP Visit.isDecision
  propagations := visits.countP Visit.isPropagation
  conflicts := visits.countP Visit.isConflict
  maxDepth := (visits.map Visit.depth).foldr max 0

/-- What a recursive search comes to. -/
structure Exploration where
  /-- How it ended. -/
  verdict : Verdict
  /-- The states it visited, in order. -/
  visits : List Visit

namespace Exploration

/-- The exploration with a visit before it. -/
def after (visit : Visit) (r : Exploration) : Exploration :=
  { r with visits := visit :: r.visits }

/-- Goes on with the environment, if the literal could be assumed. -/
def assuming (bound : Except Rebinding Environment) (next : Environment → Exploration) :
    Exploration :=
  match bound with
  | .error error => ⟨.rebound error, []⟩
  | .ok env => next env

/-- The first exploration, followed by the second one if the first one fails. -/
def orElse (first : Exploration) (second : Unit → Exploration) : Exploration :=
  match first.verdict with
  | .unsatisfiable => ⟨(second ()).verdict, first.visits ++ (second ()).visits⟩
  | .model _ | .rebound _ => first

end Exploration

/-! ### The recursion -/

namespace Formula

variable {f : Formula}

theorem numLiterals_substitute_pick_lt (h : f.toList ≠ []) (hempty : .empty ∉ f.toList) :
    (f.substitute (f.pick h hempty)).numLiterals < f.numLiterals :=
  numLiterals_substitute_lt ⟨_, shortest_mem h, .inl (pick_mem h hempty)⟩

theorem numLiterals_substitute_negated_pick_lt (h : f.toList ≠ []) (hempty : .empty ∉ f.toList) :
    (f.substitute (f.pick h hempty).negated).numLiterals < f.numLiterals :=
  numLiterals_substitute_lt ⟨_, shortest_mem h, .inr (by simpa using pick_mem h hempty)⟩

/-- The recursive search. -/
def explore (clauses : Formula) (env : Environment) (depth : Nat) : Exploration :=
  if hnil : clauses.toList = [] then ⟨.model env, [.success depth]⟩
  else if hempty : .empty ∈ clauses.toList then ⟨.unsatisfiable, [.conflict depth]⟩
  else
    if (clauses.shortest hnil).length = 1 then
      .after (.propagation (clauses.pick hnil hempty) depth) <|
        .assuming (env.assign (clauses.pick hnil hempty)) fun env' =>
          explore (clauses.substitute (clauses.pick hnil hempty)) env' (depth + 1)
    else
      .after (.decision (clauses.pick hnil hempty) depth) <|
        .orElse
          (.assuming (env.assign (clauses.pick hnil hempty)) fun env' =>
            explore (clauses.substitute (clauses.pick hnil hempty)) env' (depth + 1))
          fun _ => .assuming (env.assign (clauses.pick hnil hempty).negated) fun env' =>
            explore (clauses.substitute (clauses.pick hnil hempty).negated) env' (depth + 1)
termination_by clauses.numLiterals
decreasing_by
  · exact numLiterals_substitute_pick_lt hnil hempty
  · exact numLiterals_substitute_pick_lt hnil hempty
  · exact numLiterals_substitute_negated_pick_lt hnil hempty

end Formula

/-! ### Running the machine -/

namespace Visit

/-- Counts the visit. -/
def count (stats : Stats) (visit : Visit) : Stats :=
  match visit with
  | success depth => stats.visit depth
  | conflict depth => (stats.visit depth).conflict
  | propagation _ depth => (stats.visit depth).propagation
  | decision _ depth => (stats.visit depth).decision

theorem foldl_count (visits : List Visit) (stats : Stats) : visits.foldl count stats =
    ⟨stats.decisions + visits.countP isDecision,
      stats.propagations + visits.countP isPropagation,
      stats.conflicts + visits.countP isConflict,
      max stats.maxDepth ((visits.map depth).foldr max 0)⟩ := by
  induction visits generalizing stats with
  | nil => simp
  | cons visit visits ih =>
    rw [List.foldl_cons, ih]
    cases visit <;>
      simp [count, depth, isDecision, isPropagation, isConflict, Stats.visit, Stats.conflict,
        Stats.propagation, Stats.decision, List.countP_cons, Nat.max_assoc, Nat.add_comm,
        Nat.add_left_comm]

end Visit

namespace Machine

variable {m : Machine} {frame : Frame} {env : Environment}

/-- The machine with one more pending state on top. -/
def push (m : Machine) (frame : Frame) : Machine :=
  { m with stack := frame :: m.stack }

/-- The machine with the visits counted and recorded. -/
def record (m : Machine) (visits : List Visit) : Machine where
  stack := m.stack
  stats := visits.foldl Visit.count m.stats
  log := (visits.filterMap Visit.event?).reverse ++ m.log

/-- How a run ends that explores a state first: with the model it has found, or
    else with what the pending states lead to. -/
def resume (m : Machine) (r : Exploration) : Outcome :=
  let m' := m.record r.visits
  match r.verdict with
  | .unsatisfiable => m'.run
  | .model env => ⟨.model env, m'.stats, (.satisfiable m'.stats :: m'.log).reverse⟩
  | .rebound error => ⟨.rebound error, m'.stats, m'.log.reverse⟩

theorem record_record (m : Machine) (visits visits' : List Visit) :
    (m.record visits).record visits' = m.record (visits ++ visits') := by
  simp [record]

theorem resume_after (m : Machine) (visit : Visit) (r : Exploration) :
    m.resume (.after visit r) = (m.record [visit]).resume r := by
  simp only [resume, Exploration.after, record_record, List.singleton_append]

/-- To go on with a second exploration when the first one fails is to have its
    state pending meanwhile. -/
theorem resume_orElse {first : Exploration} {second : Unit → Exploration}
    (h : ∀ m : Machine, (m.push frame).run = m.resume (second ())) :
    m.resume (first.orElse second) = (m.push frame).resume first := by
  obtain ⟨verdict, visits⟩ := first
  cases verdict with
  | unsatisfiable =>
    have hpush : (m.push frame).record visits = (m.record visits).push frame := rfl
    simp only [resume, Exploration.orElse, hpush, h, record_record]
  | model env => rfl
  | rebound error => rfl

theorem run_push_force {l : Literal} (hbound : frame.bound = .ok env)
    (hmove : frame.settled.move = .force l) : (m.push frame).run =
      ((m.record [.propagation l frame.depth]).push
        ⟨frame.settled, env, some l, frame.depth + 1⟩).run :=
  run_eq_of_step (.force hbound hmove)

theorem run_push_branch {l : Literal} (hbound : frame.bound = .ok env)
    (hmove : frame.settled.move = .branch l) : (m.push frame).run =
      (((m.record [.decision l frame.depth]).push
        ⟨frame.settled, env, some l.negated, frame.depth + 1⟩).push
          ⟨frame.settled, env, some l, frame.depth + 1⟩).run :=
  run_eq_of_step (.branch hbound hmove)

/-- At a state with these clauses, bindings and depth, the machine does what the
    recursion does, whatever else is pending. -/
def Follows (clauses : Formula) (env : Environment) (depth : Nat) : Prop :=
  ∀ (m : Machine) (frame : Frame), frame.settled = clauses → frame.bound = .ok env →
    frame.depth = depth → (m.push frame).run = m.resume (clauses.explore env depth)

/-- Then it also does so at a state that is still to bind its literal. -/
theorem Follows.run_push {clauses : Formula} {l : Literal} {depth : Nat}
    (h : ∀ env', Follows (clauses.substitute l) env' depth) (m : Machine) (env : Environment) :
    (m.push ⟨clauses, env, some l, depth⟩).run =
      m.resume (.assuming (env.assign l) fun env' =>
        (clauses.substitute l).explore env' depth) := by
  cases hbound : env.assign l with
  | error error => exact run_eq_of_ends (.rebound hbound)
  | ok env' => exact h env' m ⟨clauses, env, some l, depth⟩ rfl hbound rfl

theorem follows (clauses : Formula) (env : Environment) (depth : Nat) :
    Follows clauses env depth := by
  induction clauses, env, depth using Formula.explore.induct with
  | case1 clauses env depth hnil =>
    rintro m frame rfl hbound rfl
    rw [Formula.explore, dif_pos hnil]
    exact run_eq_of_ends (.model hbound (Formula.move_eq_success hnil))
  | case2 clauses env depth hnil hempty =>
    rintro m frame rfl hbound rfl
    rw [Formula.explore, dif_neg hnil, dif_pos hempty]
    exact run_eq_of_step (.conflict hbound (Formula.move_eq_conflict hempty))
  | case3 clauses env depth hnil hempty hunit ih =>
    rintro m frame rfl hbound rfl
    have hmove := Formula.move_eq_of_ne_nil hnil hempty
    rw [if_pos hunit] at hmove
    rw [Formula.explore, dif_neg hnil, dif_neg hempty, if_pos hunit, resume_after]
    rw [run_push_force hbound hmove, Follows.run_push ih]
  | case4 clauses env depth hnil hempty hunit ih ih' =>
    rintro m frame rfl hbound rfl
    have hmove := Formula.move_eq_of_ne_nil hnil hempty
    rw [if_neg hunit] at hmove
    rw [Formula.explore, dif_neg hnil, dif_neg hempty, if_neg hunit, resume_after]
    -- The state of the negated literal waits below that of the literal.
    rw [run_push_branch hbound hmove, Follows.run_push ih,
      resume_orElse fun m => Follows.run_push ih' m env]

end Machine

/-! ### The search -/

/-- The last record of a search that ends in this way. -/
def Verdict.event? (stats : Stats) : Verdict → Option Event
  | model _ => some (.satisfiable stats)
  | unsatisfiable => some (.unsatisfiable stats)
  | rebound _ => none

/-- If nothing else is pending, the exploration decides how a run ends. -/
theorem Machine.resume_of_stack_eq_nil (stats : Stats) (log : List Event) (r : Exploration) :
    (⟨[], stats, log⟩ : Machine).resume r =
      ⟨r.verdict, r.visits.foldl Visit.count stats,
        log.reverse ++ r.visits.filterMap Visit.event? ++
          (r.verdict.event? (r.visits.foldl Visit.count stats)).toList⟩ := by
  obtain ⟨verdict, visits⟩ := r
  cases verdict with
  | unsatisfiable => exact (run_eq_of_ends .exhausted).trans (by simp [Verdict.event?])
  | model env => simp [resume, record, Verdict.event?]
  | rebound error => simp [resume, record, Verdict.event?]

/-- The machine with its stack and the recursion search alike: they come to the
    same verdict, with the same bindings in the same order, the counters of the
    search are the numbers of decisions, forced literals and conflicts among the
    visits of the recursion and their greatest depth, and between its first and
    its last record the log has the decisions and conflicts in the order of the
    visits. -/
theorem Formula.search_eq_explore (f : Formula) :
    f.search.verdict = (f.explore .empty 0).verdict ∧
      (∀ e, f.solve = some e ↔ (f.explore .empty 0).verdict = .model e) ∧
      (f.solve = none ↔ (f.explore .empty 0).verdict = .unsatisfiable) ∧
      f.search.stats = .ofVisits (f.explore .empty 0).visits ∧
      f.search.log = .started f.length f.vars.length ::
        ((f.explore .empty 0).visits.filterMap Visit.event? ++
          (f.search.verdict.event? f.search.stats).toList) := by
  -- The search is a run with the formula pending and nothing else.
  have hrun : f.search = (⟨[], {}, [.started f.length f.vars.length]⟩ : Machine).resume
      (f.explore .empty 0) :=
    Machine.follows f .empty 0 ⟨[], {}, _⟩ ⟨f, .empty, none, 0⟩ rfl rfl rfl
  rw [Machine.resume_of_stack_eq_nil] at hrun
  have hverdict : f.search.verdict = (f.explore .empty 0).verdict := by rw [hrun]
  refine ⟨hverdict, fun e => ?_, ?_, ?_, ?_⟩
  · rw [solve_eq_some_iff, hverdict]
  · rw [solve_eq_none_iff, ← verdict_eq_unsatisfiable_iff, hverdict]
  · rw [hrun, Visit.foldl_count]
    simp [Stats.ofVisits]
  · rw [hrun]
    rfl

end GridSat
