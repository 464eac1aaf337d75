import GridSat.Search.Event
import GridSat.Search.Move

/-!
# The search machine

The search keeps its pending states on a stack. A state (`Frame`) has the
clauses and the environment of the state it came from and the literal it
assumes, which is substituted and bound when the state is taken from the stack.
A forced literal gives one new state and a decision gives two, the negated
literal below the literal itself, so that the stack is emptied in the order in
which a recursive search would visit the states.

`Machine.step` handles one state, and `Machine.run` repeats it to the end. It
comes to an end because the literal of a move stands in the clauses, and so
both ways of assuming it leave fewer literals: weighing a state by the power of
three of the literals it has left, two new states weigh less than the state
they came from (`Machine.weight_lt_of_step`).
-/

namespace GridSat

/-- A pending state of the search. -/
structure Frame where
  /-- The clauses left at the state it came from. -/
  clauses : Formula
  /-- The bindings made up to there. -/
  env : Environment
  /-- The literal to assume; none only at the root. -/
  assumed : Option Literal
  /-- The number of literals assumed, this one included. -/
  depth : Nat

namespace Frame

/-- The clauses left once the literal is assumed. -/
def settled (frame : Frame) : Formula :=
  match frame.assumed with
  | none => frame.clauses
  | some l => frame.clauses.substitute l

/-- The bindings once the literal is assumed. -/
def bound (frame : Frame) : Except Rebinding Environment :=
  match frame.assumed with
  | none => .ok frame.env
  | some l => frame.env.assign l

end Frame

/-- How a search ends. -/
inductive Verdict where
  /-- An environment makes every clause true. -/
  | model (env : Environment)
  /-- There are no states left. -/
  | unsatisfiable
  /-- A literal was to be assumed against the bindings of its state. -/
  | rebound (error : Rebinding)
deriving DecidableEq

namespace Verdict

/-- The environment of a search that found one. -/
def model? : Verdict → Option Environment
  | model env => some env
  | unsatisfiable | rebound _ => none

end Verdict

/-- What a search leaves behind. -/
structure Outcome where
  /-- How it ended. -/
  verdict : Verdict
  /-- What it counted. -/
  stats : Stats
  /-- The log, oldest record first. -/
  log : List Event

/-- The search between two states. -/
structure Machine where
  /-- The pending states, the next one first. -/
  stack : List Frame
  /-- The counters so far. -/
  stats : Stats
  /-- The log so far, newest record first. -/
  log : List Event

/-- What a step leads to: a machine to go on with, or the end. -/
inductive Progress where
  | more (m : Machine)
  | done (outcome : Outcome)

namespace Machine

/-- The machine at the start of a search: the only pending state is the
    formula itself. -/
def start (f : Formula) : Machine where
  stack := [⟨f, .empty, none, 0⟩]
  stats := {}
  log := [.started f.length f.vars.length]

/-- Takes a state from the stack and makes the move its clauses call for. -/
def step (m : Machine) : Progress :=
  match m.stack with
  | [] => .done ⟨.unsatisfiable, m.stats, (.unsatisfiable m.stats :: m.log).reverse⟩
  | frame :: rest =>
    match frame.bound with
    | .error error => .done ⟨.rebound error, m.stats, m.log.reverse⟩
    | .ok env =>
      let clauses := frame.settled
      let stats := m.stats.visit frame.depth
      match clauses.move with
      | .success => .done ⟨.model env, stats, (.satisfiable stats :: m.log).reverse⟩
      | .conflict => .more ⟨rest, stats.conflict, .conflict frame.depth :: m.log⟩
      | .stuck => .more ⟨rest, stats, m.log⟩
      | .force l =>
        .more ⟨⟨clauses, env, some l, frame.depth + 1⟩ :: rest, stats.propagation, m.log⟩
      | .branch l =>
        .more ⟨⟨clauses, env, some l, frame.depth + 1⟩ ::
            ⟨clauses, env, some l.negated, frame.depth + 1⟩ :: rest,
          stats.decision, .decided l frame.depth :: m.log⟩

end Machine

/-! ### Assuming a literal leaves fewer literals -/

theorem Clause.length_le_of_reduce {c d : Clause} {l : Literal} (h : c.reduce l = some d) :
    d.length ≤ c.length := by
  rw [← length_toList, ← length_toList, (reduce_eq_some_iff.1 h).2]
  exact List.length_filter_le ..

theorem Clause.length_lt_of_reduce {c d : Clause} {l : Literal} (h : c.reduce l = some d)
    (hl : l.negated ∈ c.toList) : d.length < c.length := by
  rw [← length_toList, ← length_toList, (reduce_eq_some_iff.1 h).2]
  exact List.length_filter_lt_length_iff_exists.2 ⟨_, hl, by simp⟩

theorem Formula.countLiterals_reduce_le (cs : List Clause) (l : Literal) :
    countLiterals (cs.filterMap fun c => c.reduce l) ≤ countLiterals cs := by
  induction cs with
  | nil => exact Nat.le_refl _
  | cons c cs ih =>
    rw [List.filterMap_cons, countLiterals]
    split
    · omega
    · next d hd =>
      have := Clause.length_le_of_reduce hd
      rw [countLiterals]
      omega

/-- A literal that occurs, itself or negated, is gone after the substitution. -/
theorem Formula.numLiterals_substitute_lt {f : Formula} {l : Literal}
    (h : ∃ c ∈ f.toList, l ∈ c.toList ∨ l.negated ∈ c.toList) :
    (f.substitute l).numLiterals < f.numLiterals := by
  obtain ⟨c, hc, hl⟩ := h
  obtain ⟨before, after, heq⟩ := List.append_of_mem hc
  have hb := countLiterals_reduce_le before l
  have ha := countLiterals_reduce_le after l
  rw [numLiterals_eq, numLiterals_eq, toList_substitute, heq, List.filterMap_append,
    List.filterMap_cons, countLiterals_append, countLiterals_append, countLiterals]
  split
  · -- The clause holds the literal and disappears.
    next hnone =>
    have : 0 < c.length := by
      rw [← Clause.length_toList]
      exact List.length_pos_of_mem (Clause.reduce_eq_none_iff.1 hnone)
    omega
  · -- The clause holds the negation only and becomes shorter.
    next d hd =>
    have : d.length < c.length :=
      Clause.length_lt_of_reduce hd (hl.resolve_left (Clause.reduce_eq_some_iff.1 hd).1)
    rw [countLiterals]
    omega

namespace Machine

/-- The weight of a pending state, from the literals it will have left. -/
def frameWeight (frame : Frame) : Nat :=
  Nat.pow 3 frame.settled.numLiterals

/-- The weight of pending states. -/
def stackWeight : List Frame → Nat
  | [] => 0
  | frame :: stack => frameWeight frame + stackWeight stack

/-- The weight of all pending states. -/
def weight (m : Machine) : Nat :=
  stackWeight m.stack

theorem frameWeight_pos (frame : Frame) : 0 < frameWeight frame :=
  Nat.pow_pos (by decide)

/-- Assuming a literal of the clauses, or its negation, makes a state that
    weighs at most a third. -/
theorem frameWeight_assumed {frame : Frame} (env : Environment) (l : Literal) (depth : Nat)
    (h : ∃ c ∈ frame.settled.toList, l ∈ c.toList ∨ l.negated ∈ c.toList) :
    3 * frameWeight ⟨frame.settled, env, some l, depth⟩ ≤ frameWeight frame := by
  have hlt := Formula.numLiterals_substitute_lt h
  have hpow : Nat.pow 3 (frame.settled.substitute l).numLiterals * 3 ≤
      Nat.pow 3 frame.settled.numLiterals :=
    Nat.pow_le_pow_right (Nat.succ_pos 2) hlt
  rw [Nat.mul_comm]
  exact hpow

/-- Every step makes the stack lighter. -/
theorem weight_lt_of_step {m m' : Machine} (h : m.step = .more m') : m'.weight < m.weight := by
  obtain ⟨stack, stats, log⟩ := m
  match stack with
  | [] => simp [step] at h
  | frame :: rest =>
    have hpos := frameWeight_pos frame
    simp only [step] at h
    split at h
    · simp at h
    next env _ =>
    split at h
    · simp at h
    · -- A conflict takes the state away.
      cases h
      simp only [weight, stackWeight]
      omega
    · cases h
      simp only [weight, stackWeight]
      omega
    · -- A forced literal leaves one state in its place.
      next l hmove =>
      obtain ⟨c, hc, hl⟩ := Formula.exists_mem_of_move (.inl hmove)
      cases h
      have := frameWeight_assumed env l (frame.depth + 1) ⟨c, hc, .inl hl⟩
      simp only [weight, stackWeight]
      omega
    · -- A decision leaves two, and each of them weighs at most a third.
      next l hmove =>
      obtain ⟨c, hc, hl⟩ := Formula.exists_mem_of_move (.inr hmove)
      cases h
      have h₁ := frameWeight_assumed env l (frame.depth + 1) ⟨c, hc, .inl hl⟩
      have h₂ := frameWeight_assumed env l.negated (frame.depth + 1)
        ⟨c, hc, .inr (by simpa using hl)⟩
      simp only [weight, stackWeight]
      omega

/-- Runs the machine to the end. -/
def run (m : Machine) : Outcome :=
  match _h : m.step with
  | .more m' => run m'
  | .done outcome => outcome
termination_by m.weight
decreasing_by exact weight_lt_of_step _h

end Machine

end GridSat
