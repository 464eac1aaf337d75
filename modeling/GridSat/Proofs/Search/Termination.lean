import Mathlib.Algebra.Order.BigOperators.Group.List
import Mathlib.Algebra.Order.Ring.Nat
import GridSat.Proofs.Search.Satisfiability

/-!
# How long a search takes

A run that ends is a finite list of states taken from the stack, one after the
other (`Machine.Finishes`). Each of them puts at most two new states in its
place, and those have fewer variables left, as both ways of assuming a literal
take its variable away (`Machine.Step.exists_pushed`).

So a state with `k` variables left is worth at most `2 ^ (k + 1) - 1` states, the
size of a full binary tree of height `k` (`Frame.budget`). What the pending
states are worth together bounds the length of the rest of the run: taking a
state from the stack costs one, and what its new states are worth is paid by the
state itself (`Machine.Step.budget_lt`).
-/

namespace GridSat

/-! ### Runs that end -/

namespace Machine

variable {m m' : Machine} {outcome : Outcome} {popped : List Frame}

/-- The machine comes to the outcome after taking the given states from its
    stack. -/
inductive Finishes : Machine → List Frame → Outcome → Prop
  | exhausted {m : Machine} {outcome : Outcome} :
      m.stack = [] → m.step = .done outcome → Finishes m [] outcome
  | last {m : Machine} {frame : Frame} {rest : List Frame} {outcome : Outcome} :
      m.stack = frame :: rest → m.step = .done outcome → Finishes m [frame] outcome
  | next {m m' : Machine} {frame : Frame} {rest popped : List Frame} {outcome : Outcome} :
      m.stack = frame :: rest → m.step = .more m' → Finishes m' popped outcome →
      Finishes m (frame :: popped) outcome

/-- A step takes a state from the stack and puts at most two in its place, with
    fewer variables left. -/
theorem Step.exists_pushed (h : m.Step m') :
    ∃ frame rest pushed, m.stack = frame :: rest ∧ m'.stack = pushed ++ rest ∧
      pushed.length ≤ 2 ∧
      ∀ frame' ∈ pushed, frame'.settled.vars.length < frame.settled.vars.length := by
  cases h with
  | @conflict frame rest => exact ⟨frame, rest, [], rfl, rfl, Nat.zero_le _, nofun⟩
  | @force frame rest stats log env l hbound hmove =>
    have hlt := Formula.length_vars_substitute_lt (Formula.mem_vars_of_move (.inl hmove))
    refine ⟨frame, rest, [⟨frame.settled, env, some l, frame.depth + 1⟩], rfl, rfl,
      Nat.le_succ 1, ?_⟩
    exact List.forall_mem_singleton.2 hlt
  | @branch frame rest stats log env l hbound hmove =>
    have hvar : l.var ∈ frame.settled.vars := Formula.mem_vars_of_move (.inr hmove)
    refine ⟨frame, rest, [⟨frame.settled, env, some l, frame.depth + 1⟩,
      ⟨frame.settled, env, some l.negated, frame.depth + 1⟩], rfl, rfl, Nat.le_refl 2, ?_⟩
    refine List.forall_mem_cons.2 ⟨Formula.length_vars_substitute_lt hvar, ?_⟩
    -- The negated literal has the same variable.
    exact List.forall_mem_singleton.2 (Formula.length_vars_substitute_lt (l := l.negated) hvar)

theorem exists_finishes (m : Machine) : ∃ popped, m.Finishes popped m.run := by
  induction m using run.induct with
  | case1 m m' hstep ih =>
    obtain ⟨popped, hpopped⟩ := ih
    have hm := step_eq_more_iff.1 hstep
    obtain ⟨frame, rest, _, hstack, _⟩ := hm.exists_pushed
    rw [run_eq_of_step hm]
    exact ⟨frame :: popped, .next hstack hstep hpopped⟩
  | case2 m outcome hstep =>
    rw [run_eq_of_ends (step_eq_done_iff.1 hstep)]
    cases hstack : m.stack with
    | nil => exact ⟨[], .exhausted hstack hstep⟩
    | cons frame rest => exact ⟨[frame], .last hstack hstep⟩

theorem Finishes.run_eq (h : m.Finishes popped outcome) : m.run = outcome := by
  induction h with
  | exhausted _ hstep => exact run_eq_of_ends (step_eq_done_iff.1 hstep)
  | last _ hstep => exact run_eq_of_ends (step_eq_done_iff.1 hstep)
  | next _ hstep _ ih => exact (run_eq_of_step (step_eq_more_iff.1 hstep)).trans ih

end Machine

/-! ### What pending states are worth -/

/-- The most states that a pending state can lead to, itself included. -/
def Frame.budget (frame : Frame) : Nat :=
  2 ^ (frame.settled.vars.length + 1) - 1

namespace Frame

variable {frame frame' : Frame}

theorem budget_pos (frame : Frame) : 0 < frame.budget :=
  Nat.sub_pos_of_lt (Nat.one_lt_two_pow (Nat.succ_ne_zero _))

/-- A state with fewer variables left is worth less than half. -/
theorem budget_lt (h : frame'.settled.vars.length < frame.settled.vars.length) :
    2 * frame'.budget < frame.budget := by
  have hpow : 2 * 2 ^ (frame'.settled.vars.length + 1) ≤ 2 ^ (frame.settled.vars.length + 1) := by
    rw [← pow_succ']
    exact Nat.pow_le_pow_right Nat.two_pos (Nat.succ_le_succ h)
  have hpos : 0 < 2 ^ (frame'.settled.vars.length + 1) := Nat.two_pow_pos _
  simp only [budget]
  omega

end Frame

namespace Machine

variable {m m' : Machine} {outcome : Outcome} {popped : List Frame}

/-- The most states that the pending states can lead to. -/
def budget (m : Machine) : Nat :=
  (m.stack.map Frame.budget).sum

theorem Step.budget_lt (h : m.Step m') : m'.budget < m.budget := by
  obtain ⟨frame, rest, pushed, hstack, hstack', hlength, hfewer⟩ := h.exists_pushed
  have hhalf : ∀ b ∈ pushed.map Frame.budget, b ≤ (frame.budget - 1) / 2 := by
    refine List.forall_mem_map.2 fun frame' hframe' => ?_
    have := Frame.budget_lt (hfewer frame' hframe')
    omega
  have hpushed : (pushed.map Frame.budget).sum < frame.budget := by
    have hpos := frame.budget_pos
    calc (pushed.map Frame.budget).sum
        ≤ pushed.length * ((frame.budget - 1) / 2) := by
          simpa using List.sum_le_card_nsmul _ _ hhalf
      _ ≤ 2 * ((frame.budget - 1) / 2) := Nat.mul_le_mul_right _ hlength
      _ < frame.budget := by omega
  rw [budget, budget, hstack, hstack', List.map_append, List.sum_append, List.map_cons,
    List.sum_cons]
  exact Nat.add_lt_add_right hpushed _

theorem Finishes.length_le (h : m.Finishes popped outcome) : popped.length ≤ m.budget := by
  induction h with
  | exhausted _ _ => exact Nat.zero_le _
  | @last m frame rest outcome hstack _ =>
    rw [budget, hstack, List.map_cons, List.sum_cons]
    exact Nat.le_add_right_of_le frame.budget_pos
  | next _ hstep _ ih => exact Nat.lt_of_le_of_lt ih (step_eq_more_iff.1 hstep).budget_lt

end Machine

namespace Formula

/-- Every search comes to an end, with a model or without one, and in every run
    of it the number of states taken from the stack is at most
    `2 ^ (v + 1) - 1`, where `v` is the number of different variables. This is
    because the states that a step puts on the stack have strictly fewer
    variables left, once their literal is assumed, than the state it took. -/
theorem search_finishes (f : Formula) :
    (∃ popped, (Machine.start f).Finishes popped f.search) ∧
    (∀ popped outcome, (Machine.start f).Finishes popped outcome →
      outcome = f.search ∧ popped.length ≤ 2 ^ (f.vars.length + 1) - 1) ∧
    (f.search.verdict = .unsatisfiable ∨ ∃ e, f.search.verdict = .model e) ∧
    ∀ m m' : Machine, m.step = .more m' → ∃ frame rest pushed, m.stack = frame :: rest ∧
      m'.stack = pushed ++ rest ∧
      ∀ frame' ∈ pushed, frame'.settled.vars.length < frame.settled.vars.length := by
  refine ⟨Machine.exists_finishes _, fun popped outcome h => ⟨h.run_eq.symm, h.length_le⟩, ?_,
    fun m m' hstep => ?_⟩
  · rcases f.search_cases with ⟨h, _⟩ | ⟨e, h, _⟩
    · exact .inl h
    · exact .inr ⟨e, h⟩
  · obtain ⟨frame, rest, pushed, hstack, hstack', _, hfewer⟩ :=
      (Machine.step_eq_more_iff.1 hstep).exists_pushed
    exact ⟨frame, rest, pushed, hstack, hstack', hfewer⟩

end Formula

end GridSat
