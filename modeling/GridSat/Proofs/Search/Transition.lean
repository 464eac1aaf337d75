import GridSat.Search.Solver
import GridSat.Proofs.Logic.Truth
import GridSat.Proofs.Search.Choice

/-!
# The search as a transition system

What a formula calls for (`Formula.CallsFor`), and from it what the machine can
do in one step (`Machine.Step`) and how it can end (`Machine.Ends`). A formula
with clauses left, none of them empty, always offers a literal, so the machine
is never stuck.

The states of the machine on the way are the `Machine.Reachable` ones: the
start, and whatever a step leads to. A search ends in one of them
(`Formula.exists_ends_search`), so whatever the start has and every step keeps
can be used of the outcome.
-/

namespace GridSat

/-! ### Moves -/

namespace Formula

variable {f : Formula} {l : Literal}

/-- All that a formula can call for, with the reason in each case. -/
inductive CallsFor (f : Formula) : Move → Prop
  | success : f.toList = [] → CallsFor f .success
  | conflict : .empty ∈ f.toList → CallsFor f .conflict
  | force {l : Literal} : .empty ∉ f.toList → f.shortestClause? = some (.singleton l) →
      CallsFor f (.force l)
  | branch {c : Clause} {l : Literal} : .empty ∉ f.toList → f.shortestClause? = some c →
      c.toList.head? = some l → c.length ≠ 1 → CallsFor f (.branch l)

/-- Clauses that are left, none of them empty, offer a literal: a formula never
    leaves the search without a move. -/
theorem callsFor_move (f : Formula) : f.CallsFor f.move := by
  by_cases hnil : f.toList = []
  · rw [move_eq_success hnil]
    exact .success hnil
  by_cases hempty : .empty ∈ f.toList
  · rw [move_eq_conflict hempty]
    exact .conflict hempty
  have hshortest := shortestClause?_eq_some_shortest hnil hempty
  have hhead : (f.shortest hnil).toList.head? = some (f.pick hnil hempty) :=
    List.head?_eq_some_head _
  rw [move_eq_of_ne_nil hnil hempty]
  split
  · next hunit =>
    -- A unit clause is the clause of its first literal.
    obtain ⟨l, hl⟩ := List.length_eq_one_iff.1 ((Clause.length_toList _).trans hunit)
    obtain rfl : l = f.pick hnil hempty := by simpa [hl] using hhead
    exact .force hempty ((Clause.ext hl : f.shortest hnil = .singleton _) ▸ hshortest)
  · next hunit => exact .branch hempty hshortest hhead hunit

theorem move_ne_stuck (f : Formula) : f.move ≠ .stuck := fun h => by
  cases h ▸ f.callsFor_move

theorem toList_eq_nil_of_move (h : f.move = .success) : f.toList = [] := by
  cases h ▸ f.callsFor_move with
  | success hnil => exact hnil

theorem empty_mem_of_move (h : f.move = .conflict) : .empty ∈ f.toList := by
  cases h ▸ f.callsFor_move with
  | conflict hempty => exact hempty

/-- A forced literal stands alone in some clause. -/
theorem singleton_mem_of_move (h : f.move = .force l) : .singleton l ∈ f.toList := by
  cases h ▸ f.callsFor_move with
  | force _ hshortest => exact mem_of_shortestClause? hshortest

theorem mem_vars_of_move (h : f.move = .force l ∨ f.move = .branch l) : l.var ∈ f.vars := by
  obtain ⟨c, hc, hl⟩ := exists_mem_of_move h
  exact mem_vars_iff.2 ⟨c, hc, l, hl, rfl⟩

end Formula

/-! ### Steps and ends -/

namespace Machine

variable {f : Formula} {m m' : Machine} {outcome : Outcome}

/-- What the machine does with the state on top of its stack. -/
inductive Step : Machine → Machine → Prop
  | conflict {frame : Frame} {rest : List Frame} {stats : Stats} {log : List Event}
      {env : Environment} :
      frame.bound = .ok env → frame.settled.move = .conflict →
      Step ⟨frame :: rest, stats, log⟩
        ⟨rest, (stats.visit frame.depth).conflict, .conflict frame.depth :: log⟩
  | force {frame : Frame} {rest : List Frame} {stats : Stats} {log : List Event}
      {env : Environment} {l : Literal} :
      frame.bound = .ok env → frame.settled.move = .force l →
      Step ⟨frame :: rest, stats, log⟩
        ⟨⟨frame.settled, env, some l, frame.depth + 1⟩ :: rest,
          (stats.visit frame.depth).propagation, log⟩
  | branch {frame : Frame} {rest : List Frame} {stats : Stats} {log : List Event}
      {env : Environment} {l : Literal} :
      frame.bound = .ok env → frame.settled.move = .branch l →
      Step ⟨frame :: rest, stats, log⟩
        ⟨⟨frame.settled, env, some l, frame.depth + 1⟩ ::
            ⟨frame.settled, env, some l.negated, frame.depth + 1⟩ :: rest,
          (stats.visit frame.depth).decision, .decided l frame.depth :: log⟩

/-- How the machine comes to an end. -/
inductive Ends : Machine → Outcome → Prop
  | exhausted {stats : Stats} {log : List Event} :
      Ends ⟨[], stats, log⟩ ⟨.unsatisfiable, stats, (.unsatisfiable stats :: log).reverse⟩
  | rebound {frame : Frame} {rest : List Frame} {stats : Stats} {log : List Event}
      {error : Rebinding} :
      frame.bound = .error error →
      Ends ⟨frame :: rest, stats, log⟩ ⟨.rebound error, stats, log.reverse⟩
  | model {frame : Frame} {rest : List Frame} {stats : Stats} {log : List Event}
      {env : Environment} :
      frame.bound = .ok env → frame.settled.move = .success →
      Ends ⟨frame :: rest, stats, log⟩ ⟨.model env, stats.visit frame.depth,
        (.satisfiable (stats.visit frame.depth) :: log).reverse⟩

theorem step_eq_more_iff : m.step = .more m' ↔ m.Step m' := by
  constructor
  · intro h
    obtain ⟨_ | ⟨frame, rest⟩, stats, log⟩ := m
    · simp [step] at h
    simp only [step] at h
    split at h
    · simp at h
    next env hbound =>
    split at h
    · simp at h
    · next hmove => exact Progress.more.inj h ▸ .conflict hbound hmove
    · next hmove => exact absurd hmove (Formula.move_ne_stuck _)
    · next l hmove => exact Progress.more.inj h ▸ .force hbound hmove
    · next l hmove => exact Progress.more.inj h ▸ .branch hbound hmove
  · intro h
    cases h with
    | conflict hbound hmove => simp [step, hbound, hmove]
    | force hbound hmove => simp [step, hbound, hmove]
    | branch hbound hmove => simp [step, hbound, hmove]

theorem step_eq_done_iff : m.step = .done outcome ↔ m.Ends outcome := by
  constructor
  · intro h
    obtain ⟨_ | ⟨frame, rest⟩, stats, log⟩ := m
    · exact Progress.done.inj h ▸ .exhausted
    simp only [step] at h
    split at h
    · next error hbound => exact Progress.done.inj h ▸ .rebound hbound
    next env hbound =>
    split at h
    · next hmove => exact Progress.done.inj h ▸ .model hbound hmove
    all_goals simp at h
  · intro h
    cases h with
    | exhausted => rfl
    | rebound hbound => simp [step, hbound]
    | model hbound hmove => simp [step, hbound, hmove]

/-! ### Runs -/

/-- The states of the machine in a search on `f`. -/
inductive Reachable (f : Formula) : Machine → Prop
  | start : Reachable f (start f)
  | step {m m' : Machine} : Reachable f m → m.step = .more m' → Reachable f m'

theorem run_eq_of_step (h : m.Step m') : m.run = m'.run := by
  have hstep := step_eq_more_iff.2 h
  rw [run]
  split
  · next m'' hstep' => rw [Progress.more.inj (hstep.symm.trans hstep')]
  · next hstep' => exact Progress.noConfusion (hstep.symm.trans hstep')

theorem run_eq_of_ends (h : m.Ends outcome) : m.run = outcome := by
  have hstep := step_eq_done_iff.2 h
  rw [run]
  split
  · next hstep' => exact Progress.noConfusion (hstep.symm.trans hstep')
  · next outcome' hstep' => exact Progress.done.inj (hstep'.symm.trans hstep)

/-- A run comes to an end in a state it can reach. -/
theorem Reachable.exists_ends_run (h : Reachable f m) :
    ∃ m', Reachable f m' ∧ m'.Ends m.run := by
  induction m using run.induct with
  | case1 m m' hstep ih =>
    rw [run_eq_of_step (step_eq_more_iff.1 hstep)]
    exact ih (h.step hstep)
  | case2 m outcome hstep =>
    have hends := step_eq_done_iff.1 hstep
    exact ⟨m, h, run_eq_of_ends hends ▸ hends⟩

end Machine

/-- A search ends in a state it can reach. -/
theorem Formula.exists_ends_search (f : Formula) :
    ∃ m, Machine.Reachable f m ∧ m.Ends f.search :=
  Machine.Reachable.start.exists_ends_run

end GridSat
