import GridSat.Proofs.Search.Choice
import GridSat.Proofs.Search.Satisfiability

/-!
# What the counters tell

A decision leaves one more state on the stack, a conflict one less, and a forced
literal as many as there were. So the counters tell how many states are pending
(`Machine.Reachable.length_stack`): there are decisions whose other side has not
been looked at yet, unless there were as many conflicts.

When a search ends with a model after as many conflicts as decisions, nothing is
pending any more. As some pending state admits every model of the formula, it
was the last one, and all models have its bindings
(`Formula.extends_of_conflicts_eq_decisions`).

The counters and the log are kept in step (`Machine.Balanced`): there is a record
for each decision and each conflict, and a state at depth `d` has `d` decisions
and forced literals before it. As every level of a state binds a variable of its
own, no state is deeper than the formula has variables. What this makes of the
counters at the end is `Formula.search_accounting`. In a search without decisions
they are all decided by the number of bindings
(`Formula.counters_of_decisions_eq_zero`).
-/

namespace GridSat

namespace Machine

variable {f : Formula} {m m' : Machine}

theorem Step.length_stack (h : m.Step m')
    (hm : m.stack.length + m.stats.conflicts = m.stats.decisions + 1) :
    m'.stack.length + m'.stats.conflicts = m'.stats.decisions + 1 := by
  cases h with
  | conflict _ _ =>
    simp only [List.length_cons, Stats.visit, Stats.conflict] at hm ⊢
    omega
  | force _ _ =>
    simp only [List.length_cons, Stats.visit, Stats.propagation] at hm ⊢
    omega
  | branch _ _ =>
    simp only [List.length_cons, Stats.visit, Stats.decision] at hm ⊢
    omega

/-- The number of pending states is that of the decisions less that of the
    conflicts, and one more. -/
theorem Reachable.length_stack (h : Reachable f m) :
    m.stack.length + m.stats.conflicts = m.stats.decisions + 1 := by
  induction h with
  | start => rfl
  | step _ hstep ih => exact (step_eq_more_iff.1 hstep).length_stack ih

end Machine

namespace Formula

variable {f : Formula} {e : Environment} {v : Valuation}

/-- A model is found with the states pending for which there was no conflict
    after the decision, and one of them, or the state where it is found, admits
    every model. -/
theorem exists_pending_of_solve (h : f.solve = some e) :
    ∃ rest : List Frame,
      rest.length + f.search.stats.conflicts = f.search.stats.decisions ∧
      ∀ v : Valuation, f.holds v = true → e.Extends v ∨ ∃ frame ∈ rest, frame.Admits v := by
  rw [solve_eq_some_iff] at h
  obtain ⟨m, hm, hends⟩ := f.exists_ends_search
  generalize f.search = outcome at h hends ⊢
  cases hends with
  | exhausted => exact absurd h nofun
  | rebound _ => exact absurd h nofun
  | @model frame rest stats log env hbound _ =>
    obtain rfl : env = e := Verdict.model.inj h
    refine ⟨rest, Nat.succ.inj ?_, fun v hv => ?_⟩
    · rw [← Nat.succ_add]
      exact hm.length_stack
    · obtain ⟨frame', hmem, hadmits⟩ := hm.exists_admits hv
      rcases List.mem_cons.1 hmem with rfl | hrest
      · exact .inl (hadmits.extends_bound hbound)
      · exact .inr ⟨frame', hrest, hadmits⟩

theorem conflicts_le_decisions_of_solve (h : f.solve = some e) :
    f.search.stats.conflicts ≤ f.search.stats.decisions := by
  obtain ⟨rest, hlength, _⟩ := exists_pending_of_solve h
  exact hlength ▸ Nat.le_add_left ..

/-- A model that is found after as many conflicts as decisions is part of every
    model. -/
theorem extends_of_conflicts_eq_decisions (h : f.solve = some e)
    (hstats : f.search.stats.conflicts = f.search.stats.decisions) (hv : f.holds v = true) :
    e.Extends v := by
  obtain ⟨rest, hlength, hcover⟩ := exists_pending_of_solve h
  obtain rfl : rest = [] := List.eq_nil_of_length_eq_zero (by omega)
  rcases hcover v hv with hextends | ⟨frame, hframe, _⟩
  · exact hextends
  · exact absurd hframe List.not_mem_nil

/-! ### Searches without decisions -/

/-- Whatever bindings of the valuation are substituted, there is a unit clause as
    long as there are clauses. -/
def Propagates (f : Formula) (v : Valuation) : Prop :=
  ∀ e : Environment, e.Extends v → (f.condition e.toList).toList ≠ [] →
    ∃ l, .singleton l ∈ (f.condition e.toList).toList

theorem Propagates.decisions_of_reachable (h : f.Propagates v) (hv : f.holds v = true)
    {m : Machine} (hm : Machine.Reachable f m) : m.stats.decisions = 0 := by
  induction hm with
  | start => rfl
  | @step m m' hm hstep ih =>
    have hadmits := hm.exists_admits hv
    have hlength := hm.length_stack
    cases Machine.step_eq_more_iff.1 hstep with
    | conflict _ _ => exact ih
    | force _ _ => exact ih
    | @branch frame rest stats log env l hbound hmove =>
      -- So far there was no decision, so this is the only pending state.
      obtain rfl : rest = [] := List.eq_nil_of_length_eq_zero (by
        rw [ih, List.length_cons] at hlength
        omega)
      obtain ⟨frame', hmem, hadmits⟩ := hadmits
      obtain rfl := List.mem_singleton.1 hmem
      have hsettled := (hm.faithful _ hmem).settled hbound
      have hnil : frame'.settled.toList ≠ [] := fun hnil => by
        rw [move_eq_success hnil] at hmove
        exact absurd hmove nofun
      rw [hsettled.clauses_eq] at hnil hmove
      obtain ⟨l', hunit⟩ := h env (hadmits.extends_bound hbound) hnil
      exact absurd hmove (move_ne_branch hunit)

/-- If unit clauses lead all the way to a model, the search makes no decision. -/
theorem Propagates.decisions_eq_zero (h : f.Propagates v) (hv : f.holds v = true) :
    f.search.stats.decisions = 0 := by
  obtain ⟨m, hm, hends⟩ := f.exists_ends_search
  have hzero := h.decisions_of_reachable hv hm
  generalize f.search = outcome at hends ⊢
  cases hends with
  | exhausted => exact hzero
  | rebound _ => exact hzero
  | model _ _ => exact hzero

end Formula

/-! ### Depths and records -/

namespace Event

/-- Whether a literal is tried. -/
def isDecision : Event → Bool
  | decided .. => true
  | started .. | conflict _ | satisfiable _ | unsatisfiable _ => false

/-- Whether some clause is empty. -/
def isConflict : Event → Bool
  | conflict _ => true
  | started .. | decided .. | satisfiable _ | unsatisfiable _ => false

end Event

namespace Frame

variable {f clauses : Formula} {frame : Frame} {env : Environment} {depth : Nat}

/-- There is a variable of the formula for each level. -/
theorem Settled.depth_le (h : Settled f clauses env depth) : depth ≤ f.vars.length := by
  have hsubset : env.toList.map Prod.fst ⊆ f.vars := List.forall_mem_map.2 h.bound_mem
  have hle := (List.subperm_of_subset env.nodup hsubset).length_le
  rw [List.length_map] at hle
  rw [h.depth_eq, ← Environment.length_toList]
  exact hle

theorem Faithful.depth_le (h : frame.Faithful f) : frame.depth ≤ f.vars.length := by
  obtain ⟨env, _, hsettled⟩ := h.exists_bound
  exact hsettled.depth_le

end Frame

/-- The counters fit the log, and bound the depths met so far. -/
structure Stats.Balanced (f : Formula) (stats : Stats) (log : List Event) : Prop where
  /-- Every decision is recorded. -/
  countP_isDecision : log.countP Event.isDecision = stats.decisions
  /-- Every conflict is recorded. -/
  countP_isConflict : log.countP Event.isConflict = stats.conflicts
  /-- A literal has been taken for each level. -/
  maxDepth_le : stats.maxDepth ≤ stats.decisions + stats.propagations
  /-- And it has a variable of its own. -/
  maxDepth_le_vars : stats.maxDepth ≤ f.vars.length

/-- Taking note of a state that is no deeper than the literals taken keeps the
    balance. -/
theorem Stats.Balanced.visit {f : Formula} {stats : Stats} {log : List Event} {depth : Nat}
    (h : stats.Balanced f log) (hdepth : depth ≤ stats.decisions + stats.propagations)
    (hvars : depth ≤ f.vars.length) : (stats.visit depth).Balanced f log where
  countP_isDecision := h.countP_isDecision
  countP_isConflict := h.countP_isConflict
  maxDepth_le := Nat.max_le.2 ⟨h.maxDepth_le, hdepth⟩
  maxDepth_le_vars := Nat.max_le.2 ⟨h.maxDepth_le_vars, hvars⟩

/-- The record at the end of a log is neither a decision nor a conflict. -/
theorem Stats.Balanced.close {f : Formula} {stats : Stats} {log : List Event} {last : Event}
    (h : stats.Balanced f log) (hdecision : last.isDecision = false)
    (hconflict : last.isConflict = false) : stats.Balanced f (last :: log).reverse where
  countP_isDecision := by
    rw [List.countP_reverse, List.countP_cons_of_neg (Bool.eq_false_iff.1 hdecision)]
    exact h.countP_isDecision
  countP_isConflict := by
    rw [List.countP_reverse, List.countP_cons_of_neg (Bool.eq_false_iff.1 hconflict)]
    exact h.countP_isConflict
  maxDepth_le := h.maxDepth_le
  maxDepth_le_vars := h.maxDepth_le_vars

namespace Machine

variable {f : Formula} {m m' : Machine}

/-- The counters are balanced, and no pending state is deeper than the literals
    taken so far. -/
structure Balanced (f : Formula) (m : Machine) : Prop where
  stats : m.stats.Balanced f m.log
  depth_le : ∀ frame ∈ m.stack, frame.depth ≤ m.stats.decisions + m.stats.propagations

/-- Taking the state on top of the stack keeps the balance. -/
theorem Balanced.visit {frame : Frame} {rest : List Frame} {stats : Stats} {log : List Event}
    (hm : Balanced f ⟨frame :: rest, stats, log⟩) (h : frame.Faithful f) :
    (stats.visit frame.depth).Balanced f log :=
  hm.stats.visit (hm.depth_le frame List.mem_cons_self) h.depth_le

theorem Step.balanced (h : m.Step m') (hfaithful : ∀ frame ∈ m.stack, frame.Faithful f)
    (hm : m.Balanced f) : m'.Balanced f := by
  cases h with
  | @conflict frame rest stats log env _ _ =>
    obtain ⟨hframe, hrest⟩ := List.forall_mem_cons.1 hm.depth_le
    obtain ⟨hdecisions, hconflicts, hdepth, hvars⟩ :=
      hm.visit (hfaithful frame List.mem_cons_self)
    refine ⟨⟨hdecisions, ?_, hdepth, hvars⟩, hrest⟩
    exact (List.countP_cons_of_pos rfl).trans (congrArg (· + 1) hconflicts)
  | @force frame rest stats log env l _ _ =>
    obtain ⟨hframe, hrest⟩ := List.forall_mem_cons.1 hm.depth_le
    obtain ⟨hdecisions, hconflicts, hdepth, hvars⟩ :=
      hm.visit (hfaithful frame List.mem_cons_self)
    refine ⟨⟨hdecisions, hconflicts, Nat.le_succ_of_le hdepth, hvars⟩, ?_⟩
    refine List.forall_mem_cons.2 ⟨Nat.succ_le_succ hframe, fun frame' hframe' => ?_⟩
    exact Nat.le_succ_of_le (hrest frame' hframe')
  | @branch frame rest stats log env l _ _ =>
    obtain ⟨hframe, hrest⟩ := List.forall_mem_cons.1 hm.depth_le
    obtain ⟨hdecisions, hconflicts, hdepth, hvars⟩ :=
      hm.visit (hfaithful frame List.mem_cons_self)
    -- One more decision is one more literal taken.
    have hsucc : ∀ {d : Nat}, d ≤ stats.decisions + stats.propagations →
        d + 1 ≤ stats.decisions + 1 + stats.propagations := by omega
    refine ⟨⟨?_, hconflicts, Nat.le_of_succ_le (hsucc hdepth), hvars⟩, ?_⟩
    · exact (List.countP_cons_of_pos rfl).trans (congrArg (· + 1) hdecisions)
    · refine List.forall_mem_cons.2 ⟨hsucc hframe, List.forall_mem_cons.2 ⟨hsucc hframe, ?_⟩⟩
      exact fun frame' hframe' => Nat.le_of_succ_le (hsucc (hrest frame' hframe'))

theorem Reachable.balanced (h : Reachable f m) : m.Balanced f := by
  induction h with
  | start =>
    refine ⟨⟨rfl, rfl, Nat.le_refl 0, Nat.zero_le _⟩, ?_⟩
    exact List.forall_mem_singleton.2 (Nat.le_refl 0)
  | step hm hstep ih => exact (step_eq_more_iff.1 hstep).balanced hm.faithful ih

/-- As long as there was no decision, what is pending is as deep as there were
    forced literals. -/
theorem Reachable.depth_eq_propagations (h : Reachable f m) (hzero : m.stats.decisions = 0) :
    ∀ frame ∈ m.stack, frame.depth = m.stats.propagations := by
  induction h with
  | start => exact List.forall_mem_singleton.2 rfl
  | @step m m' hm hstep ih =>
    have hlength := hm.length_stack
    cases step_eq_more_iff.1 hstep with
    | conflict _ _ => exact (List.forall_mem_cons.1 (ih hzero)).2
    | @force frame rest stats log env l _ _ =>
      have hdecisions : stats.decisions = 0 := hzero
      -- Without a decision there is no other state that is pending.
      obtain rfl : rest = [] := List.eq_nil_of_length_eq_zero (by
        rw [hdecisions, List.length_cons] at hlength
        omega)
      exact List.forall_mem_singleton.2 (congrArg (· + 1) (ih hzero frame List.mem_cons_self))
    | branch _ _ => exact absurd hzero (Nat.succ_ne_zero _)

end Machine

namespace Formula

variable {f : Formula} {e : Environment}

theorem balanced_search (f : Formula) : f.search.stats.Balanced f f.search.log := by
  obtain ⟨m, hm, hends⟩ := f.exists_ends_search
  have hbalanced := hm.balanced
  generalize f.search = outcome at hends ⊢
  cases hends with
  | exhausted => exact hbalanced.stats.close rfl rfl
  | rebound hbound => exact absurd rfl (hm.verdict_ne_rebound (.rebound hbound) _)
  | @model frame rest stats log env _ _ =>
    exact (hbalanced.visit (hm.faithful frame List.mem_cons_self)).close rfl rfl

/-- A search without a model has looked at both sides of every decision. -/
theorem conflicts_of_solve_eq_none (h : f.solve = none) :
    f.search.stats.conflicts = f.search.stats.decisions + 1 := by
  obtain ⟨m, hm, hends⟩ := f.exists_ends_search
  have hlength := hm.length_stack
  rw [solve] at h
  generalize f.search = outcome at h hends ⊢
  cases hends with
  | exhausted => exact (Nat.zero_add _).symm.trans hlength
  | rebound hbound => exact absurd rfl (hm.verdict_ne_rebound (.rebound hbound) _)
  | model _ _ => exact absurd h (Option.some_ne_none _)

/-- The depth of the state where a model is found is the number of its
    bindings. -/
theorem length_le_maxDepth_of_solve (h : f.solve = some e) :
    e.length ≤ f.search.stats.maxDepth := by
  rw [solve_eq_some_iff] at h
  obtain ⟨m, hm, hends⟩ := f.exists_ends_search
  generalize f.search = outcome at h hends ⊢
  cases hends with
  | exhausted => exact absurd h nofun
  | rebound _ => exact absurd h nofun
  | @model frame rest stats log env hbound _ =>
    obtain rfl : env = e := Verdict.model.inj h
    have hsettled := (hm.faithful frame List.mem_cons_self).settled hbound
    rw [← hsettled.depth_eq]
    exact Nat.le_max_right ..

/-- A model that is found without a decision has a binding for each forced
    literal, and as many levels. -/
theorem counters_of_decisions_eq_zero (h : f.solve = some e)
    (hzero : f.search.stats.decisions = 0) :
    f.search.stats.conflicts = 0 ∧ f.search.stats.propagations = e.length ∧
      f.search.stats.maxDepth = e.length := by
  have hpropagations : f.search.stats.propagations = e.length := by
    rw [solve_eq_some_iff] at h
    obtain ⟨m, hm, hends⟩ := f.exists_ends_search
    generalize f.search = outcome at h hzero hends ⊢
    cases hends with
    | exhausted => exact absurd h nofun
    | rebound _ => exact absurd h nofun
    | @model frame rest stats log env hbound _ =>
      obtain rfl : env = e := Verdict.model.inj h
      have hsettled := (hm.faithful frame List.mem_cons_self).settled hbound
      rw [← hsettled.depth_eq]
      exact (hm.depth_eq_propagations hzero frame List.mem_cons_self).symm
  have hconflicts := conflicts_le_decisions_of_solve h
  have hlength := length_le_maxDepth_of_solve h
  have hdepth := f.balanced_search.maxDepth_le
  omega

/-- What the counters of a search on `f` add up to. Without a model there is one
    conflict more than there are decisions; with one there are at most as many,
    and it has at most as many bindings as the greatest depth. That depth is at
    most the number of different variables, and at most the number of literals
    taken, decided or forced. The log has a record for each decision and for
    each conflict. -/
theorem search_accounting (f : Formula) :
    (f.solve = none → f.search.stats.conflicts = f.search.stats.decisions + 1) ∧
    (∀ e, f.solve = some e → f.search.stats.conflicts ≤ f.search.stats.decisions ∧
      e.length ≤ f.search.stats.maxDepth) ∧
    f.search.stats.maxDepth ≤ f.vars.length ∧
    f.search.stats.maxDepth ≤ f.search.stats.decisions + f.search.stats.propagations ∧
    f.search.log.countP Event.isDecision = f.search.stats.decisions ∧
    f.search.log.countP Event.isConflict = f.search.stats.conflicts := by
  have hbalanced := f.balanced_search
  refine ⟨conflicts_of_solve_eq_none, fun e h => ?_, hbalanced.maxDepth_le_vars,
    hbalanced.maxDepth_le, hbalanced.countP_isDecision, hbalanced.countP_isConflict⟩
  exact ⟨conflicts_le_decisions_of_solve h, length_le_maxDepth_of_solve h⟩

end Formula

end GridSat
