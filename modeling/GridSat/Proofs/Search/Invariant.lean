import GridSat.Proofs.Logic.Conditioning
import GridSat.Proofs.Search.Transition

/-!
# What holds of every pending state

Every pending state of a search on `f` is *faithful* to `f` (`Frame.Faithful`):
its clauses are `f` with the bindings of its environment substituted, oldest
first, it binds variables of `f` only, and the literal it is about to assume
stands in its clauses. The variable of that literal is then unbound, for
substituting a binding takes its variable away; so assuming it never fails, and
leads to a state of the same kind (`Frame.Faithful.exists_bound`).

And the pending states together *cover* every model of `f`: at any time some
state on the stack admits the model (`Machine.Reachable.exists_admits`). A
conflict drops a state that admits nothing, a forced literal holds in every
model that is admitted, and of the two literals of a decision one holds.
-/

namespace GridSat

namespace Frame

variable {f : Formula} {frame : Frame} {env : Environment} {v : Valuation}

/-! ### Faithful states -/

/-- The pending state arises from substituting into `f`. -/
structure Faithful (f : Formula) (frame : Frame) : Prop where
  /-- The bindings of the environment have been substituted. -/
  clauses_eq : frame.clauses = f.condition frame.env.toList
  /-- Only variables of the formula are bound. -/
  bound_mem : ∀ b ∈ frame.env.toList, b.1 ∈ f.vars
  /-- The literal to assume stands in the clauses, itself or negated. -/
  assumed_mem : ∀ l ∈ frame.assumed, l.var ∈ frame.clauses.vars
  /-- There is a binding for each literal assumed so far. -/
  depth_eq : frame.depth = frame.env.length + frame.assumed.toList.length

/-- An environment reached from `f`: with it come the clauses that are left. -/
structure Settled (f clauses : Formula) (env : Environment) (depth : Nat) : Prop where
  clauses_eq : clauses = f.condition env.toList
  bound_mem : ∀ b ∈ env.toList, b.1 ∈ f.vars
  depth_eq : depth = env.length

theorem Faithful.get?_eq_none (h : frame.Faithful f) {l : Literal} (hl : l ∈ frame.assumed) :
    frame.env.get? l.var = none := by
  have hmem := h.assumed_mem l hl
  rw [h.clauses_eq] at hmem
  exact Environment.get?_eq_none_iff.2 (Formula.mem_vars_of_mem_vars_condition hmem).2

/-- Assuming the literal of a faithful state never fails. -/
theorem Faithful.exists_bound (h : frame.Faithful f) :
    ∃ env, frame.bound = .ok env ∧ Settled f frame.settled env frame.depth := by
  obtain ⟨clauses, env, assumed, depth⟩ := frame
  cases assumed with
  | none => exact ⟨env, rfl, h.clauses_eq, h.bound_mem, h.depth_eq⟩
  | some l =>
    obtain ⟨env', hassign, hlist⟩ :=
      Environment.exists_assign_of_get?_eq_none (h.get?_eq_none rfl)
    refine ⟨env', hassign, ?_, ?_, ?_⟩
    · -- The new binding is in front, so its literal is substituted last.
      rw [hlist, settled, Formula.condition, Literal.ofBinding_var_polarity]
      exact congrArg (·.substitute l) h.clauses_eq
    · rw [hlist]
      refine List.forall_mem_cons.2 ⟨?_, h.bound_mem⟩
      have hmem := h.assumed_mem l rfl
      rw [h.clauses_eq] at hmem
      exact (Formula.mem_vars_of_mem_vars_condition hmem).1
    · rw [← Environment.length_toList, hlist, List.length_cons, Environment.length_toList]
      exact h.depth_eq

theorem Faithful.settled (h : frame.Faithful f) (hbound : frame.bound = .ok env) :
    Settled f frame.settled env frame.depth := by
  obtain ⟨env', hbound', hsettled⟩ := h.exists_bound
  obtain rfl : env = env' := Except.ok.inj (hbound.symm.trans hbound')
  exact hsettled

/-- A state that assumes a literal of the clauses left, or its negation, is
    faithful again. -/
theorem Settled.faithful {clauses : Formula} {depth : Nat} (h : Settled f clauses env depth)
    {l : Literal} (hl : l.var ∈ clauses.vars) :
    Faithful f ⟨clauses, env, some l, depth + 1⟩ where
  clauses_eq := h.clauses_eq
  bound_mem := h.bound_mem
  assumed_mem _ hm := Option.some.inj hm ▸ hl
  depth_eq := congrArg (· + 1) h.depth_eq

/-! ### Admitted models -/

/-- The valuation agrees with the environment, the literal and the clauses of
    the pending state. -/
structure Admits (frame : Frame) (v : Valuation) : Prop where
  extends_env : frame.env.Extends v
  assumed_holds : ∀ l ∈ frame.assumed, l.holds v = true
  clauses_holds : frame.clauses.holds v = true

theorem Admits.settled_holds (h : frame.Admits v) : frame.settled.holds v = true := by
  obtain ⟨clauses, env, assumed, depth⟩ := frame
  cases assumed with
  | none => exact h.clauses_holds
  | some l => exact (Formula.holds_substitute (h.assumed_holds l rfl)).2 h.clauses_holds

theorem Admits.extends_bound (h : frame.Admits v) (hbound : frame.bound = .ok env) :
    env.Extends v := by
  obtain ⟨clauses, env', assumed, depth⟩ := frame
  cases assumed with
  | none => exact Except.ok.inj hbound ▸ h.extends_env
  | some l =>
    exact Environment.extends_of_assign hbound h.extends_env
      (Literal.holds_iff.1 (h.assumed_holds l rfl))

/-- A model that is admitted is admitted by the state that assumes a literal
    next, if the literal holds. -/
theorem Admits.assume (h : frame.Admits v) (hbound : frame.bound = .ok env) {l : Literal}
    (hl : l.holds v = true) (depth : Nat) :
    Admits ⟨frame.settled, env, some l, depth⟩ v where
  extends_env := h.extends_bound hbound
  assumed_holds _ hm := Option.some.inj hm ▸ hl
  clauses_holds := h.settled_holds

end Frame

/-! ### Along a run -/

namespace Machine

variable {f : Formula} {m m' : Machine} {outcome : Outcome} {v : Valuation}

theorem Step.faithful (h : m.Step m') (hm : ∀ frame ∈ m.stack, frame.Faithful f) :
    ∀ frame ∈ m'.stack, frame.Faithful f := by
  cases h with
  | conflict _ _ => exact fun frame hframe => hm frame (List.mem_cons_of_mem _ hframe)
  | force hbound hmove =>
    obtain ⟨hframe, hrest⟩ := List.forall_mem_cons.1 hm
    have hvar := Formula.mem_vars_of_move (.inl hmove)
    exact List.forall_mem_cons.2 ⟨(hframe.settled hbound).faithful hvar, hrest⟩
  | @branch frame rest stats log env l hbound hmove =>
    obtain ⟨hframe, hrest⟩ := List.forall_mem_cons.1 hm
    have hsettled := hframe.settled hbound
    -- The negated literal has the same variable.
    have hvar : l.var ∈ frame.settled.vars := Formula.mem_vars_of_move (.inr hmove)
    have hvar' : l.negated.var ∈ frame.settled.vars := hvar
    exact List.forall_mem_cons.2 ⟨hsettled.faithful hvar,
      List.forall_mem_cons.2 ⟨hsettled.faithful hvar', hrest⟩⟩

theorem Reachable.faithful (h : Reachable f m) : ∀ frame ∈ m.stack, frame.Faithful f := by
  induction h with
  | start =>
    rintro frame hframe
    obtain rfl := List.mem_singleton.1 hframe
    exact ⟨rfl, nofun, nofun, rfl⟩
  | step _ hstep ih => exact (step_eq_more_iff.1 hstep).faithful ih

/-- No search ends because of a rebinding. -/
theorem Reachable.verdict_ne_rebound (h : Reachable f m) (hends : m.Ends outcome)
    (error : Rebinding) : outcome.verdict ≠ .rebound error := by
  cases hends with
  | exhausted => exact nofun
  | rebound hbound =>
    obtain ⟨env, hbound', _⟩ := (h.faithful _ List.mem_cons_self).exists_bound
    exact absurd (hbound.symm.trans hbound') nofun
  | model _ _ => exact nofun

/-- A step loses no model: if it takes away the state that admits it, it puts
    one in its place that does. -/
theorem Step.exists_admits (h : m.Step m') (hm : ∃ frame ∈ m.stack, frame.Admits v) :
    ∃ frame ∈ m'.stack, frame.Admits v := by
  obtain ⟨frame', hmem, hadmits⟩ := hm
  cases h with
  | conflict hbound hmove =>
    rcases List.mem_cons.1 hmem with rfl | hmem
    · -- The empty clause is among those left, and nothing makes it true.
      have hempty := Formula.holds_iff.1 hadmits.settled_holds _ (Formula.empty_mem_of_move hmove)
      exact absurd hempty nofun
    · exact ⟨frame', hmem, hadmits⟩
  | @force frame rest stats log env l hbound hmove =>
    rcases List.mem_cons.1 hmem with rfl | hmem
    · have hunit :=
        Formula.holds_iff.1 hadmits.settled_holds _ (Formula.singleton_mem_of_move hmove)
      have hl : l.holds v = true := by simpa [Clause.holds] using hunit
      exact ⟨_, List.mem_cons_self, hadmits.assume hbound hl _⟩
    · exact ⟨frame', List.mem_cons_of_mem _ hmem, hadmits⟩
  | @branch frame rest stats log env l hbound hmove =>
    rcases List.mem_cons.1 hmem with rfl | hmem
    · cases hl : l.holds v with
      | true => exact ⟨_, List.mem_cons_self, hadmits.assume hbound hl _⟩
      | false =>
        have hl' : l.negated.holds v = true := by rw [Literal.holds_negated, hl, Bool.not_false]
        exact ⟨_, List.mem_cons_of_mem _ List.mem_cons_self, hadmits.assume hbound hl' _⟩
    · exact ⟨frame', List.mem_cons_of_mem _ (List.mem_cons_of_mem _ hmem), hadmits⟩

/-- At any time, every model is admitted by some pending state. -/
theorem Reachable.exists_admits (h : Reachable f m) (hv : f.holds v = true) :
    ∃ frame ∈ m.stack, frame.Admits v := by
  induction h with
  | start => exact ⟨_, List.mem_cons_self, nofun, nofun, hv⟩
  | step _ hstep ih => exact (step_eq_more_iff.1 hstep).exists_admits ih

end Machine

end GridSat
