import GridSat.Proofs.Search.Satisfiability

/-!
# Unit clauses in front come first

The search takes the first unit clause there is, so unit clauses in front of all
others are taken before any other clause, in their order. That does not change
while they are taken: to assume one of them may make unit clauses of the clauses
behind, but leaves the others where they are, in front, unless it takes the
literal of one away and leaves the empty clause.

Of every state it can therefore be said that it has made the bindings that the
unit clauses ask for, or has made the first of them and has unit clauses in front
for the others, or that it is about to end in a conflict (`Formula.Approaches`).
At the end the bindings have been made, and they are the oldest of the model
(`Formula.isPrefix_of_solve`).
-/

namespace GridSat

/-- The binding that makes the literal true. -/
def Literal.binding (l : Literal) : Variable × Bool :=
  (l.var, l.polarity)

/-- An unbound literal that is assumed has the newest binding. -/
theorem Environment.reverse_toList_assign {env env' : Environment} {l : Literal}
    (hfree : env.get? l.var = none) (hassign : env.assign l = .ok env') :
    env'.toList.reverse = env.toList.reverse ++ [l.binding] := by
  obtain ⟨env'', hassign', hlist⟩ := exists_assign_of_get?_eq_none hfree
  obtain rfl : env'' = env' := Except.ok.inj (hassign'.symm.trans hassign)
  rw [hlist, List.reverse_cons]
  rfl

namespace Clause

variable {l m : Literal} {ls : List Literal}

theorem reduce_singleton (h : m ≠ l.negated) :
    (singleton m).reduce l = if m = l then none else some (singleton m) := by
  split
  · next heq => exact reduce_eq_none_iff.2 (List.mem_singleton.2 heq.symm)
  · next hne =>
    refine reduce_eq_some_iff.2 ⟨fun hmem => hne (List.mem_singleton.1 hmem).symm, ?_⟩
    simp [h]

/-- Unit clauses stay as they are, but for those of the literal itself. -/
theorem filterMap_reduce_singleton (h : l.negated ∉ ls) :
    (ls.map singleton).filterMap (fun c => c.reduce l) =
      (ls.filter fun m => !(m == l)).map singleton := by
  induction ls with
  | nil => rfl
  | cons m ls ih =>
    rw [List.mem_cons, not_or] at h
    rw [List.map_cons, List.filterMap_cons, reduce_singleton (Ne.symm h.1), ih h.2]
    by_cases hm : m = l <;> simp [hm]

end Clause

namespace Formula

variable {f clauses : Formula} {l : Literal} {ls : List Literal} {rest : List Clause}

/-! ### Unit clauses in front -/

/-- A unit clause in front is taken, if no clause is empty. -/
theorem move_of_toList_eq_cons (h : f.toList = .singleton l :: rest) :
    f.move = .conflict ∨ f.move = .force l := by
  by_cases hempty : .empty ∈ f.toList
  · exact .inl (move_eq_conflict hempty)
  · have hnil : f.toList ≠ [] := h ▸ List.cons_ne_nil _ _
    have hshortest : f.shortest hnil = .singleton l := by
      have hrest : .empty ∉ rest := fun hmem => hempty (h ▸ List.mem_cons_of_mem _ hmem)
      simp only [shortest, h]
      exact minOn_cons_of_isUnit hrest rfl
    have hpick : f.pick hnil hempty = l := by
      simp only [pick, hshortest]
      rfl
    rw [move_eq_of_ne_nil hnil hempty, hshortest, hpick]
    exact .inr rfl

/-- Assuming a literal leaves the unit clauses in front for other literals there, or
    else leads to a conflict. -/
theorem toList_substitute_units (h : f.toList = ls.map .singleton ++ rest) (l : Literal) :
    .empty ∈ (f.substitute l).toList ∨ ∃ rest',
      (f.substitute l).toList = (ls.filter fun m => !(m == l)).map .singleton ++ rest' := by
  by_cases hneg : l.negated ∈ ls
  · refine .inl (mem_substitute_iff.2 ⟨.singleton l.negated, ?_, ?_, ?_⟩)
    · rw [h]
      exact List.mem_append_left _ (List.mem_map_of_mem hneg)
    · simpa using (Literal.negated_ne l).symm
    · simp
  · refine .inr ⟨rest.filterMap fun c => c.reduce l, ?_⟩
    rw [toList_substitute, h, List.filterMap_append, Clause.filterMap_reduce_singleton hneg]

/-! ### On the way to bindings -/

/-- The bindings, oldest first, are the oldest of the environment or become so: unit
    clauses in front ask for those that it has not made. Or there is a conflict. -/
inductive Approaches (bs : List (Variable × Bool)) (clauses : Formula) (env : Environment) : Prop
  | conflict : .empty ∈ clauses.toList → Approaches bs clauses env
  | units {ls : List Literal} {rest : List Clause} : clauses.toList = ls.map .singleton ++ rest →
      bs <+: env.toList.reverse ++ ls.eraseDups.map Literal.binding → Approaches bs clauses env

variable {bs : List (Variable × Bool)} {env env' : Environment}

theorem approaches_of_isPrefix (h : bs <+: env.toList.reverse) : Approaches bs clauses env := by
  refine @Approaches.units _ _ _ [] _ (List.nil_append clauses.toList).symm ?_
  rwa [List.eraseDups_nil, List.map_nil, List.append_nil]

/-- What has been made stays made. -/
theorem approaches_of_assign (h : bs <+: env.toList.reverse) (hfree : env.get? l.var = none)
    (hassign : env.assign l = .ok env') : Approaches bs clauses env' := by
  refine approaches_of_isPrefix (h.trans ?_)
  rw [Environment.reverse_toList_assign hfree hassign]
  exact List.prefix_append _ _

/-- A state without an empty clause has made the bindings, or is about to force the
    literal of the first unit clause. -/
theorem Approaches.cases_of_move_ne (h : Approaches bs clauses env)
    (hmove : clauses.move ≠ .conflict) : bs <+: env.toList.reverse ∨ ∃ l ls rest,
      clauses.toList = (l :: ls).map .singleton ++ rest ∧ clauses.move = .force l ∧
        bs <+: env.toList.reverse ++ (l :: ls).eraseDups.map Literal.binding := by
  cases h with
  | conflict hempty => exact absurd (move_eq_conflict hempty) hmove
  | @units ls rest hunits hbs =>
    cases ls with
    | nil => exact .inl (by rwa [List.eraseDups_nil, List.map_nil, List.append_nil] at hbs)
    | cons l ls =>
      exact .inr ⟨l, ls, rest, hunits, (move_of_toList_eq_cons hunits).resolve_left hmove, hbs⟩

theorem Approaches.force (h : Approaches bs clauses env) (hmove : clauses.move = .force l)
    (hfree : env.get? l.var = none) (hassign : env.assign l = .ok env') :
    Approaches bs (clauses.substitute l) env' := by
  rcases h.cases_of_move_ne (hmove ▸ nofun) with hbs | ⟨m, ls, rest, hunits, hmove', hbs⟩
  · exact approaches_of_assign hbs hfree hassign
  · obtain rfl : m = l := Move.force.inj (hmove'.symm.trans hmove)
    rcases toList_substitute_units hunits m with hempty | ⟨rest', hrest'⟩
    · exact .conflict hempty
    · -- The literal has its binding now, and its other unit clauses are gone with the first.
      refine .units hrest' ?_
      have hfilter : ((m :: ls).filter fun k => !(k == m)) = ls.filter fun k => !(k == m) := by simp
      rw [hfilter, Environment.reverse_toList_assign hfree hassign, List.append_assoc,
        List.singleton_append, ← List.map_cons, ← List.eraseDups_cons]
      exact hbs

/-- When there is something to decide, or nothing left, the bindings have been made. -/
theorem Approaches.isPrefix (h : Approaches bs clauses env) (hmove : clauses.move ≠ .conflict)
    (hforce : ∀ l, clauses.move ≠ .force l) : bs <+: env.toList.reverse := by
  rcases h.cases_of_move_ne hmove with hbs | ⟨l, _, _, _, hmove', _⟩
  · exact hbs
  · exact absurd hmove' (hforce l)

end Formula

/-! ### Along a run -/

/-- Once its literal is assumed, the state approaches the bindings. -/
def Frame.Approaches (bs : List (Variable × Bool)) (frame : Frame) : Prop :=
  ∀ env, frame.bound = .ok env → Formula.Approaches bs frame.settled env

namespace Machine

variable {f : Formula} {m m' : Machine} {bs : List (Variable × Bool)}

theorem Step.approaches (h : m.Step m') (hfaithful : ∀ frame ∈ m'.stack, frame.Faithful f)
    (hm : ∀ frame ∈ m.stack, frame.Approaches bs) : ∀ frame ∈ m'.stack, frame.Approaches bs := by
  cases h with
  | conflict _ _ => exact (List.forall_mem_cons.1 hm).2
  | force hbound hmove =>
    obtain ⟨hframe, hrest⟩ := List.forall_mem_cons.1 hm
    refine List.forall_mem_cons.2 ⟨fun env' hassign => ?_, hrest⟩
    have hfree := (hfaithful _ List.mem_cons_self).get?_eq_none rfl
    exact (hframe _ hbound).force hmove hfree hassign
  | @branch frame rest stats log env l hbound hmove =>
    obtain ⟨hframe, hrest⟩ := List.forall_mem_cons.1 hm
    have hbs := (hframe _ hbound).isPrefix (hmove ▸ nofun) (hmove ▸ nofun)
    -- Both sides of the decision come after the bindings.
    have hfree : env.get? l.var = none := (hfaithful _ List.mem_cons_self).get?_eq_none rfl
    refine List.forall_mem_cons.2 ⟨fun env' hassign => ?_,
      List.forall_mem_cons.2 ⟨fun env' hassign => ?_, hrest⟩⟩
    · exact Formula.approaches_of_assign hbs hfree hassign
    · exact Formula.approaches_of_assign (l := l.negated) hbs hfree hassign

theorem Reachable.approaches {ls : List Literal} {rest : List Clause}
    (hf : f.toList = ls.map .singleton ++ rest) (h : Reachable f m) :
    ∀ frame ∈ m.stack, frame.Approaches (ls.eraseDups.map Literal.binding) := by
  induction h with
  | start =>
    refine List.forall_mem_singleton.2 fun env hbound => ?_
    obtain rfl : Environment.empty = env := Except.ok.inj hbound
    exact .units hf (List.prefix_refl _)
  | step hm hstep ih =>
    exact (step_eq_more_iff.1 hstep).approaches (hm.step hstep).faithful ih

end Machine

/-- If a formula has unit clauses in front, a model that the search finds has their
    bindings before all others, in the order of the clauses. -/
theorem Formula.isPrefix_of_solve {f : Formula} {e : Environment} {ls : List Literal}
    {rest : List Clause} (hf : f.toList = ls.map .singleton ++ rest) (h : f.solve = some e) :
    ls.eraseDups.map Literal.binding <+: e.toList.reverse := by
  rw [solve_eq_some_iff] at h
  obtain ⟨m, hm, hends⟩ := f.exists_ends_search
  generalize f.search = outcome at h hends
  cases hends with
  | exhausted => exact absurd h nofun
  | rebound _ => exact absurd h nofun
  | @model frame rest stats log env hbound hmove =>
    obtain rfl : env = e := Verdict.model.inj h
    exact (hm.approaches hf frame List.mem_cons_self env hbound).isPrefix (hmove ▸ nofun)
      (hmove ▸ nofun)

end GridSat
