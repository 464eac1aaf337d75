import GridSat.Proofs.Search.Satisfiability

/-!
# Nothing goes wrong on the way

All that is known of a state while it is pending, put together
(`Formula.search_never_rebinds`). A state without a literal to assume is the one
the search starts with. In any other one the literal stands in the clauses, from
which the bound variables are gone; so its variable is still free, assuming it
cannot go against a binding, and the search never ends with a `Rebinding`. Nor
does a state leave the search without a move.
-/

namespace GridSat

namespace Machine

variable {f : Formula} {m m' : Machine} {frame : Frame}

theorem Step.assumed_ne_none (h : m.Step m') (hframe : frame ∈ m'.stack) :
    frame ∈ m.stack ∨ frame.assumed ≠ none := by
  cases h with
  | conflict _ _ => exact .inl (List.mem_cons_of_mem _ hframe)
  | force _ _ =>
    rcases List.mem_cons.1 hframe with rfl | hrest
    · exact .inr nofun
    · exact .inl (List.mem_cons_of_mem _ hrest)
  | branch _ _ =>
    rcases List.mem_cons.1 hframe with rfl | hrest
    · exact .inr nofun
    rcases List.mem_cons.1 hrest with rfl | hrest
    · exact .inr nofun
    · exact .inl (List.mem_cons_of_mem _ hrest)

/-- Only the formula itself is pending without a literal to assume. -/
theorem Reachable.eq_root (h : Reachable f m) (hframe : frame ∈ m.stack)
    (hnone : frame.assumed = none) : frame = ⟨f, .empty, none, 0⟩ := by
  induction h with
  | start => exact List.mem_singleton.1 hframe
  | step _ hstep ih =>
    rcases (step_eq_more_iff.1 hstep).assumed_ne_none hframe with hmem | hne
    · exact ih hmem
    · exact absurd hnone hne

end Machine

theorem Frame.Faithful.notMem_vars {f : Formula} {frame : Frame} (h : frame.Faithful f)
    {b : Variable × Bool} (hb : b ∈ frame.env.toList) : b.1 ∉ frame.clauses.vars := by
  intro hmem
  rw [h.clauses_eq] at hmem
  exact (Formula.mem_vars_of_mem_vars_condition hmem).2 (List.mem_map_of_mem hb)

namespace Formula

/-- Whatever is pending at any time of a search on `f`: its clauses are `f` with
    the bindings of its environment substituted from the oldest to the newest,
    and no bound variable is left in them; there is one binding for each level,
    less the one that is still to be made unless it is the state the search
    starts with; and the literal to be assumed has its variable in the clauses
    and not in the environment. So assuming it succeeds, the clauses that are
    left then call for a move, and no search ends with a rebinding. -/
theorem search_never_rebinds (f : Formula) :
    (∀ m, Machine.Reachable f m → ∀ frame ∈ m.stack,
      frame.clauses =
        frame.env.toList.reverse.foldl (fun g b => g.substitute (.ofBinding b)) f ∧
      (∀ b ∈ frame.env.toList, b.1 ∉ frame.clauses.vars) ∧
      (frame.assumed = none → frame = ⟨f, .empty, none, 0⟩ ∧ frame.env.length = frame.depth) ∧
      (∀ l, frame.assumed = some l → frame.env.length + 1 = frame.depth ∧
        l.var ∈ frame.clauses.vars ∧ frame.env.get? l.var = none) ∧
      (∃ env, frame.bound = .ok env) ∧ frame.settled.move ≠ .stuck) ∧
    ∀ error, f.search.verdict ≠ .rebound error := by
  refine ⟨fun m hm frame hframe => ?_, fun error => ?_⟩
  · have hfaithful := hm.faithful frame hframe
    refine ⟨?_, fun b => hfaithful.notMem_vars, fun hnone => ?_, fun l hl => ?_, ?_,
      move_ne_stuck _⟩
    · rw [hfaithful.clauses_eq, condition_eq_foldl]
    · obtain rfl := hm.eq_root hframe hnone
      exact ⟨rfl, rfl⟩
    · have hdepth := hfaithful.depth_eq
      rw [hl] at hdepth
      exact ⟨hdepth.symm, hfaithful.assumed_mem l hl, hfaithful.get?_eq_none hl⟩
    · obtain ⟨env, hbound, _⟩ := hfaithful.exists_bound
      exact ⟨env, hbound⟩
  · obtain ⟨m, hm, hends⟩ := f.exists_ends_search
    exact hm.verdict_ne_rebound hends error

/-- With `a` assumed and the negation of `c` next. -/
theorem search_never_rebinds_backtracking :
    ∃ m frame, Machine.Reachable backtracking m ∧ frame ∈ m.stack ∧ frame.env.length = 1 ∧
      frame.assumed = some (Literal.named "c").negated ∧ frame.env.get? ⟨"c"⟩ = none ∧
      ⟨"c"⟩ ∈ frame.clauses.vars ∧ ∃ env, frame.bound = .ok env := by
  have hroot : backtracking.move = .branch (.named "a") := by cbv
  have hnext : (backtracking.substitute (.named "a")).move =
      .force (Literal.named "c").negated := by cbv
  obtain ⟨env, henv, hlist⟩ :=
    Environment.exists_assign_of_get?_eq_none (e := .empty) (l := .named "a") rfl
  have h₁ := Machine.Reachable.start.step (Machine.step_eq_more_iff.2 (.branch rfl hroot))
  have h₂ := h₁.step (Machine.step_eq_more_iff.2 (.force henv hnext))
  obtain ⟨_, _, _, hpending, hbound, _⟩ :=
    (search_never_rebinds backtracking).1 _ h₂ _ List.mem_cons_self
  obtain ⟨_, hmem, hfree⟩ := hpending _ rfl
  refine ⟨_, _, h₂, List.mem_cons_self, ?_, rfl, hfree, hmem, hbound⟩
  rw [← Environment.length_toList, hlist]
  rfl

end Formula

end GridSat
