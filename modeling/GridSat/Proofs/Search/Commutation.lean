import GridSat.Proofs.Search.Satisfiability

/-!
# Bindings in any order

Literals of different variables can be substituted in either order
(`Formula.substitute_comm`). Whichever comes first, a clause is left if it has
neither of them, and what is left of it are the literals that are neither of
the negations (`Clause.reduce_bind_eq_some_iff`); that no clause is dropped for
a literal that the other substitution has taken away is where the variables have
to be different. A variable that does not occur is substituted without effect
(`Formula.substitute_eq_self`), so a literal counts once.

So the clauses of a state of the search are a matter of what is bound, not of
the order in which it was bound (`Formula.condition_eq_foldl_of_listedBy`).
-/

namespace GridSat

variable {l m : Literal}

/-! ### One literal after another -/

namespace Clause

variable {c d : Clause}

theorem reduce_eq_some_self (h : ∀ k ∈ c.toList, k.var ≠ l.var) : c.reduce l = some c := by
  refine reduce_eq_some_iff.2 ⟨fun hl => h l hl rfl, (List.filter_eq_self.2 fun k hk => ?_).symm⟩
  rw [Bool.not_eq_true', beq_eq_false_iff_ne]
  rintro rfl
  exact h _ hk rfl

/-- What two literals leave of a clause. -/
theorem reduce_bind_eq_some_iff (h : l.var ≠ m.var) :
    ((c.reduce l).bind fun d => d.reduce m) = some d ↔ (l ∉ c.toList ∧ m ∉ c.toList) ∧
      d.toList = c.toList.filter fun k => !(k == l.negated) && !(k == m.negated) := by
  -- The first substitution takes nothing away that the second one looks for.
  have hmem : m ∈ (c.toList.filter fun k => !(k == l.negated)) ↔ m ∈ c.toList := by
    rw [List.mem_filter, and_iff_left]
    rw [Bool.not_eq_true', beq_eq_false_iff_ne]
    rintro rfl
    exact h (Literal.var_negated l).symm
  rw [Option.bind_eq_some_iff]
  simp only [reduce_eq_some_iff]
  constructor
  · rintro ⟨d', ⟨hl, hd'⟩, hm, hd⟩
    rw [hd'] at hm hd
    rw [List.filter_filter] at hd
    refine ⟨⟨hl, fun hmc => hm (hmem.2 hmc)⟩, ?_⟩
    simpa only [Bool.and_comm] using hd
  · rintro ⟨⟨hl, hm⟩, hd⟩
    refine ⟨.ofList (c.toList.filter fun k => !(k == l.negated)),
      ⟨hl, toList_ofList _⟩, ?_, ?_⟩
    · rwa [toList_ofList, hmem]
    · rw [toList_ofList, List.filter_filter, hd]
      simp only [Bool.and_comm]

theorem reduce_bind_comm (h : l.var ≠ m.var) (c : Clause) :
    ((c.reduce l).bind fun d => d.reduce m) = (c.reduce m).bind fun d => d.reduce l := by
  refine Option.ext fun d => ?_
  rw [reduce_bind_eq_some_iff h, reduce_bind_eq_some_iff h.symm]
  simp only [and_comm, Bool.and_comm]

end Clause

namespace Formula

variable {f : Formula} {ls ls' : List Literal}

theorem substitute_comm (h : l.var ≠ m.var) :
    (f.substitute l).substitute m = (f.substitute m).substitute l := by
  apply Formula.ext
  simp only [toList_substitute, List.filterMap_filterMap]
  exact List.filterMap_congr fun c _ => Clause.reduce_bind_comm h c

/-- Substituting a literal of a variable that does not occur changes nothing. -/
theorem substitute_eq_self (h : l.var ∉ f.vars) : f.substitute l = f := by
  apply Formula.ext
  rw [toList_substitute]
  calc f.toList.filterMap (fun c => c.reduce l)
    _ = f.toList.filterMap some := List.filterMap_congr fun c hc =>
      Clause.reduce_eq_some_self fun k hk hvar => h (mem_vars_iff.2 ⟨c, hc, k, hk, hvar⟩)
    _ = f.toList := List.filterMap_some

/-! ### A list of literals -/

theorem foldl_substitute_perm (hnodup : (ls.map Literal.var).Nodup) (hperm : ls.Perm ls') :
    ls.foldl substitute f = ls'.foldl substitute f := by
  refine hperm.foldl_eq' (fun l hl m hm g => ?_) f
  by_cases hvar : l.var = m.var
  · rw [List.inj_on_of_nodup_map hnodup hl hm hvar]
  · exact substitute_comm hvar

end Formula

/-- The literals that the environment makes true, each once and in any order. -/
structure Environment.ListedBy (e : Environment) (ls : List Literal) : Prop where
  nodup : ls.Nodup
  mem_iff : ∀ l, l ∈ ls ↔ e.get? l.var = some l.polarity

theorem Environment.ListedBy.perm {e : Environment} {ls : List Literal} (h : e.ListedBy ls) :
    (e.toList.reverse.map Literal.ofBinding).Perm ls := by
  have hnodup : (e.toList.reverse.map Literal.ofBinding).Nodup := by
    refine List.Nodup.of_map Literal.var ?_
    rw [List.map_map, List.map_reverse, List.nodup_reverse]
    exact e.nodup
  refine (List.perm_ext_iff_of_nodup hnodup h.nodup).2 fun l => ?_
  rw [h.mem_iff, Environment.get?_eq_some_iff, List.mem_map]
  constructor
  · rintro ⟨b, hb, rfl⟩
    exact List.mem_reverse.1 hb
  · intro hl
    exact ⟨(l.var, l.polarity), List.mem_reverse.2 hl, rfl⟩

namespace Formula

variable {f : Formula} {ls : List Literal}

/-- What the bindings of an environment leave of a formula is what their literals
    leave of it, in any order. -/
theorem condition_eq_foldl_of_listedBy {e : Environment} (h : e.ListedBy ls) :
    f.condition e.toList = ls.foldl substitute f := by
  rw [condition_eq_foldl, ← List.foldl_map]
  refine foldl_substitute_perm ?_ h.perm
  rw [List.map_map, List.map_reverse, List.nodup_reverse]
  exact e.nodup

/-- Literals of different variables are substituted in either order with the same
    result, the clauses and their order included, and after a literal neither
    itself nor its negation changes anything. So the order does not matter in a
    list of literals of different variables. A state of a search therefore has
    the clauses that its bindings leave in any order, and once its literal is
    assumed the same is true of what it is left with. -/
theorem substitute_in_any_order (f : Formula) :
    (∀ l m : Literal, l.var ≠ m.var →
      (f.substitute l).substitute m = (f.substitute m).substitute l) ∧
    (∀ l : Literal, (f.substitute l).substitute l = f.substitute l ∧
      (f.substitute l).substitute l.negated = f.substitute l) ∧
    (∀ ls ls' : List Literal, (ls.map Literal.var).Nodup → ls.Perm ls' →
      ls.foldl substitute f = ls'.foldl substitute f) ∧
    ∀ m, Machine.Reachable f m → ∀ frame ∈ m.stack,
      (∀ ls, frame.env.ListedBy ls → frame.clauses = ls.foldl substitute f) ∧
      ∀ env, frame.bound = .ok env → ∀ ls, env.ListedBy ls →
        frame.settled = ls.foldl substitute f := by
  refine ⟨fun l m => substitute_comm, fun l => ?_, fun ls ls' => foldl_substitute_perm,
    fun m hm frame hframe => ?_⟩
  · have hgone : l.var ∉ (f.substitute l).vars := fun hmem =>
      (mem_vars_of_mem_vars_substitute hmem).2 rfl
    exact ⟨substitute_eq_self hgone, substitute_eq_self hgone⟩
  · have hfaithful := hm.faithful frame hframe
    refine ⟨fun ls hls => ?_, fun env hbound ls hls => ?_⟩
    · rw [hfaithful.clauses_eq, condition_eq_foldl_of_listedBy hls]
    · rw [(hfaithful.settled hbound).clauses_eq, condition_eq_foldl_of_listedBy hls]

/-- After `a` and then the negation of `c`, the clauses are those that the two
    literals leave the other way round. -/
theorem substitute_in_any_order_backtracking :
    ∃ m frame env, Machine.Reachable backtracking m ∧ frame ∈ m.stack ∧ frame.bound = .ok env ∧
      env.toList = [(⟨"c"⟩, false), (⟨"a"⟩, true)] ∧
      frame.settled =
        (backtracking.substitute (Literal.named "c").negated).substitute (.named "a") := by
  have hroot : backtracking.move = .branch (.named "a") := by cbv
  have hnext : (backtracking.substitute (.named "a")).move =
      .force (Literal.named "c").negated := by cbv
  let env : Environment := ⟨.ofList [(⟨"a"⟩, true)], by decide⟩
  let env' : Environment := ⟨.ofList [(⟨"c"⟩, false), (⟨"a"⟩, true)], by decide⟩
  have h₁ := Machine.Reachable.start.step (Machine.step_eq_more_iff.2 (.branch rfl hroot))
  have h₂ := h₁.step (Machine.step_eq_more_iff.2 (@Machine.Step.force _ _ _ _ env _ rfl hnext))
  have hlisted : env'.ListedBy [(Literal.named "c").negated, .named "a"] := by
    refine ⟨by decide, fun l => ?_⟩
    rw [Environment.get?_eq_some_iff]
    obtain ⟨polarity, x⟩ := l
    simp [env', Environment.toList, Literal.named, Literal.positive, Literal.negated, and_comm]
  obtain ⟨_, hsettled⟩ := (substitute_in_any_order backtracking).2.2.2 _ h₂ _ List.mem_cons_self
  exact ⟨_, _, env', h₂, List.mem_cons_self, rfl, rfl, hsettled env' rfl _ hlisted⟩

end Formula

end GridSat
