import Mathlib.Logic.Embedding.Basic
import GridSat.Proofs.Dimacs.Writing
import GridSat.Proofs.Logic.Interning
import GridSat.Proofs.Search.Transition

/-!
# Names make no difference to the search

The search only ever asks whether two variables are the same. So if the variables get
other names, different ones for different variables, everything goes on as before
under the new names: a formula calls for the same move (`Formula.move_rename`), a
literal is bound or refused in the same way (`Frame.bound_rename`), and hence every
step of the machine is a step of the renamed machine (`Machine.Step.rename`), and a
run of the one is a run of the other (`Machine.run_rename`).

A renaming is an embedding of the variables: it keeps different variables apart, which
is what makes a renamed environment an environment again. One such renaming calls each
variable by the number of its name, so it makes no difference either in which order names
get their numbers (`Formula.search_byNumber`).
-/

namespace GridSat

/-! ### Renamed states -/

/-- The move with its literal renamed. -/
def Move.rename (r : Variable → Variable) : Move → Move
  | success => success
  | conflict => conflict
  | stuck => stuck
  | force l => force (l.rename r)
  | branch l => branch (l.rename r)

/-- The record with its literal renamed, if it has one. -/
def Event.rename (r : Variable → Variable) : Event → Event
  | started clauses vars => started clauses vars
  | decided l depth => decided (l.rename r) depth
  | conflict depth => conflict depth
  | satisfiable stats => satisfiable stats
  | unsatisfiable stats => unsatisfiable stats

/-- The rebinding of the renamed variable. -/
def Rebinding.rename (r : Variable → Variable) (error : Rebinding) : Rebinding :=
  { error with var := r error.var }

/-- The bindings of the renamed variables, in the same order. -/
def Environment.rename (r : Variable ↪ Variable) (e : Environment) : Environment where
  bindings := .ofList (e.toList.map fun b => (r b.1, b.2))
  nodup := by
    have hvars : (e.toList.map fun b => (r b.1, b.2)).map Prod.fst =
        (e.bindings.toList.map Prod.fst).map r := by
      rw [List.map_map, List.map_map]
      rfl
    rw [Chain.toList_ofList, hvars]
    exact e.nodup.map r.injective

/-- The pending state under other names. -/
def Frame.rename (r : Variable ↪ Variable) (frame : Frame) : Frame where
  clauses := frame.clauses.rename r
  env := frame.env.rename r
  assumed := frame.assumed.map (.rename r)
  depth := frame.depth

/-- The verdict under other names. -/
def Verdict.rename (r : Variable ↪ Variable) : Verdict → Verdict
  | model env => model (env.rename r)
  | unsatisfiable => unsatisfiable
  | rebound error => rebound (error.rename r)

/-- The outcome under other names: the counters stay. -/
def Outcome.rename (r : Variable ↪ Variable) (outcome : Outcome) : Outcome where
  verdict := outcome.verdict.rename r
  stats := outcome.stats
  log := outcome.log.map (.rename r)

/-- The machine under other names: the counters stay. -/
def Machine.rename (r : Variable ↪ Variable) (m : Machine) : Machine where
  stack := m.stack.map (.rename r)
  stats := m.stats
  log := m.log.map (.rename r)

variable {r : Variable ↪ Variable}

/-! ### Bindings -/

namespace Environment

variable {e e' : Environment} {x : Variable} {l : Literal}

@[simp] theorem toList_rename : (e.rename r).toList = e.toList.map fun b => (r b.1, b.2) :=
  Chain.toList_ofList _

theorem get?_rename (r : Variable ↪ Variable) (e : Environment) (x : Variable) :
    (e.rename r).get? (r x) = e.get? x := by
  refine Option.ext fun value => ?_
  simp only [get?_eq_some_iff, toList_rename, List.mem_map, Prod.mk.injEq, Prod.exists]
  constructor
  · rintro ⟨y, _, hy, hname, rfl⟩
    exact r.injective hname ▸ hy
  · intro hx
    exact ⟨x, value, hx, rfl, rfl⟩

theorem put_rename (r : Variable ↪ Variable) (e : Environment) (x : Variable) (value : Bool) :
    (e.rename r).put (r x) value =
      match e.put x value with
      | .ok e' => .ok (e'.rename r)
      | .error error => .error (error.rename r) := by
  cases hx : e.get? x with
  | some current =>
    rw [put_of_get?_eq_some hx, put_of_get?_eq_some ((get?_rename r e x).trans hx)]
    by_cases hvalue : current = value
    · rw [if_pos hvalue, if_pos hvalue]
    · rw [if_neg hvalue, if_neg hvalue]
      rfl
  | none =>
    obtain ⟨e', hput, hlist⟩ := exists_put_of_get?_eq_none hx value
    obtain ⟨e'', hput', hlist'⟩ :=
      exists_put_of_get?_eq_none ((get?_rename r e x).trans hx) value
    have heq : e'' = e'.rename r :=
      eq_of_toList_eq (by rw [hlist', toList_rename, toList_rename, hlist, List.map_cons])
    rw [hput, hput', heq]

end Environment

/-! ### Moves -/

namespace Formula

variable {f : Formula}

theorem toList_rename_eq_nil_iff : (f.rename r).toList = [] ↔ f.toList = [] := by
  rw [toList_rename, List.map_eq_nil_iff]

theorem empty_mem_rename_iff : .empty ∈ (f.rename r).toList ↔ .empty ∈ f.toList := by
  rw [toList_rename, List.mem_map]
  constructor
  · rintro ⟨c, hc, hempty⟩
    have hnil : c.toList = [] := by
      simpa using congrArg Clause.toList hempty
    exact (Clause.ext hnil : c = .empty) ▸ hc
  · intro h
    exact ⟨.empty, h, rfl⟩

/-- Lengths stay the same, and so does the place of the first clause of least
    length. -/
theorem minOn_map_rename (r : Variable ↪ Variable) (c : Clause) (cs : List Clause) :
    ((c :: cs).map (.rename r)).minOn Clause.length (List.cons_ne_nil _ _) =
      ((c :: cs).minOn Clause.length (List.cons_ne_nil _ _)).rename r := by
  induction cs generalizing c with
  | nil => rfl
  | cons d cs ih =>
    have hmin : minOn Clause.length (c.rename r) (d.rename r) =
        (minOn Clause.length c d).rename r := by
      simp only [minOn, Clause.length_rename]
      split <;> rfl
    simp only [List.map_cons, List.minOn_cons_cons, hmin]
    exact ih _

theorem shortest_rename (h : f.toList ≠ []) (h' : (f.rename r).toList ≠ []) :
    (f.rename r).shortest h' = (f.shortest h).rename r := by
  obtain ⟨c, cs, hlist⟩ := List.exists_cons_of_ne_nil h
  simp only [shortest, toList_rename, hlist]
  exact minOn_map_rename r c cs

/-- A renamed formula calls for the renamed move. -/
theorem move_rename (r : Variable ↪ Variable) (f : Formula) :
    (f.rename r).move = f.move.rename r := by
  by_cases hnil : f.toList = []
  · rw [move_eq_success hnil, move_eq_success (toList_rename_eq_nil_iff.2 hnil)]
    rfl
  by_cases hempty : .empty ∈ f.toList
  · rw [move_eq_conflict hempty, move_eq_conflict (empty_mem_rename_iff.2 hempty)]
    rfl
  have hnil' := mt (toList_rename_eq_nil_iff (r := r)).1 hnil
  have hempty' := mt (empty_mem_rename_iff (r := r)).1 hempty
  have hshortest := shortest_rename hnil hnil'
  have hpick : (f.rename r).pick hnil' hempty' = (f.pick hnil hempty).rename r := by
    simp only [pick, hshortest, Clause.toList_rename, List.head_map]
  rw [move_eq_of_ne_nil hnil hempty, move_eq_of_ne_nil hnil' hempty', hshortest, hpick,
    Clause.length_rename]
  split <;> rfl

end Formula

/-! ### Steps and runs -/

namespace Frame

variable {frame : Frame}

theorem settled_rename (r : Variable ↪ Variable) (frame : Frame) :
    (frame.rename r).settled = frame.settled.rename r := by
  obtain ⟨clauses, env, _ | l, depth⟩ := frame
  · rfl
  · exact Formula.substitute_rename r.injective clauses l

theorem bound_rename (r : Variable ↪ Variable) (frame : Frame) :
    (frame.rename r).bound =
      match frame.bound with
      | .ok env => .ok (env.rename r)
      | .error error => .error (error.rename r) := by
  obtain ⟨clauses, env, _ | l, depth⟩ := frame
  · rfl
  · exact Environment.put_rename r env l.var l.polarity

theorem bound_rename_of_ok {env : Environment} (h : frame.bound = .ok env) :
    (frame.rename r).bound = .ok (env.rename r) := by
  rw [bound_rename, h]

theorem bound_rename_of_error {error : Rebinding} (h : frame.bound = .error error) :
    (frame.rename r).bound = .error (error.rename r) := by
  rw [bound_rename, h]

theorem move_settled_rename {move : Move} (h : frame.settled.move = move) :
    (frame.rename r).settled.move = move.rename r := by
  rw [settled_rename, Formula.move_rename, h]

end Frame

namespace Machine

variable {m m' : Machine} {outcome : Outcome}

theorem Step.rename (h : m.Step m') (r : Variable ↪ Variable) :
    (m.rename r).Step (m'.rename r) := by
  cases h with
  | conflict hbound hmove =>
    exact .conflict (Frame.bound_rename_of_ok hbound) (Frame.move_settled_rename hmove)
  | @force frame rest stats log env l hbound hmove =>
    change Step ⟨frame.rename r :: _, _, _⟩ ⟨⟨frame.settled.rename r, env.rename r, _, _⟩ :: _, _, _⟩
    rw [← Frame.settled_rename]
    exact .force (Frame.bound_rename_of_ok hbound) (Frame.move_settled_rename hmove)
  | @branch frame rest stats log env l hbound hmove =>
    change Step ⟨frame.rename r :: _, _, _⟩ ⟨⟨frame.settled.rename r, env.rename r, _, _⟩ ::
      ⟨frame.settled.rename r, env.rename r, _, _⟩ :: _, _, _⟩
    rw [← Frame.settled_rename]
    exact .branch (Frame.bound_rename_of_ok hbound) (Frame.move_settled_rename hmove)

theorem Ends.rename (h : m.Ends outcome) (r : Variable ↪ Variable) :
    (m.rename r).Ends (outcome.rename r) := by
  cases h with
  | exhausted =>
    rw [Outcome.rename, List.map_reverse]
    exact .exhausted
  | rebound hbound =>
    rw [Outcome.rename, List.map_reverse]
    exact .rebound (Frame.bound_rename_of_error hbound)
  | model hbound hmove =>
    rw [Outcome.rename, List.map_reverse]
    exact .model (Frame.bound_rename_of_ok hbound) (Frame.move_settled_rename hmove)

/-- A run of the renamed machine is the renamed run. -/
theorem run_rename (r : Variable ↪ Variable) (m : Machine) :
    (m.rename r).run = m.run.rename r := by
  induction m using run.induct with
  | case1 m m' hstep ih =>
    have h := step_eq_more_iff.1 hstep
    rw [run_eq_of_step (h.rename r), ih, run_eq_of_step h]
  | case2 m outcome hstep =>
    have h := step_eq_done_iff.1 hstep
    rw [run_eq_of_ends (h.rename r), run_eq_of_ends h]

theorem start_rename (r : Variable ↪ Variable) (f : Formula) :
    start (f.rename r) = (start f).rename r := by
  rw [start, Formula.length_rename, Formula.vars_rename r.injective, List.length_map]
  rfl

end Machine

/-! ### The search -/

namespace Formula

theorem search_rename (r : Variable ↪ Variable) (f : Formula) :
    (f.rename r).search = f.search.rename r := by
  rw [search, Machine.start_rename, Machine.run_rename, search]

/-- A search may compare numbers in place of names, whatever names have met the interner
    before. -/
theorem search_byNumber (t : Interner) (f : Formula) :
    (f.rename t.byNumber).search = f.search.rename t.byNumber :=
  search_rename t.byNumber f

theorem solve_rename (r : Variable ↪ Variable) (f : Formula) :
    (f.rename r).solve = f.solve.map (.rename r) := by
  rw [solve, search_rename, solve, Outcome.rename]
  cases f.search.verdict <;> rfl

/-- Nothing about a search depends on what the variables are called. With other names,
    different ones for different variables, it fails if it failed before, and else
    finds the environment it found before, with the new names in the same bindings in
    the same order; the counters are the same, and the log has the same records, with
    the new name in each decision. And what is written for the formula differs only in
    the comments. -/
theorem search_independent_of_names (f : Formula) (r : Variable ↪ Variable) :
    ((f.rename r).solve = none ↔ f.solve = none) ∧
      (∀ e, f.solve = some e → ∃ e', (f.rename r).solve = some e' ∧
        e'.toList = e.toList.map fun b => (r b.1, b.2)) ∧
      (f.rename r).search.stats = f.search.stats ∧
      (f.rename r).search.log = f.search.log.map (.rename r) ∧
      Dimacs.write f = Dimacs.commentBlock f ++ Dimacs.body f ∧
      Dimacs.write (f.rename r) = Dimacs.commentBlock (f.rename r) ++ Dimacs.body f := by
  refine ⟨?_, fun e he => ⟨e.rename r, ?_, Environment.toList_rename⟩, ?_, ?_,
    Dimacs.write_eq_append f, ?_⟩
  · rw [solve_rename, Option.map_eq_none_iff]
  · rw [solve_rename, he, Option.map_some]
  · rw [search_rename]
    rfl
  · rw [search_rename]
    rfl
  · rw [Dimacs.write_eq_append, Dimacs.body_rename r.injective]

end Formula

end GridSat
