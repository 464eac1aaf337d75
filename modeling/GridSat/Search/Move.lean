import GridSat.Logic.Formula

/-!
# What to do with a formula

At every state the search looks at the clauses that are left and makes a
*move*: it stops if there are none, gives up the state if one is empty, and
otherwise takes the first literal of the first shortest clause, which is forced
if the clause is a unit.

Looking for a shortest clause stops at the first unit clause. Nothing shorter
can follow once empty clauses are ruled out.
-/

namespace GridSat

/-- What the clauses of a state call for. -/
inductive Move where
  /-- No clauses are left, so everything holds. -/
  | success
  /-- Some clause is empty, so nothing can make them hold. -/
  | conflict
  /-- No clause offers a literal. -/
  | stuck
  /-- A unit clause leaves no choice but its literal. -/
  | force (l : Literal)
  /-- A literal is to be tried, and its negation after it. -/
  | branch (l : Literal)
deriving DecidableEq

namespace Formula

/-- The first shortest clause among `best` and those of the cells, where `best`
    comes first; a unit clause ends the search. -/
def shortestFrom (best : Clause) : Cells Clause → Clause
  | .nil => best
  | .cons c _ cells =>
    if c.length < best.length then
      if c.isUnit then c else shortestFrom c cells
    else shortestFrom best cells

/-- The first shortest clause, if there is any clause. -/
def shortestClause? (f : Formula) : Option Clause :=
  match f.clauses.cells with
  | .nil => none
  | .cons c _ cells => some (if c.isUnit then c else shortestFrom c cells)

/-- What the clauses call for. -/
def move (f : Formula) : Move :=
  if f.isEmpty then .success
  else if f.hasEmptyClause then .conflict
  else
    match f.shortestClause? with
    | none => .stuck
    | some c =>
      match c.choose? with
      | none => .stuck
      | some l => if c.isUnit then .force l else .branch l

/-! ### Moves name literals of the formula -/

theorem shortestFrom_mem (best : Clause) (cells : Cells Clause) :
    shortestFrom best cells = best ∨ shortestFrom best cells ∈ cells.toList := by
  induction cells generalizing best with
  | nil => exact .inl rfl
  | cons c n cells ih =>
    rw [shortestFrom, Cells.toList_cons]
    split
    · split
      · exact .inr List.mem_cons_self
      · exact .inr (List.mem_cons.2 (ih c))
    · exact (ih best).imp id (List.mem_cons_of_mem _)

theorem mem_of_shortestClause? {f : Formula} {c : Clause} (h : f.shortestClause? = some c) :
    c ∈ f.toList := by
  obtain ⟨⟨_ | ⟨d, n, cells⟩, hs⟩⟩ := f
  · simp [shortestClause?] at h
  · have hlist : toList ⟨⟨.cons d n cells, hs⟩⟩ = d :: cells.toList := Cells.toList_cons ..
    simp only [shortestClause?, Option.some.injEq] at h
    rw [hlist, ← h]
    split
    · exact List.mem_cons_self
    · exact List.mem_cons.2 (shortestFrom_mem d cells)

/-- The literal of a move stands in some clause. -/
theorem exists_mem_of_move {f : Formula} {l : Literal}
    (h : f.move = .force l ∨ f.move = .branch l) : ∃ c ∈ f.toList, l ∈ c.toList := by
  unfold move at h
  split at h
  · simp at h
  split at h
  · simp at h
  split at h
  · simp at h
  next c hc =>
    split at h
    · simp at h
    next m hm =>
      have hmem : m ∈ c.toList := by
        rw [Clause.choose?_eq] at hm
        exact List.mem_of_mem_head? hm
      refine ⟨c, mem_of_shortestClause? hc, ?_⟩
      split at h <;> simp_all

end Formula

end GridSat
