import GridSat.Search.Move

/-!
# The literal that is taken next

The search takes the first literal (`Formula.pick`) of the first clause of least
length (`Formula.shortest`), and the literal is forced if that clause is a unit.
Looking for the clause stops at the first unit clause on the way, which makes no
difference as long as no clause is empty (`shortestClause?_eq_some_shortest`).
-/

namespace GridSat.Formula

variable {f : Formula}

/-- The first clause of least length. -/
def shortest (f : Formula) (h : f.toList ≠ []) : Clause :=
  f.toList.minOn Clause.length h

theorem shortest_mem (h : f.toList ≠ []) : f.shortest h ∈ f.toList :=
  List.minOn_mem

theorem toList_shortest_ne_nil (h : f.toList ≠ []) (hempty : .empty ∉ f.toList) :
    (f.shortest h).toList ≠ [] := fun hnil =>
  hempty ((Clause.ext hnil : f.shortest h = .empty) ▸ shortest_mem h)

/-- The first literal of the first clause of least length. -/
def pick (f : Formula) (h : f.toList ≠ []) (hempty : .empty ∉ f.toList) : Literal :=
  (f.shortest h).toList.head (toList_shortest_ne_nil h hempty)

theorem pick_mem (h : f.toList ≠ []) (hempty : .empty ∉ f.toList) :
    f.pick h hempty ∈ (f.shortest h).toList :=
  List.head_mem _

/-! ### Stopping at a unit clause -/

/-- Only the empty clause is shorter than a unit. -/
theorem length_le_of_isUnit {c : Clause} {cs : List Clause} (hempty : .empty ∉ cs)
    (hunit : c.isUnit = true) : ∀ d ∈ cs, c.length ≤ d.length := by
  intro d hd
  rw [eq_of_beq hunit, ← Clause.length_toList]
  refine List.length_pos_iff.2 fun hnil => hempty ?_
  exact (Clause.ext hnil : d = .empty) ▸ hd

/-- A unit clause that comes first is the first of least length. -/
theorem minOn_cons_of_isUnit {c : Clause} {cs : List Clause} (hempty : .empty ∉ cs)
    (hunit : c.isUnit = true) : (c :: cs).minOn Clause.length (List.cons_ne_nil _ _) = c :=
  List.minOn_eq_head _
    (List.forall_mem_cons.2 ⟨Nat.le_refl _, length_le_of_isUnit hempty hunit⟩)

theorem shortestFrom_eq_minOn (best : Clause) (cells : Cells Clause)
    (hempty : .empty ∉ cells.toList) :
    shortestFrom best cells = (best :: cells.toList).minOn Clause.length (List.cons_ne_nil _ _) := by
  induction cells generalizing best with
  | nil => rfl
  | cons c n cells ih =>
    rw [Cells.toList_cons, List.mem_cons, not_or] at hempty
    simp only [Cells.toList_cons, List.minOn_cons_cons, shortestFrom]
    split
    · next hlt =>
      simp only [minOn_eq_right_of_lt hlt]
      split
      · next hunit => exact (minOn_cons_of_isUnit hempty.2 hunit).symm
      · exact ih c hempty.2
    · next hge =>
      simp only [minOn_eq_left (Nat.le_of_not_lt hge)]
      exact ih best hempty.2

/-- Without empty clauses, the clause that is found is the first of least
    length. -/
theorem shortestClause?_eq_some_shortest (h : f.toList ≠ []) (hempty : .empty ∉ f.toList) :
    f.shortestClause? = some (f.shortest h) := by
  obtain ⟨⟨_ | ⟨c, n, cells⟩, hs⟩⟩ := f
  · exact absurd rfl h
  · have hlist : toList ⟨⟨.cons c n cells, hs⟩⟩ = c :: cells.toList := Cells.toList_cons ..
    simp only [hlist, List.mem_cons, not_or] at hempty
    simp only [shortestClause?, shortest, hlist, Option.some.injEq]
    split
    · next hunit => exact (minOn_cons_of_isUnit hempty.2 hunit).symm
    · exact shortestFrom_eq_minOn c cells hempty.2

/-! ### The move for a literal -/

theorem move_eq_success (h : f.toList = []) : f.move = .success := by
  simp [move, h]

theorem move_eq_conflict (h : .empty ∈ f.toList) : f.move = .conflict := by
  simp [move, List.ne_nil_of_mem h, hasEmptyClause_iff.2 h]

theorem move_eq_of_ne_nil (h : f.toList ≠ []) (hempty : .empty ∉ f.toList) :
    f.move = if (f.shortest h).length = 1 then .force (f.pick h hempty)
      else .branch (f.pick h hempty) := by
  have hhas : f.hasEmptyClause = false := by
    rw [← Bool.not_eq_true, hasEmptyClause_iff]
    exact hempty
  have hhead : (f.shortest h).toList.head? = some (f.pick h hempty) := List.head?_eq_some_head _
  simp [move, h, hhas, shortestClause?_eq_some_shortest h hempty, hhead, Clause.isUnit]

/-- As long as there is a unit clause, there is nothing to decide. -/
theorem move_ne_branch {l l' : Literal} (h : .singleton l ∈ f.toList) : f.move ≠ .branch l' := by
  by_cases hempty : .empty ∈ f.toList
  · rw [move_eq_conflict hempty]
    exact nofun
  · have hnil := List.ne_nil_of_mem h
    have hle : (f.shortest hnil).length ≤ 1 := List.apply_minOn_le_of_mem h
    have hpos : 0 < (f.shortest hnil).toList.length :=
      List.length_pos_iff.2 (toList_shortest_ne_nil hnil hempty)
    rw [Clause.length_toList] at hpos
    rw [move_eq_of_ne_nil hnil hempty, if_pos (Nat.le_antisymm hle hpos)]
    exact nofun

end GridSat.Formula
