import GridSat.Proofs.Search.Accounting
import GridSat.Proofs.Sudoku.Solving

/-!
# Solved grids need no decision

In the formula of a solved grid every digit is a clue. So whatever bindings of
its model are substituted, there is a unit clause for each placement that is
left: its own, if it is a digit of the grid, or else the clue for the digit that
the grid has in its cell, or, once that is bound, what remains of the clause that
not both can stand there (`Puzzle.Accepted.propagates_of_isSolved`).
-/

namespace GridSat.Sudoku

variable {s : Size} {p g : Puzzle}

/-! ### The clauses of a puzzle -/

@[simp] theorem Placement.var_literal (q : Placement) : q.literal.var = q.var := rfl

@[simp] theorem Placement.polarity_literal (q : Placement) : q.literal.polarity = true := rfl

/-- Of two different items, one stands before the other. -/
theorem mem_pairs_or_mem_pairs {α : Type} {l : List α} {a b : α} (ha : a ∈ l) (hb : b ∈ l)
    (hne : a ≠ b) : (a, b) ∈ pairs l ∨ (b, a) ∈ pairs l := by
  have hsymm : Std.Symm fun a b => (a, b) ∈ pairs l ∨ (b, a) ∈ pairs l := ⟨fun _ _ h => h.symm⟩
  have hpairwise : l.Pairwise fun a b => (a, b) ∈ pairs l ∨ (b, a) ∈ pairs l :=
    forall_mem_pairs_iff.1 fun _ hq => .inl hq
  exact hpairwise.forall ha hb hne

theorem mem_of_mem_pairs {α : Type} {l : List α} {q : α × α} (hq : q ∈ pairs l) :
    q.1 ∈ l ∧ q.2 ∈ l := by
  have hpairwise : l.Pairwise fun a b => a ∈ l ∧ b ∈ l :=
    List.pairwise_of_forall_mem_list fun _ ha _ hb => ⟨ha, hb⟩
  exact forall_mem_pairs_iff.2 hpairwise q hq

/-- The clauses of *exactly one* have no other variables. -/
theorem exists_mem_of_mem_exactlyOne {ls : List Literal} {c : Clause} (hc : c ∈ exactlyOne ls)
    {l : Literal} (hl : l ∈ c.toList) : ∃ l' ∈ ls, l'.var = l.var := by
  rcases List.mem_cons.1 hc with rfl | hc
  · rw [atLeastOne, Clause.toList_ofList] at hl
    exact ⟨l, hl, rfl⟩
  · obtain ⟨⟨a, b⟩, hab, rfl⟩ := List.mem_map.1 hc
    have hmem : l ∈ ls.map Literal.negated := by
      obtain ⟨ha, hb⟩ := mem_of_mem_pairs hab
      rw [Clause.toList_ofList, List.mem_cons, List.mem_singleton] at hl
      rcases hl with rfl | rfl
      · exact ha
      · exact hb
    obtain ⟨l', hl', rfl⟩ := List.mem_map.1 hmem
    exact ⟨l', hl', rfl⟩

namespace Size

theorem mem_cells {cell : Nat × Nat} :
    cell ∈ s.cells ↔ cell.1 ∈ s.numbers ∧ cell.2 ∈ s.numbers := by
  obtain ⟨row, col⟩ := cell
  simp [cells]

theorem exists_onBoard_of_mem_rules {c : Clause} (hc : c ∈ s.rules) {l : Literal}
    (hl : l ∈ c.toList) : ∃ q : Placement, q.OnBoard s ∧ q.var = l.var := by
  rcases List.mem_append.1 hc with hcell | hgroup
  · obtain ⟨⟨row, col⟩, hmem, hc⟩ := List.mem_flatMap.1 hcell
    obtain ⟨l', hl', hvar⟩ := exists_mem_of_mem_exactlyOne hc hl
    obtain ⟨num, hnum, rfl⟩ := List.mem_map.1 hl'
    obtain ⟨hrow, hcol⟩ := mem_cells.1 hmem
    exact ⟨⟨row, col, num⟩, ⟨hrow, hcol, hnum⟩, hvar⟩
  · obtain ⟨group, hgroup, hc⟩ := List.mem_flatMap.1 hgroup
    obtain ⟨num, hnum, hc⟩ := List.mem_flatMap.1 hc
    obtain ⟨l', hl', hvar⟩ := exists_mem_of_mem_exactlyOne hc hl
    obtain ⟨⟨row, col⟩, hmem, rfl⟩ := List.mem_map.1 hl'
    obtain ⟨hrow, hcol⟩ := (isGroup_of_mem_groups hgroup).mem_numbers _ hmem
    exact ⟨⟨row, col, num⟩, ⟨hrow, hcol, hnum⟩, hvar⟩

/-- Two digits in one cell exclude each other. -/
theorem exists_pair_mem_rules {row col num num' : Nat} (hrow : row ∈ s.numbers)
    (hcol : col ∈ s.numbers) (hnum : num ∈ s.numbers) (hnum' : num' ∈ s.numbers)
    (hne : num ≠ num') :
    ∃ c ∈ s.rules,
      c.toList = [(Placement.literal ⟨row, col, num⟩).negated,
        (Placement.literal ⟨row, col, num'⟩).negated] ∨
      c.toList = [(Placement.literal ⟨row, col, num'⟩).negated,
        (Placement.literal ⟨row, col, num⟩).negated] := by
  let ls := (s.numbers.map fun num => Placement.literal ⟨row, col, num⟩).map Literal.negated
  have hmem : ∀ q ∈ pairs ls, .ofList [q.1, q.2] ∈ s.rules := fun q hq =>
    List.mem_append_left _ (List.mem_flatMap.2 ⟨(row, col), mem_cells.2 ⟨hrow, hcol⟩,
      List.mem_cons_of_mem _ (List.mem_map.2 ⟨q, hq, rfl⟩)⟩)
  have hls : ∀ n ∈ s.numbers, (Placement.literal ⟨row, col, n⟩).negated ∈ ls := fun n hn =>
    List.mem_map_of_mem (List.mem_map_of_mem hn)
  have hneq : (Placement.literal ⟨row, col, num⟩).negated ≠
      (Placement.literal ⟨row, col, num'⟩).negated := fun h =>
    hne (Placement.mk.inj (Placement.var_inj.1 (congrArg Literal.var h))).2.2
  rcases mem_pairs_or_mem_pairs (hls num hnum) (hls num' hnum') hneq with h | h
  · exact ⟨_, hmem _ h, .inl (Clause.toList_ofList _)⟩
  · exact ⟨_, hmem _ h, .inr (Clause.toList_ofList _)⟩

end Size

namespace Puzzle

theorem mem_toFormula_iff {c : Clause} : c ∈ p.toFormula.toList ↔
    (∃ q ∈ p.clues, .singleton q.literal = c) ∨ c ∈ p.size.rules := by
  rw [toFormula, toFormulaWith, Formula.toList_and, Formula.toList_ofList, List.mem_append,
    toList_foldl_add, List.append_nil, List.mem_map, Formula.toList_empty, List.append_nil,
    List.mem_reverse]

theorem Accepted.exists_onBoard_of_mem_vars (hp : p.Accepted) {x : Variable}
    (hx : x ∈ p.toFormula.vars) : ∃ q : Placement, q.OnBoard p.size ∧ q.var = x := by
  obtain ⟨c, hc, l, hl, rfl⟩ := Formula.mem_vars_iff.1 hx
  rcases mem_toFormula_iff.1 hc with ⟨q, hq, rfl⟩ | hrule
  · obtain ⟨hrow, hcol, hne, hnum⟩ := hp.mem_clues_iff.1 hq
    obtain rfl := List.mem_singleton.1 hl
    have hle := hp.digit_le hrow hcol
    exact ⟨q, ⟨hrow, hcol, Size.mem_numbers.2 (by omega)⟩, rfl⟩
  · exact Size.exists_onBoard_of_mem_rules hrule hl

/-! ### Unit clauses -/

variable {e : Environment}

theorem singleton_mem_condition {f : Formula} {c : Clause} {l : Literal} (hc : c ∈ f.toList)
    (hnone : ∀ m ∈ c.toList, e.get? m.var ≠ some m.polarity)
    (hleft : (c.toList.filter fun m => e.get? m.var != some (!m.polarity)) = [l]) :
    .singleton l ∈ (f.condition e.toList).toList := by
  obtain ⟨d, hd, hlist⟩ := Formula.exists_mem_condition_toList hc hnone
  exact (Clause.ext (hlist.trans hleft) : d = .singleton l) ▸ hd

/-- A clue stays a unit clause until it is bound. -/
theorem singleton_mem_of_mem_clues {q : Placement} (hq : q ∈ p.clues) (hfree : e.get? q.var = none) :
    .singleton q.literal ∈ (p.toFormula.condition e.toList).toList := by
  refine singleton_mem_condition (mem_toFormula_iff.2 (.inl ⟨q, hq, rfl⟩)) ?_ ?_
  · simp [hfree]
  · simp [hfree]

/-- Once a digit is bound to a cell, the others have unit clauses that they are
    not there. -/
theorem singleton_mem_of_get?_eq_true {row col num num' : Nat}
    (hq : Placement.OnBoard p.size ⟨row, col, num⟩) (hnum' : num' ∈ p.size.numbers)
    (hfree : e.get? (Placement.var ⟨row, col, num⟩) = none)
    (htrue : e.get? (Placement.var ⟨row, col, num'⟩) = some true) :
    .singleton (Placement.literal ⟨row, col, num⟩).negated ∈
      (p.toFormula.condition e.toList).toList := by
  have hne : num ≠ num' := by
    rintro rfl
    exact absurd (hfree.symm.trans htrue) nofun
  obtain ⟨c, hc, hlist⟩ := Size.exists_pair_mem_rules hq.1 hq.2.1 hq.2.2 hnum' hne
  refine singleton_mem_condition (mem_toFormula_iff.2 (.inr hc)) ?_ ?_
  · rcases hlist with hlist | hlist <;> simp [hlist, hfree, htrue]
  · rcases hlist with hlist | hlist <;> simp [hlist, hfree, htrue]

/-- In a solved grid, every placement that is left has a unit clause. -/
theorem Accepted.propagates_of_isSolved (hg : g.Accepted) (hsolved : g.isSolved = .ok true) :
    g.toFormula.Propagates (g.modelOf []).valuation := by
  intro e hextends hne
  have hholds := (Formula.holds_condition hextends).2
    ((hg.isSolution_self hsolved).holds_toFormula hg)
  -- Some literal is left, as the model makes every clause true.
  obtain ⟨d, hd⟩ := List.exists_mem_of_ne_nil _ hne
  obtain ⟨l, hl, _⟩ := Clause.holds_iff.1 (Formula.holds_iff.1 hholds d hd)
  obtain ⟨hmem, hfree⟩ := Formula.mem_vars_of_mem_vars_condition
    (Formula.mem_vars_iff.2 ⟨d, hd, l, hl, rfl⟩)
  obtain ⟨⟨row, col, num⟩, hq, hvar⟩ := hg.exists_onBoard_of_mem_vars hmem
  rw [← hvar, ← Environment.get?_eq_none_iff] at hfree
  have hcomplete := isComplete_of_isSolved hsolved
  have hdigit := hg.digit_mem_numbers hcomplete hq.1 hq.2.1
  cases hbound : e.get? (Placement.var ⟨row, col, g.digit row col⟩) with
  | none =>
    have hclue : ⟨row, col, g.digit row col⟩ ∈ g.clues := hg.mem_clues_iff.2
      ⟨hq.1, hq.2.1, hg.isComplete_iff.1 hcomplete row hq.1 col hq.2.1, rfl⟩
    exact ⟨_, singleton_mem_of_mem_clues hclue hbound⟩
  | some b =>
    -- The digit of the grid is bound as in the model, that is, to true.
    have hvalue := Environment.extends_iff.1 hextends _ _ hbound
    have hboard : Placement.OnBoard g.size ⟨row, col, g.digit row col⟩ := ⟨hq.1, hq.2.1, hdigit⟩
    rw [Environment.valuation, get?_modelOf (.inl hboard), placed, if_pos hboard, beq_self_eq_true,
      Option.getD_some] at hvalue
    rw [← hvalue] at hbound
    exact ⟨_, singleton_mem_of_get?_eq_true hq hdigit hfree hbound⟩

/-- The search on a solved grid makes no decision. -/
theorem Accepted.decisions_eq_zero_of_isSolved (hg : g.Accepted) (hsolved : g.isSolved = .ok true) :
    g.toFormula.search.stats.decisions = 0 :=
  (hg.propagates_of_isSolved hsolved).decisions_eq_zero
    ((hg.isSolution_self hsolved).holds_toFormula hg)

end Puzzle

end GridSat.Sudoku
