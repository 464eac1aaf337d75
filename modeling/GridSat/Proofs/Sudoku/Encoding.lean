import Mathlib.Data.List.Pairwise
import Mathlib.Tactic.Choose
import GridSat.Proofs.Sudoku.Decoding
import GridSat.Proofs.Sudoku.Rules
import GridSat.Sudoku.Encoding

/-!
# What the clauses of a puzzle ask for

An environment makes the clauses of *exactly one* true if it binds one of the
placements to true and all others to false (`exactlyOne_iff`): a pair of two
others is settled by either of them, but a pair with the true one only by the
other. For the cells this says that the environment describes a table of
digits, and for the groups that the table holds every digit once in each of
them (`Size.forall_mem_rules_iff`). The clues are the digits of the puzzle, so
they ask for a table that agrees with it (`Puzzle.Accepted.forall_mem_clues_iff`).
-/

namespace GridSat.Sudoku

/-! ### Exactly one -/

theorem forall_mem_pairs_iff {α : Type} {R : α → α → Prop} {l : List α} :
    (∀ q ∈ pairs l, R q.1 q.2) ↔ l.Pairwise R := by
  induction l with
  | nil => exact iff_of_true nofun .nil
  | cons a l ih =>
    rw [pairs, List.forall_mem_append, List.forall_mem_map, List.pairwise_cons, ih]

variable {e : Environment} {s : Size} {d : Nat → Nat → Nat}

section ExactlyOne

variable {α : Type} [BEq α] [LawfulBEq α] {xs : List α} (place : α → Placement)

omit [BEq α] [LawfulBEq α] in
/-- Of any two placements, one is false. -/
theorem atMostOne_iff (hnodup : xs.Nodup) :
    (∀ c ∈ atMostOne (xs.map fun x => (place x).literal), c.isSatisfiedBy e = true) ↔
      ∀ x ∈ xs, ∀ y ∈ xs, x ≠ y →
        e.get? (place x).var = some false ∨ e.get? (place y).var = some false := by
  have hsymm : Std.Symm fun x y =>
      e.get? (place x).var = some false ∨ e.get? (place y).var = some false :=
    ⟨fun _ _ h => h.symm⟩
  have hpairwise : (∀ c ∈ atMostOne (xs.map fun x => (place x).literal), c.isSatisfiedBy e = true) ↔
      xs.Pairwise fun x y =>
        e.get? (place x).var = some false ∨ e.get? (place y).var = some false := by
    rw [atMostOne, List.forall_mem_map, List.map_map]
    simp only [Clause.isSatisfiedBy_iff, Clause.toList_ofList, List.exists_mem_cons_iff,
      List.not_mem_nil, false_and, exists_false, or_false]
    rw [forall_mem_pairs_iff (R := fun l l' : Literal =>
      e.get? l.var = some l.polarity ∨ e.get? l'.var = some l'.polarity), List.pairwise_map]
    rfl
  rw [hpairwise]
  exact ⟨fun h x hx y hy hne => h.forall hx hy hne, fun h => hnodup.pairwise_of_forall_ne h⟩

/-- One placement is true and the others are false: none is left unbound. -/
theorem exactlyOne_iff (hnodup : xs.Nodup) :
    (∀ c ∈ exactlyOne (xs.map fun x => (place x).literal), c.isSatisfiedBy e = true) ↔
      ∃ x ∈ xs, ∀ y ∈ xs, e.get? (place y).var = some (x == y) := by
  have hsome : (atLeastOne (xs.map fun x => (place x).literal)).isSatisfiedBy e = true ↔
      ∃ x ∈ xs, e.get? (place x).var = some true := by
    rw [atLeastOne, Clause.isSatisfiedBy_iff, Clause.toList_ofList]
    simp only [List.mem_map, exists_exists_and_eq_and]
    rfl
  rw [exactlyOne, List.forall_mem_cons, hsome, atMostOne_iff place hnodup]
  constructor
  · rintro ⟨⟨x, hx, htrue⟩, hpairs⟩
    refine ⟨x, hx, fun y hy => ?_⟩
    by_cases heq : x = y
    · rw [← heq, htrue, beq_self_eq_true]
    · -- Of the two, the other one has to be false.
      have hfalse := hpairs x hx y hy heq
      rw [htrue] at hfalse
      rw [hfalse.resolve_left (by simp), beq_false_of_ne heq]
  · rintro ⟨x, hx, hall⟩
    refine ⟨⟨x, hx, by rw [hall x hx, beq_self_eq_true]⟩, fun y hy z hz hne => ?_⟩
    by_cases heq : x = y
    · exact .inr (by rw [hall z hz, beq_false_of_ne (heq ▸ hne)])
    · exact .inl (by rw [hall y hy, beq_false_of_ne heq])

end ExactlyOne

/-! ### The rules -/

namespace Size

theorem forall_mem_cellRules_iff :
    (∀ c ∈ s.cellRules, c.isSatisfiedBy e = true) ↔
      ∀ row ∈ s.numbers, ∀ col ∈ s.numbers, ∃ digit ∈ s.numbers, ∀ num ∈ s.numbers,
        e.get? (Placement.var ⟨row, col, num⟩) = some (digit == num) := by
  simp only [cellRules, cells, List.forall_mem_flatMap, List.forall_mem_map]
  refine forall₂_congr fun row _ => forall₂_congr fun col _ => ?_
  exact exactlyOne_iff (fun num => ⟨row, col, num⟩) s.nodup_numbers

theorem forall_mem_groupRules_iff :
    (∀ c ∈ s.groupRules, c.isSatisfiedBy e = true) ↔
      ∀ group ∈ s.groups, ∀ num ∈ s.numbers, ∃ cell ∈ group, ∀ cell' ∈ group,
        e.get? (Placement.var ⟨cell'.1, cell'.2, num⟩) = some (cell == cell') := by
  simp only [groupRules, List.forall_mem_flatMap]
  refine forall₂_congr fun group hgroup => forall₂_congr fun num _ => ?_
  exact exactlyOne_iff (fun cell : Nat × Nat => ⟨cell.1, cell.2, num⟩)
    (isGroup_of_mem_groups hgroup).nodup

/-- Given the table that an environment describes, the rule for a digit and a
    group is that the digit stands in one cell. -/
theorem IsGroup.exists_unique_iff {group : List (Nat × Nat)} (hgroup : s.IsGroup group)
    (hdescribes : Describes e s d) {num : Nat} (hnum : num ∈ s.numbers) :
    (∃ cell ∈ group, ∀ cell' ∈ group,
        e.get? (Placement.var ⟨cell'.1, cell'.2, num⟩) = some (cell == cell')) ↔
      ∃! cell : Nat × Nat, cell ∈ group ∧ d cell.1 cell.2 = num := by
  have hvalue : ∀ cell ∈ group,
      e.get? (Placement.var ⟨cell.1, cell.2, num⟩) = some (d cell.1 cell.2 == num) :=
    fun cell hcell => hdescribes _ (hgroup.mem_numbers cell hcell).1 _
      (hgroup.mem_numbers cell hcell).2 num hnum
  constructor
  · rintro ⟨cell, hcell, hall⟩
    have hiff : ∀ cell' ∈ group, (d cell'.1 cell'.2 == num) = (cell == cell') :=
      fun cell' hcell' => Option.some.inj ((hvalue cell' hcell').symm.trans (hall cell' hcell'))
    refine ⟨cell, ⟨hcell, ?_⟩, fun cell' hcell' => ?_⟩
    · exact eq_of_beq ((hiff cell hcell).trans (beq_self_eq_true _))
    · exact (eq_of_beq ((hiff cell' hcell'.1).symm.trans (beq_iff_eq.2 hcell'.2))).symm
  · rintro ⟨cell, ⟨hcell, hd⟩, hunique⟩
    refine ⟨cell, hcell, fun cell' hcell' => ?_⟩
    rw [hvalue cell' hcell', Option.some.injEq, Bool.eq_iff_iff, beq_iff_eq, beq_iff_eq]
    exact ⟨fun h => (hunique cell' ⟨hcell', h⟩).symm, fun h => h ▸ hd⟩

/-- The rules ask for an environment that describes a table with every digit
    once in each group. -/
theorem forall_mem_rules_iff :
    (∀ c ∈ s.rules, c.isSatisfiedBy e = true) ↔
      ∃ d, IsTable s d ∧ Describes e s d ∧ ∀ group ∈ s.groups, s.HoldsEach d group := by
  rw [rules, List.forall_mem_append, forall_mem_cellRules_iff, forall_mem_groupRules_iff]
  constructor
  · rintro ⟨hcells, hgroups⟩
    -- Each cell has its one digit; the table collects them.
    choose! d hd using hcells
    have hdescribes : Describes e s d := fun row hrow col hcol => (hd row hrow col hcol).2
    refine ⟨d, fun row hrow col hcol => (hd row hrow col hcol).1, hdescribes, ?_⟩
    intro group hgroup num hnum
    exact ((isGroup_of_mem_groups hgroup).exists_unique_iff hdescribes hnum).1
      (hgroups group hgroup num hnum)
  · rintro ⟨d, htable, hdescribes, hholds⟩
    refine ⟨fun row hrow col hcol => ?_, fun group hgroup num hnum => ?_⟩
    · exact ⟨d row col, htable row hrow col hcol, hdescribes row hrow col hcol⟩
    · exact ((isGroup_of_mem_groups hgroup).exists_unique_iff hdescribes hnum).2
        (hholds group hgroup num hnum)

end Size

/-! ### Clues -/

namespace Puzzle

variable {p : Puzzle} {extra : List Placement}

theorem toList_foldl_add (cs : List Clause) (f : Formula) :
    (cs.foldl Formula.add f).toList = cs.reverse ++ f.toList := by
  induction cs generalizing f with
  | nil => rfl
  | cons c cs ih =>
    rw [List.foldl_cons, ih, Formula.toList_add, List.reverse_cons, List.append_assoc,
      List.singleton_append]

theorem isSatisfiedBy_toFormulaWith :
    (p.toFormulaWith extra).isSatisfiedBy e = true ↔
      (∀ q ∈ p.clues, e.get? q.var = some true) ∧ (∀ q ∈ extra, e.get? q.var = some true) ∧
        ∀ c ∈ p.size.rules, c.isSatisfiedBy e = true := by
  have hunit (q : Placement) :
      (Clause.singleton q.literal).isSatisfiedBy e = true ↔ e.get? q.var = some true := by
    rw [Clause.isSatisfiedBy_iff, Clause.toList_singleton]
    simp [Placement.literal, Literal.positive]
  rw [toFormulaWith, Formula.isSatisfiedBy_iff, Formula.toList_and, Formula.toList_ofList,
    List.forall_mem_append, List.forall_mem_map, List.forall_mem_append, toList_foldl_add]
  simp only [hunit, Formula.toList_empty, List.append_nil, List.mem_reverse, and_assoc]

/-- The clues hold if the table that the environment describes keeps the digits
    of the puzzle. -/
theorem Accepted.forall_mem_clues_iff (hp : p.Accepted) (hdescribes : Describes e p.size d) :
    (∀ q ∈ p.clues, e.get? q.var = some true) ↔ ∀ row ∈ p.size.numbers, ∀ col ∈ p.size.numbers,
      p.digit row col = 0 ∨ p.digit row col = d row col := by
  have hvalue : ∀ row ∈ p.size.numbers, ∀ col ∈ p.size.numbers, p.digit row col ≠ 0 →
      (e.get? (Placement.var ⟨row, col, p.digit row col⟩) = some true ↔
        p.digit row col = d row col) := by
    intro row hrow col hcol hne
    have hle := hp.digit_le hrow hcol
    rw [hdescribes row hrow col hcol _ (Size.mem_numbers.2 (by omega)), Option.some.injEq,
      beq_iff_eq, eq_comm]
  constructor
  · intro hclues row hrow col hcol
    by_cases hzero : p.digit row col = 0
    · exact .inl hzero
    · have hmem : ⟨row, col, p.digit row col⟩ ∈ p.clues :=
        hp.mem_clues_iff.2 ⟨hrow, hcol, hzero, rfl⟩
      exact .inr ((hvalue row hrow col hcol hzero).1 (hclues _ hmem))
  · rintro hagrees ⟨row, col, num⟩ hq
    obtain ⟨hrow, hcol, hne, hnum⟩ := hp.mem_clues_iff.1 hq
    obtain rfl : p.digit row col = num := hnum
    exact (hvalue row hrow col hcol hne).2 ((hagrees row hrow col hcol).resolve_left hne)

end Puzzle

end GridSat.Sudoku
