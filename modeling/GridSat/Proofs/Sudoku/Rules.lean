import Mathlib.Data.List.ProdSigma
import GridSat.Proofs.Distinct
import GridSat.Proofs.Sudoku.Grid

/-!
# The rules of the game

A grid follows the rules if every row, every column and every block holds every
digit exactly once (`Puzzle.FollowsRules`). `Puzzle.isSolved` only counts the
different digits of each group of a complete grid. That is enough: a group has
as many cells as there are digits, so if its digits are all different then each
of them is there (`Size.IsGroup.holdsEach_iff_perm`).

The count never looks outside the board of an accepted puzzle, so that there is
always an answer (`Puzzle.Accepted.exists_isSolved_eq_ok`).
-/

namespace GridSat.Sudoku

/-! ### Groups -/

namespace Size

variable {s : Size} {group : List (Nat × Nat)} {d d' : Nat → Nat → Nat}

theorem forall_mem_numbers {P : Nat → Prop} : (∀ n ∈ s.numbers, P n) ↔ ∀ i < s.side, P (i + 1) := by
  constructor
  · intro h i hi
    exact h (i + 1) (mem_numbers.2 (by omega))
  · intro h n hn
    rw [mem_numbers] at hn
    obtain ⟨i, rfl⟩ := Nat.exists_eq_add_of_le' hn.1
    exact h i (by omega)

/-- The groups are the rows, the columns and the blocks. -/
theorem forall_mem_groups {P : List (Nat × Nat) → Prop} :
    (∀ group ∈ s.groups, P group) ↔
      (∀ row ∈ s.numbers, P (s.numbers.map fun col => (row, col))) ∧
      (∀ col ∈ s.numbers, P (s.numbers.map fun row => (row, col))) ∧
      ∀ i < s.block, ∀ j < s.block, P (s.blockGroup (i * s.block) (j * s.block)) := by
  rw [groups, List.forall_mem_append, List.forall_mem_append, and_assoc, rowGroups, colGroups,
    blockGroups]
  simp only [List.forall_mem_map, List.forall_mem_flatMap, List.mem_range]

theorem blockGroup_eq_product (s : Size) (top left : Nat) : s.blockGroup top left =
    List.range' (top + 1) s.block ×ˢ List.range' (left + 1) s.block := rfl

theorem mem_blockGroup {top left : Nat} {cell : Nat × Nat} : cell ∈ s.blockGroup top left ↔
    (top < cell.1 ∧ cell.1 ≤ top + s.block) ∧ left < cell.2 ∧ cell.2 ≤ left + s.block := by
  rw [blockGroup_eq_product, List.mem_product, List.mem_range'_1, List.mem_range'_1]
  omega

/-- A group has as many cells as there are digits, all different and on the
    board. -/
structure IsGroup (s : Size) (group : List (Nat × Nat)) : Prop where
  length_eq : group.length = s.side
  nodup : group.Nodup
  mem_numbers : ∀ cell ∈ group, cell.1 ∈ s.numbers ∧ cell.2 ∈ s.numbers

theorem mul_block_add_le {i : Nat} (hi : i < s.block) : i * s.block + s.block ≤ s.side := by
  rw [← block_mul_block, ← Nat.succ_mul]
  exact Nat.mul_le_mul_right _ hi

theorem isGroup_of_mem_groups (h : group ∈ s.groups) : s.IsGroup group := by
  suffices hall : ∀ group ∈ s.groups, s.IsGroup group from hall group h
  refine forall_mem_groups.2 ⟨fun row hrow => ?_, fun col hcol => ?_, fun i hi j hj => ?_⟩
  · refine ⟨by simp, s.nodup_numbers.map fun _ _ h => (Prod.mk.inj h).2, ?_⟩
    rw [List.forall_mem_map]
    exact fun col hcol => ⟨hrow, hcol⟩
  · refine ⟨by simp, s.nodup_numbers.map fun _ _ h => (Prod.mk.inj h).1, ?_⟩
    rw [List.forall_mem_map]
    exact fun row hrow => ⟨hrow, hcol⟩
  · refine ⟨?_, List.Nodup.product List.nodup_range' List.nodup_range', fun cell hcell => ?_⟩
    · rw [blockGroup_eq_product, List.length_product, List.length_range', List.length_range',
        block_mul_block]
    · have htop := mul_block_add_le hi
      have hleft := mul_block_add_le hj
      rw [mem_blockGroup] at hcell
      rw [Size.mem_numbers, Size.mem_numbers]
      omega

/-- Every digit stands in exactly one cell of the group. -/
def HoldsEach (s : Size) (d : Nat → Nat → Nat) (group : List (Nat × Nat)) : Prop :=
  ∀ num ∈ s.numbers, ∃! cell : Nat × Nat, cell ∈ group ∧ d cell.1 cell.2 = num

/-- A group that holds every digit once is an arrangement of the digits. -/
theorem IsGroup.holdsEach_iff_perm (h : s.IsGroup group) :
    s.HoldsEach d group ↔ (group.map fun cell => d cell.1 cell.2).Perm s.numbers := by
  have hlength : (group.map fun cell => d cell.1 cell.2).length = s.numbers.length := by
    rw [List.length_map, h.length_eq, length_numbers]
  constructor
  · intro hholds
    have hsubset : s.numbers ⊆ group.map fun cell => d cell.1 cell.2 := fun num hnum => by
      obtain ⟨cell, ⟨hcell, hd⟩, _⟩ := hholds num hnum
      exact List.mem_map.2 ⟨cell, hcell, hd⟩
    -- The digits are among the entries, and there are no more entries than digits.
    have hsubperm := List.subperm_of_subset s.nodup_numbers hsubset
    exact (hsubperm.perm_of_length_le (Nat.le_of_eq hlength)).symm
  · intro hperm num hnum
    obtain ⟨cell, hcell, hd⟩ := List.mem_map.1 (hperm.mem_iff.2 hnum)
    have hnodup := hperm.nodup_iff.2 s.nodup_numbers
    refine ⟨cell, ⟨hcell, hd⟩, fun cell' h' => ?_⟩
    exact List.inj_on_of_nodup_map hnodup h'.1 hcell (h'.2.trans hd.symm)

theorem IsGroup.holdsEach_congr (h : s.IsGroup group)
    (hd : ∀ row ∈ s.numbers, ∀ col ∈ s.numbers, d row col = d' row col) :
    s.HoldsEach d group ↔ s.HoldsEach d' group := by
  have hmap : (group.map fun cell => d cell.1 cell.2) = group.map fun cell => d' cell.1 cell.2 :=
    List.map_congr_left fun cell hcell =>
      hd _ (h.mem_numbers cell hcell).1 _ (h.mem_numbers cell hcell).2
  rw [h.holdsEach_iff_perm, h.holdsEach_iff_perm, hmap]

/-- It is enough to count the different digits, if there are no others. -/
theorem IsGroup.holdsEach_iff_length (h : s.IsGroup group) :
    s.HoldsEach d group ↔ (∀ cell ∈ group, d cell.1 cell.2 ∈ s.numbers) ∧
      (distinct (group.map fun cell => d cell.1 cell.2)).length = s.side := by
  have hlength : (group.map fun cell => d cell.1 cell.2).length = s.side := by
    rw [List.length_map, h.length_eq]
  rw [h.holdsEach_iff_perm, distinct_eq_eraseDups, ← hlength, length_eraseDups_eq_iff]
  constructor
  · intro hperm
    refine ⟨fun cell hcell => ?_, hperm.nodup_iff.2 s.nodup_numbers⟩
    exact hperm.mem_iff.1 (List.mem_map_of_mem hcell)
  · rintro ⟨hmem, hnodup⟩
    have hsubset : (group.map fun cell => d cell.1 cell.2) ⊆ s.numbers :=
      List.forall_mem_map.2 hmem
    -- Now the entries are among the digits, and there are no more digits than entries.
    have hsubperm := List.subperm_of_subset hnodup hsubset
    exact hsubperm.perm_of_length_le (Nat.le_of_eq (s.length_numbers.trans hlength.symm))

end Size

/-! ### Solved grids -/

namespace Puzzle

variable {p : Puzzle} {group : List (Nat × Nat)}

theorem Accepted.isGroupSolved_eq (hp : p.Accepted) (hgroup : p.size.IsGroup group) :
    p.isGroupSolved group = .ok
      ((distinct (group.map fun cell => p.digit cell.1 cell.2)).length == p.size.side) := by
  rw [isGroupSolved, mapM_eq_ok (g := fun cell : Nat × Nat => p.digit cell.1 cell.2)]
  intro cell hcell
  obtain ⟨hrow, hcol⟩ := hgroup.mem_numbers cell hcell
  exact hp.get_eq hrow hcol

theorem areGroupsSolved_eq_true_iff {groups : List (List (Nat × Nat))} :
    p.areGroupsSolved groups = .ok true ↔ ∀ group ∈ groups, p.isGroupSolved group = .ok true := by
  induction groups with
  | nil => exact iff_of_true rfl nofun
  | cons group groups ih =>
    rw [areGroupsSolved, List.forall_mem_cons, ← ih]
    split <;> simp [*]

theorem isComplete_of_isSolved (h : p.isSolved = .ok true) : p.isComplete = true := by
  rw [isSolved] at h
  split at h
  · next hcomplete => exact hcomplete
  · exact absurd h nofun

/-- Counting the different digits of each group of a complete grid tells
    whether each of them holds every digit once. -/
theorem Accepted.isSolved_iff (hp : p.Accepted) :
    p.isSolved = .ok true ↔ ∀ group ∈ p.size.groups, p.size.HoldsEach p.digit group := by
  have hsolved : ∀ group ∈ p.size.groups, p.isGroupSolved group = .ok true ↔
      (distinct (group.map fun cell => p.digit cell.1 cell.2)).length = p.size.side := by
    intro group hgroup
    rw [hp.isGroupSolved_eq (Size.isGroup_of_mem_groups hgroup), Except.ok.injEq, beq_iff_eq]
  rw [isSolved]
  split
  · next hcomplete =>
    rw [areGroupsSolved_eq_true_iff]
    refine forall₂_congr fun group hgroup => ?_
    have hisGroup := Size.isGroup_of_mem_groups hgroup
    rw [hsolved group hgroup, hisGroup.holdsEach_iff_length, and_iff_right]
    intro cell hcell
    obtain ⟨hrow, hcol⟩ := hisGroup.mem_numbers cell hcell
    exact hp.digit_mem_numbers hcomplete hrow hcol
  · next hcomplete =>
    refine iff_of_false nofun fun hholds => hcomplete ?_
    refine hp.isComplete_iff.2 fun row hrow col hcol => ?_
    -- The cell lies in its row, whose entries are digits.
    have hdigits : ∀ group ∈ p.size.groups, ∀ cell ∈ group,
        p.digit cell.1 cell.2 ∈ p.size.numbers := fun group hgroup =>
      ((Size.isGroup_of_mem_groups hgroup).holdsEach_iff_length.1 (hholds group hgroup)).1
    have hmem : p.digit row col ∈ p.size.numbers :=
      (Size.forall_mem_groups.1 hdigits).1 row hrow (row, col) (List.mem_map_of_mem hcol)
    rw [Size.mem_numbers] at hmem
    omega

/-- Every row, every column and every block holds every digit exactly once.
    Rows, columns and blocks are counted from zero. -/
structure FollowsRules (p : Puzzle) : Prop where
  row : ∀ i < p.size.side, ∀ num ∈ p.size.numbers,
    ∃! j, j < p.size.side ∧ p.board.get i j = .ok num
  column : ∀ j < p.size.side, ∀ num ∈ p.size.numbers,
    ∃! i, i < p.size.side ∧ p.board.get i j = .ok num
  block : ∀ i < p.size.block, ∀ j < p.size.block, ∀ num ∈ p.size.numbers,
    ∃! cell : Nat × Nat, (cell.1 < p.size.block ∧ cell.2 < p.size.block) ∧
      p.board.get (i * p.size.block + cell.1) (j * p.size.block + cell.2) = .ok num

theorem Accepted.get_eq_iff (hp : p.Accepted) {i j num : Nat} (hi : i + 1 ∈ p.size.numbers)
    (hj : j + 1 ∈ p.size.numbers) :
    p.board.get i j = .ok num ↔ p.digit (i + 1) (j + 1) = num := by
  have h := hp.get_eq hi hj
  rw [Nat.add_sub_cancel, Nat.add_sub_cancel] at h
  rw [h, Except.ok.injEq]

/-- Counting from zero or from one: if `f` lists the places of the cells of a
    group, the digit stands at one place exactly if it stands in one cell. -/
theorem Accepted.existsUnique_get_iff (hp : p.Accepted) (hgroup : p.size.IsGroup group)
    {ι : Type} {f : ι → Nat × Nat} {In : ι → Prop} (hf : ∀ a a', f a = f a' → a = a')
    (hmem : ∀ a, In a ↔ ((f a).1 + 1, (f a).2 + 1) ∈ group)
    (hsurj : ∀ cell ∈ group, ∃ a, ((f a).1 + 1, (f a).2 + 1) = cell) (num : Nat) :
    (∃! a, In a ∧ p.board.get (f a).1 (f a).2 = .ok num) ↔
      ∃! cell : Nat × Nat, cell ∈ group ∧ p.digit cell.1 cell.2 = num := by
  have hiff : ∀ a, In a ∧ p.board.get (f a).1 (f a).2 = .ok num ↔
      ((f a).1 + 1, (f a).2 + 1) ∈ group ∧ p.digit ((f a).1 + 1) ((f a).2 + 1) = num := by
    intro a
    rw [hmem a]
    refine and_congr_right fun h => ?_
    exact hp.get_eq_iff (hgroup.mem_numbers _ h).1 (hgroup.mem_numbers _ h).2
  constructor
  · rintro ⟨a, ha, hunique⟩
    refine ⟨_, (hiff a).1 ha, fun cell hcell => ?_⟩
    obtain ⟨a', rfl⟩ := hsurj cell hcell.1
    rw [hunique a' ((hiff a').2 hcell)]
  · rintro ⟨cell, hcell, hunique⟩
    obtain ⟨a, rfl⟩ := hsurj cell hcell.1
    refine ⟨a, (hiff a).2 hcell, fun a' ha' => hf _ _ ?_⟩
    have heq := hunique _ ((hiff a').1 ha')
    simp only [Prod.mk.injEq, Nat.add_right_cancel_iff] at heq
    exact Prod.ext heq.1 heq.2

theorem Accepted.row_holdsEach_iff (hp : p.Accepted) {i : Nat}
    (hgroup : p.size.IsGroup (p.size.numbers.map fun col => (i + 1, col))) :
    p.size.HoldsEach p.digit (p.size.numbers.map fun col => (i + 1, col)) ↔
      ∀ num ∈ p.size.numbers, ∃! j, j < p.size.side ∧ p.board.get i j = .ok num := by
  refine forall₂_congr fun num _ => ?_
  refine (hp.existsUnique_get_iff hgroup (f := fun j => (i, j)) ?_ ?_ ?_ num).symm
  · simp
  · simp [Nat.succ_le_iff]
  · exact List.forall_mem_map.2 (Size.forall_mem_numbers.2 fun j _ => ⟨j, rfl⟩)

theorem Accepted.column_holdsEach_iff (hp : p.Accepted) {j : Nat}
    (hgroup : p.size.IsGroup (p.size.numbers.map fun row => (row, j + 1))) :
    p.size.HoldsEach p.digit (p.size.numbers.map fun row => (row, j + 1)) ↔
      ∀ num ∈ p.size.numbers, ∃! i, i < p.size.side ∧ p.board.get i j = .ok num := by
  refine forall₂_congr fun num _ => ?_
  refine (hp.existsUnique_get_iff hgroup (f := fun i => (i, j)) ?_ ?_ ?_ num).symm
  · simp
  · simp [Nat.succ_le_iff]
  · exact List.forall_mem_map.2 (Size.forall_mem_numbers.2 fun i _ => ⟨i, rfl⟩)

theorem Accepted.block_holdsEach_iff (hp : p.Accepted) {top left : Nat}
    (hgroup : p.size.IsGroup (p.size.blockGroup top left)) :
    p.size.HoldsEach p.digit (p.size.blockGroup top left) ↔
      ∀ num ∈ p.size.numbers,
        ∃! cell : Nat × Nat, (cell.1 < p.size.block ∧ cell.2 < p.size.block) ∧
          p.board.get (top + cell.1) (left + cell.2) = .ok num := by
  refine forall₂_congr fun num _ => ?_
  refine (hp.existsUnique_get_iff hgroup
    (f := fun cell : Nat × Nat => (top + cell.1, left + cell.2)) ?_ ?_ ?_ num).symm
  · simp [Prod.ext_iff]
  · intro cell
    rw [Size.mem_blockGroup]
    omega
  · intro cell hcell
    rw [Size.mem_blockGroup] at hcell
    exact ⟨(cell.1 - top - 1, cell.2 - left - 1),
      Prod.ext (by dsimp only; omega) (by dsimp only; omega)⟩

/-- The rules in terms of groups. -/
theorem Accepted.followsRules_iff (hp : p.Accepted) :
    p.FollowsRules ↔ ∀ group ∈ p.size.groups, p.size.HoldsEach p.digit group := by
  obtain ⟨hrows, hcols, hblocks⟩ := Size.forall_mem_groups.1
    fun group (hgroup : group ∈ p.size.groups) => Size.isGroup_of_mem_groups hgroup
  rw [Size.forall_mem_numbers] at hrows hcols
  rw [Size.forall_mem_groups, Size.forall_mem_numbers, Size.forall_mem_numbers]
  constructor
  · rintro ⟨hrow, hcolumn, hblock⟩
    refine ⟨fun i hi => ?_, fun j hj => ?_, fun i hi j hj => ?_⟩
    · exact (hp.row_holdsEach_iff (hrows i hi)).2 (hrow i hi)
    · exact (hp.column_holdsEach_iff (hcols j hj)).2 (hcolumn j hj)
    · exact (hp.block_holdsEach_iff (hblocks i hi j hj)).2 (hblock i hi j hj)
  · rintro ⟨hrow, hcolumn, hblock⟩
    refine ⟨fun i hi => ?_, fun j hj => ?_, fun i hi j hj => ?_⟩
    · exact (hp.row_holdsEach_iff (hrows i hi)).1 (hrow i hi)
    · exact (hp.column_holdsEach_iff (hcols j hj)).1 (hcolumn j hj)
    · exact (hp.block_holdsEach_iff (hblocks i hi j hj)).1 (hblock i hi j hj)

theorem Accepted.isSolved_iff_followsRules (hp : p.Accepted) :
    p.isSolved = .ok true ↔ p.FollowsRules :=
  hp.isSolved_iff.trans hp.followsRules_iff.symm

/-! ### Every accepted grid has an answer -/

theorem exists_areGroupsSolved_eq_ok {groups : List (List (Nat × Nat))}
    (h : ∀ group ∈ groups, ∃ solved, p.isGroupSolved group = .ok solved) :
    ∃ solved, p.areGroupsSolved groups = .ok solved := by
  induction groups with
  | nil => exact ⟨true, rfl⟩
  | cons group groups ih =>
    obtain ⟨⟨solved, hsolved⟩, hgroups⟩ := List.forall_mem_cons.1 h
    rw [areGroupsSolved, hsolved]
    cases solved with
    | false => exact ⟨false, rfl⟩
    | true => exact ih hgroups

theorem Accepted.exists_isSolved_eq_ok (hp : p.Accepted) : ∃ solved, p.isSolved = .ok solved := by
  rw [isSolved]
  split
  · refine exists_areGroupsSolved_eq_ok fun group hgroup => ?_
    exact ⟨_, hp.isGroupSolved_eq (Size.isGroup_of_mem_groups hgroup)⟩
  · exact ⟨false, rfl⟩

/-- No cell of a group lies outside the board. -/
theorem Accepted.exists_get_eq_ok (hp : p.Accepted) (hgroup : group ∈ p.size.groups)
    {cell : Nat × Nat} (hcell : cell ∈ group) :
    ∃ i j num, cell = (i + 1, j + 1) ∧ p.board.get i j = .ok num := by
  obtain ⟨hrow, hcol⟩ := (Size.isGroup_of_mem_groups hgroup).mem_numbers cell hcell
  refine ⟨cell.1 - 1, cell.2 - 1, _, ?_, hp.get_eq hrow hcol⟩
  rw [Nat.sub_add_cancel (Size.mem_numbers.1 hrow).1,
    Nat.sub_add_cancel (Size.mem_numbers.1 hcol).1]

/-- Whether an accepted grid is solved can always be told, since all cells of its groups are
    on the board. It is solved exactly if every row, every column and every one of the square
    blocks holds every digit exactly once. -/
theorem isSolved_tells_rules (hp : p.Accepted) :
    p.size.block * p.size.block = p.size.side ∧
    (∀ group ∈ p.size.groups, ∀ cell ∈ group,
      ∃ i j num, cell = (i + 1, j + 1) ∧ p.board.get i j = .ok num) ∧
    ∃ solved, p.isSolved = .ok solved ∧ (solved = true ↔ p.FollowsRules) := by
  obtain ⟨solved, hsolved⟩ := hp.exists_isSolved_eq_ok
  refine ⟨p.size.block_mul_block, fun group hgroup cell => hp.exists_get_eq_ok hgroup, solved,
    hsolved, ?_⟩
  rw [← hp.isSolved_iff_followsRules, hsolved, Except.ok.injEq]

/-- The digits of size four, moved on by one from row to row: in the blocks there are
    repetitions. -/
def latinFour : Puzzle :=
  ⟨.four, ⟨[[1, 2, 3, 4], [2, 3, 4, 1], [3, 4, 1, 2], [4, 1, 2, 3]]⟩⟩

/-- The same rows with those in the middle exchanged, which puts the blocks right. -/
def exchangedFour : Puzzle :=
  ⟨.four, ⟨[[1, 2, 3, 4], [3, 4, 1, 2], [2, 3, 4, 1], [4, 1, 2, 3]]⟩⟩

theorem isSolved_tells_rules_exchangedFour :
    latinFour.Accepted ∧ latinFour.isComplete = true ∧ ¬latinFour.FollowsRules ∧
    exchangedFour.Accepted ∧ exchangedFour.FollowsRules := by
  have hlatin : latinFour.isSolved = .ok false := by cbv
  have hexchanged : exchangedFour.isSolved = .ok true := by cbv
  obtain ⟨_, _, solved, hsolved, hrules⟩ := isSolved_tells_rules (p := latinFour) rfl
  obtain ⟨_, _, solved', hsolved', hrules'⟩ := isSolved_tells_rules (p := exchangedFour) rfl
  rw [hlatin, Except.ok.injEq] at hsolved
  rw [hexchanged, Except.ok.injEq] at hsolved'
  exact ⟨rfl, rfl, fun h => Bool.false_ne_true (hsolved.trans (hrules.2 h)), rfl,
    hrules'.1 hsolved'.symm⟩

end Puzzle

end GridSat.Sudoku
