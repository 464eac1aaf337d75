import GridSat.Proofs.Text.Words
import GridSat.Sudoku.Puzzle

/-!
# Placements have variables of their own

The name of a placement is cut at its separators into the numerals of its row,
its column and its digit (`Placement.splitOn_name`), since a numeral has no
separator in it. So the name tells the three numbers, however long they are.

A name is a single word (`Placement.isWord_name`): a line feed in it would end the
line in which a text mentions it.
-/

namespace GridSat.Sudoku.Placement

variable {p q : Placement}

theorem toList_name (p : Placement) : p.name.toList = 'v' :: Nat.toDigits 10 p.row ++
    '_' :: (Nat.toDigits 10 p.col ++ '_' :: Nat.toDigits 10 p.num) := by
  have hv : (toString "v").toList = ['v'] := rfl
  have hsep : (toString "_").toList = ['_'] := rfl
  simp [name, hv, hsep]

/-- Cutting a name at its separators gives back its three parts. -/
theorem splitOn_name (p : Placement) : p.name.toList.splitOn '_' =
    ['v' :: Nat.toDigits 10 p.row, Nat.toDigits 10 p.col, Nat.toDigits 10 p.num] := by
  have hrow : '_' ∉ 'v' :: Nat.toDigits 10 p.row := by simp
  rw [toList_name, List.splitOn_append_cons_self_of_not_mem hrow,
    List.splitOn_append_cons_self_of_not_mem Nat.underscore_not_in_toDigits,
    List.splitOn_eq_singleton Nat.underscore_not_in_toDigits]

theorem toDigits_injective {m n : Nat} (h : Nat.toDigits 10 m = Nat.toDigits 10 n) : m = n := by
  rw [← Nat.ofDigitChars_ten_toDigits (n := m), h, Nat.ofDigitChars_ten_toDigits]

theorem eq_of_name_eq (h : p.name = q.name) : p = q := by
  have hparts := congrArg (·.toList.splitOn '_') h
  simp only [splitOn_name, List.cons.injEq, true_and, and_true] at hparts
  obtain ⟨hrow, hcol, hnum⟩ := hparts
  obtain ⟨row, col, num⟩ := p
  obtain ⟨row', col', num'⟩ := q
  rw [mk.injEq]
  exact ⟨toDigits_injective hrow, toDigits_injective hcol, toDigits_injective hnum⟩

@[simp] theorem var_inj : p.var = q.var ↔ p = q :=
  ⟨fun h => eq_of_name_eq (congrArg Variable.name h), congrArg var⟩

theorem isWord_name (p : Placement) : Text.IsWord p.name where
  ne_nil := by
    rw [toList_name]
    exact List.cons_ne_nil _ _
  isBlank_eq := by
    have hv : Text.isBlank 'v' = false := by decide
    have hsep : Text.isBlank '_' = false := by decide
    have hdigits : ∀ n, ∀ c ∈ Nat.toDigits 10 n, Text.isBlank c = false := fun n c hc =>
      Text.isBlank_of_isDigit (Text.isDigit_of_mem_toDigits hc)
    rw [toList_name, List.forall_mem_append, List.forall_mem_cons, List.forall_mem_cons,
      List.forall_mem_append, List.forall_mem_cons]
    exact ⟨⟨hv, hdigits _⟩, hsep, hdigits _, hsep, hdigits _⟩

theorem lineFeed_notMem_name (p : Placement) : '\n' ∉ p.name.toList :=
  p.isWord_name.notMem (by decide)

/-- Two placements have the same name, and so the same variable, exactly if their rows,
    their columns and their digits are the same, however long these numbers are. No name has
    a blank in it, let alone a line feed. -/
theorem names_tell_placements (row col num row' col' num' : Nat) :
    (name ⟨row, col, num⟩ = name ⟨row', col', num'⟩ ↔ row = row' ∧ col = col' ∧ num = num') ∧
    (var ⟨row, col, num⟩ = var ⟨row', col', num'⟩ ↔ row = row' ∧ col = col' ∧ num = num') ∧
    Text.IsWord (name ⟨row, col, num⟩) ∧ '\n' ∉ (name ⟨row, col, num⟩).toList := by
  have hvar : var ⟨row, col, num⟩ = var ⟨row', col', num'⟩ ↔
      row = row' ∧ col = col' ∧ num = num' := by
    rw [var_inj, mk.injEq]
  refine ⟨?_, hvar, isWord_name _, lineFeed_notMem_name _⟩
  rw [← hvar, var, var, Variable.mk.injEq]

end GridSat.Sudoku.Placement
