import GridSat.Proofs.Sudoku.Encoding
import GridSat.Proofs.Sudoku.Names

/-!
# The models of a puzzle are its solutions

A *solution* of a puzzle is a solved grid of its size that keeps its digits. An
environment makes the formula of the puzzle true exactly if it describes a
solution (`Puzzle.Accepted.isSatisfiedBy_iff_exists_solution`). Since nothing is
left unbound, it describes one solution only, and that is the grid it is
decoded to.

The other way round, every solution has a model (`Puzzle.modelOf`), which binds
the placements on the board as the solution has them and further ones outside
the board to true. There is such an environment because placements have
variables of their own.
-/

namespace GridSat.Sudoku

variable {e e' : Environment} {p g g' : Puzzle} {extra : List Placement}

/-- The placement lies on the board and has a digit of the size. -/
def Placement.OnBoard (s : Size) (q : Placement) : Prop :=
  q.row ∈ s.numbers ∧ q.col ∈ s.numbers ∧ q.num ∈ s.numbers

instance (s : Size) : DecidablePred (Placement.OnBoard s) := fun q =>
  inferInstanceAs (Decidable (q.row ∈ s.numbers ∧ q.col ∈ s.numbers ∧ q.num ∈ s.numbers))

namespace Puzzle

/-! ### Solutions -/

/-- The grid `g` solves the puzzle `p`. -/
structure IsSolution (p g : Puzzle) : Prop where
  accepted : g.Accepted
  size_eq : g.size = p.size
  solved : g.isSolved = .ok true
  agrees : p.agreesWith g = true

/-- The environment binds every placement on the board, to true if the grid has
    the digit there and to false otherwise. -/
def DescribedBy (g : Puzzle) (e : Environment) : Prop :=
  ∀ row ∈ g.size.numbers, ∀ col ∈ g.size.numbers, ∀ num ∈ g.size.numbers,
    ∃ digit, g.board.get (row - 1) (col - 1) = .ok digit ∧
      e.get? (Placement.var ⟨row, col, num⟩) = some (digit == num)

theorem Accepted.describedBy_iff (hg : g.Accepted) :
    g.DescribedBy e ↔ Describes e g.size g.digit := by
  refine forall₂_congr fun row hrow => forall₂_congr fun col hcol => forall₂_congr fun num _ => ?_
  rw [hg.get_eq hrow hcol]
  simp

theorem IsSolution.isTable (h : p.IsSolution g) : IsTable g.size g.digit := by
  intro row hrow col hcol
  exact h.accepted.digit_mem_numbers (isComplete_of_isSolved h.solved) hrow hcol

theorem Accepted.isSolution_iff (hp : p.Accepted) (hg : g.Accepted) (hsize : g.size = p.size) :
    p.IsSolution g ↔ (∀ group ∈ p.size.groups, p.size.HoldsEach g.digit group) ∧
      ∀ row ∈ p.size.numbers, ∀ col ∈ p.size.numbers,
        p.digit row col = 0 ∨ p.digit row col = g.digit row col := by
  have hrules := hg.isSolved_iff
  have hagrees := agreesWith_iff hp hg
  rw [hsize] at hrules hagrees
  constructor
  · rintro ⟨_, _, h₁, h₂⟩
    exact ⟨hrules.1 h₁, (hagrees.1 h₂).2⟩
  · rintro ⟨h₁, h₂⟩
    exact ⟨hg, hsize, hrules.2 h₁, hagrees.2 ⟨rfl, h₂⟩⟩

/-- The environments that make the formula of a puzzle true are those that
    describe a solution. -/
theorem Accepted.isSatisfiedBy_iff_exists_solution (hp : p.Accepted) :
    (p.toFormulaWith extra).isSatisfiedBy e = true ↔
      (∀ q ∈ extra, e.get? q.var = some true) ∧ ∃ g, p.IsSolution g ∧ g.DescribedBy e := by
  rw [isSatisfiedBy_toFormulaWith, Size.forall_mem_rules_iff]
  constructor
  · rintro ⟨hclues, hextra, d, htable, hdescribes, hholds⟩
    -- The solution is the table that the environment describes, made into a grid.
    have hg := htable.accepted
    have hdigit : ∀ row ∈ p.size.numbers, ∀ col ∈ p.size.numbers,
        (ofDigits p.size d).digit row col = d row col := fun row hrow col hcol =>
      digit_ofDigits hrow hcol
    refine ⟨hextra, ofDigits p.size d, (hp.isSolution_iff hg rfl).2 ⟨?_, ?_⟩, ?_⟩
    · intro group hgroup
      exact ((Size.isGroup_of_mem_groups hgroup).holdsEach_congr hdigit).2 (hholds group hgroup)
    · intro row hrow col hcol
      rw [hdigit row hrow col hcol]
      exact (hp.forall_mem_clues_iff hdescribes).1 hclues row hrow col hcol
    · refine hg.describedBy_iff.2 fun row hrow col hcol num hnum => ?_
      rw [hdigit row hrow col hcol]
      exact hdescribes row hrow col hcol num hnum
  · rintro ⟨hextra, g, hsolution, hdescribed⟩
    have hdescribes := hsolution.accepted.describedBy_iff.1 hdescribed
    have htable := hsolution.isTable
    rw [hsolution.size_eq] at hdescribes htable
    obtain ⟨hholds, hagrees⟩ :=
      (hp.isSolution_iff hsolution.accepted hsolution.size_eq).1 hsolution
    exact ⟨(hp.forall_mem_clues_iff hdescribes).2 hagrees, hextra, g.digit, htable, hdescribes,
      hholds⟩

/-- A model of a solution is decoded to it. -/
theorem IsSolution.decode_eq (h : p.IsSolution g) (hdescribed : g.DescribedBy e) :
    p.decode e = .ok g := by
  have hdescribes := h.accepted.describedBy_iff.1 hdescribed
  have htable := h.isTable
  rw [h.size_eq] at hdescribes htable
  rw [decode_of_describes hdescribes htable, ← h.size_eq, ← h.accepted.eq_ofDigits]

/-- Models agree on the board exactly if they are decoded to the same grid. -/
theorem IsSolution.decode_eq_decode_iff (h : p.IsSolution g) (h' : p.IsSolution g')
    (hdescribed : g.DescribedBy e) (hdescribed' : g'.DescribedBy e') :
    p.decode e = p.decode e' ↔
      ∀ q : Placement, q.OnBoard p.size → e.get? q.var = e'.get? q.var := by
  rw [h.decode_eq hdescribed, h'.decode_eq hdescribed', Except.ok.injEq]
  constructor
  · rintro rfl q hq
    rw [← h.size_eq] at hq
    obtain ⟨digit, hget, hvalue⟩ := hdescribed _ hq.1 _ hq.2.1 _ hq.2.2
    obtain ⟨digit', hget', hvalue'⟩ := hdescribed' _ hq.1 _ hq.2.1 _ hq.2.2
    obtain rfl : digit = digit' := Except.ok.inj (hget.symm.trans hget')
    exact hvalue.trans hvalue'.symm
  · -- The second environment describes the first grid too.
    intro hsame
    have hdescribed'' : g.DescribedBy e' := by
      intro row hrow col hcol num hnum
      obtain ⟨digit, hget, hvalue⟩ := hdescribed row hrow col hcol num hnum
      rw [h.size_eq] at hrow hcol hnum
      exact ⟨digit, hget, (hsame ⟨row, col, num⟩ ⟨hrow, hcol, hnum⟩).symm.trans hvalue⟩
    exact Except.ok.inj ((h.decode_eq hdescribed'').symm.trans (h'.decode_eq hdescribed'))

/-! ### A model for every solution -/

/-- The placements on the board. -/
def boardPlacements (s : Size) : List Placement :=
  s.numbers.flatMap fun row => s.numbers.flatMap fun col => s.numbers.map fun num => ⟨row, col, num⟩

theorem mem_boardPlacements {s : Size} {q : Placement} : q ∈ boardPlacements s ↔ q.OnBoard s := by
  obtain ⟨row, col, num⟩ := q
  simp only [boardPlacements, List.mem_flatMap, List.mem_map, Placement.OnBoard]
  constructor
  · rintro ⟨_, hrow, _, hcol, _, hnum, h⟩
    obtain ⟨rfl, rfl, rfl⟩ := Placement.mk.inj h
    exact ⟨hrow, hcol, hnum⟩
  · rintro ⟨hrow, hcol, hnum⟩
    exact ⟨row, hrow, col, hcol, num, hnum, rfl⟩

/-- Whether a placement is true of a grid; outside the board it is. -/
def placed (g : Puzzle) (q : Placement) : Bool :=
  if q.OnBoard g.size then g.digit q.row q.col == q.num else true

/-- The environment that describes a grid and makes further placements outside
    the board true. -/
def modelOf (g : Puzzle) (extra : List Placement) : Environment where
  bindings := .ofList ((boardPlacements g.size ++ extra).eraseDups.map fun q => (q.var, g.placed q))
  nodup := by
    -- Different placements have different variables.
    rw [Chain.toList_ofList, List.map_map]
    exact (nodup_eraseDups _).map fun _ _ h => Placement.var_inj.1 h

theorem get?_modelOf {q : Placement} (h : q.OnBoard g.size ∨ q ∈ extra) :
    (g.modelOf extra).get? q.var = some (g.placed q) := by
  rw [Environment.get?_eq_some_iff, Environment.toList, modelOf, Chain.toList_ofList]
  refine List.mem_map.2 ⟨q, ?_, rfl⟩
  rw [List.mem_eraseDups, List.mem_append, mem_boardPlacements]
  exact h

theorem Accepted.describedBy_modelOf (hg : g.Accepted) : g.DescribedBy (g.modelOf extra) := by
  refine hg.describedBy_iff.2 fun row hrow col hcol num hnum => ?_
  have hboard : Placement.OnBoard g.size ⟨row, col, num⟩ := ⟨hrow, hcol, hnum⟩
  rw [get?_modelOf (.inl hboard), placed, if_pos hboard]

/-- A solution that keeps the further clues on the board has a model. -/
theorem IsSolution.isSatisfiedBy_modelOf (hp : p.Accepted) (h : p.IsSolution g)
    (hextra : ∀ q ∈ extra, q.OnBoard p.size → g.digit q.row q.col = q.num) :
    (p.toFormulaWith extra).isSatisfiedBy (g.modelOf extra) = true := by
  refine hp.isSatisfiedBy_iff_exists_solution.2
    ⟨fun q hq => ?_, g, h, h.accepted.describedBy_modelOf⟩
  rw [get?_modelOf (.inr hq), placed, h.size_eq]
  split
  · next hboard => rw [hextra q hq hboard, beq_self_eq_true]
  · rfl

theorem IsSolution.isSatisfiedBy_toFormula (h : p.IsSolution g) (hp : p.Accepted) :
    p.toFormula.isSatisfiedBy (g.modelOf []) = true :=
  h.isSatisfiedBy_modelOf hp nofun

theorem IsSolution.holds_toFormula (h : p.IsSolution g) (hp : p.Accepted) :
    p.toFormula.holds (g.modelOf []).valuation = true :=
  Formula.holds_of_isSatisfiedBy (h.isSatisfiedBy_toFormula hp) (Environment.extends_valuation _)

/-! ### Models and solutions -/

theorem get_of_describedBy (hdescribed : g.DescribedBy e) {q : Placement} (hq : q.OnBoard g.size)
    (htrue : e.get? q.var = some true) : g.board.get (q.row - 1) (q.col - 1) = .ok q.num := by
  obtain ⟨hrow, hcol, hnum⟩ := hq
  obtain ⟨digit, hget, hvalue⟩ := hdescribed _ hrow _ hcol _ hnum
  have hbeq : (digit == q.num) = true := Option.some.inj (hvalue.symm.trans htrue)
  rw [hget, eq_of_beq hbeq]

theorem digit_of_get {row col num : Nat} (h : g.board.get (row - 1) (col - 1) = .ok num) :
    g.digit row col = num := by
  rw [digit, h]
  rfl

/-- The formula of a puzzle with further clues is true in the environments that
    make the clues true and describe a solution. It leaves no placement on the
    board open, so each of them describes one solution, to which it is decoded
    and which keeps the further clues on the board. Different solutions have
    different models, and every solution that keeps the further clues has one. -/
theorem models_toFormulaWith_iff_solutions (hp : p.Accepted) (extra : List Placement) :
    (∀ e, (p.toFormulaWith extra).isSatisfiedBy e = true ↔
      (∀ q ∈ extra, e.get? q.var = some true) ∧ ∃ g, p.IsSolution g ∧ g.DescribedBy e) ∧
    (∀ e, (p.toFormulaWith extra).isSatisfiedBy e = true →
      ∃ g, p.decode e = .ok g ∧ p.IsSolution g ∧ g.DescribedBy e ∧
        (∀ g', p.IsSolution g' → g'.DescribedBy e → g' = g) ∧
        ∀ q ∈ extra, q.OnBoard p.size → g.board.get (q.row - 1) (q.col - 1) = .ok q.num) ∧
    (∀ e e', (p.toFormulaWith extra).isSatisfiedBy e = true →
      (p.toFormulaWith extra).isSatisfiedBy e' = true →
        (p.decode e = p.decode e' ↔
          ∀ q : Placement, q.OnBoard p.size → e.get? q.var = e'.get? q.var)) ∧
    ∀ g, p.IsSolution g →
      (∀ q ∈ extra, q.OnBoard p.size → g.board.get (q.row - 1) (q.col - 1) = .ok q.num) →
        ∃ e, (p.toFormulaWith extra).isSatisfiedBy e = true ∧ g.DescribedBy e := by
  refine ⟨fun e => hp.isSatisfiedBy_iff_exists_solution, fun e he => ?_, fun e e' he he' => ?_,
    fun g hg hextra => ?_⟩
  · obtain ⟨hextra, g, hg, hdescribed⟩ := hp.isSatisfiedBy_iff_exists_solution.1 he
    refine ⟨g, hg.decode_eq hdescribed, hg, hdescribed, fun g' hg' hdescribed' => ?_, ?_⟩
    · exact Except.ok.inj ((hg'.decode_eq hdescribed').symm.trans (hg.decode_eq hdescribed))
    · intro q hq hboard
      rw [← hg.size_eq] at hboard
      exact get_of_describedBy hdescribed hboard (hextra q hq)
  · obtain ⟨_, g, hg, hdescribed⟩ := hp.isSatisfiedBy_iff_exists_solution.1 he
    obtain ⟨_, g', hg', hdescribed'⟩ := hp.isSatisfiedBy_iff_exists_solution.1 he'
    exact hg.decode_eq_decode_iff hg' hdescribed hdescribed'
  · refine ⟨g.modelOf extra, hg.isSatisfiedBy_modelOf hp fun q hq hboard => ?_,
      hg.accepted.describedBy_modelOf⟩
    exact digit_of_get (hextra q hq hboard)

/-- A solution of the sample puzzle of size four that has a two next to the one
    in the first row. -/
def solvedFour : Puzzle :=
  ⟨.four, ⟨[[1, 2, 3, 4], [3, 4, 1, 2], [2, 1, 4, 3], [4, 3, 2, 1]]⟩⟩

theorem models_toFormulaWith_iff_solutions_sampleFour :
    Accepted ⟨.four, sampleFour⟩ ∧ ∃ e, (toFormulaWith ⟨.four, sampleFour⟩
      [⟨1, 2, 2⟩, ⟨0, 7, 9⟩]).isSatisfiedBy e = true ∧ solvedFour.DescribedBy e := by
  have hp : Accepted ⟨.four, sampleFour⟩ := rfl
  have hsolution : IsSolution ⟨.four, sampleFour⟩ solvedFour := ⟨rfl, rfl, by cbv, by decide⟩
  refine ⟨hp, (models_toFormulaWith_iff_solutions hp _).2.2.2 solvedFour hsolution ?_⟩
  decide

end Puzzle

end GridSat.Sudoku
