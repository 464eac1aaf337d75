import GridSat.Chain.Cursor

/-!
# Chains are sequences

However chains are made from one another, they hold what plain lists would hold if they
were made in the same way (`Construction.toList_chain`). The cells know how many items
follow, wherever a chain is entered (`Cells.Sized.of_isTail`), and so everything that is
read off a stored size is what counting would give: the length of a chain, and how many
items a cursor has left (`represents_toList`).

Removing an item copies the others up to its last occurrence and shares the cells behind it
(`cells_remove`). Comparing two chains looks at their sizes first, and a comparison of where
they are stored may go before that. Neither makes a difference, since chains of different
sizes have different items (`beq_eq`) and those that are stored in one place have the same
ones (`equal_iff`).
-/

namespace GridSat

universe u

variable {α : Type u}

namespace Cells

/-- The cells `d` are `c` from some cell on. -/
inductive IsTail (d : Cells α) : Cells α → Prop
  | refl : IsTail d d
  | cons {c : Cells α} (a : α) (n : Nat) : IsTail d c → IsTail d (cons a n c)

theorem Sized.of_isTail {c d : Cells α} (h : c.Sized) (ht : IsTail d c) : d.Sized := by
  induction ht with
  | refl => exact h
  | cons a n ht ih =>
    cases h with
    | cons a h => exact ih h

end Cells

namespace Chain

/-- The cells behind the last occurrence stay, with copies of the other items on top. -/
theorem cells_remove [BEq α] {c : Chain α} {a b : α} {before after : List α}
    (h : c.toList = before ++ b :: after) (hb : (b == a) = true)
    (hafter : ∀ d ∈ after, (d == a) = false) :
    (c.remove a).cells = (c.cells.drop (before.length + 1)).addAll
      (before.filter fun d => !(d == a)).reverse := by
  refine (c.remove a).sized.eq_of_toList_eq ((c.sized.drop _).addAll _) ?_
  have hdrop : c.toList.drop (before.length + 1) = after := by
    rw [h, List.drop_append, List.drop_of_length_le (Nat.le_succ _), Nat.add_sub_cancel_left]
    rfl
  have hkept : (after.filter fun d => !(d == a)) = after :=
    List.filter_eq_self.2 fun d hd => by rw [hafter d hd, Bool.not_false]
  calc (c.remove a).toList
    _ = (before ++ b :: after).filter fun d => !(d == a) := by rw [toList_remove, h]
    _ = (before.filter fun d => !(d == a)) ++ after := by
      rw [List.filter_append, List.filter_cons_of_neg (by simp [hb]), hkept]
    _ = _ := by
      rw [Cells.toList_addAll, List.reverse_reverse, Cells.toList_drop]
      exact congrArg _ hdrop.symm

/-! ### Chains and the lists they stand for -/

/-- The chain stands for a sequence of items, as far as one can ask it: for all of them,
    for their number, or for one after the other. -/
structure Represents (c : Chain α) (items : List α) : Prop where
  toList_eq : c.toList = items
  /-- Every cell stores the number of items from it on. -/
  size_eq : ∀ d, Cells.IsTail d c.cells → d.size = d.toList.length
  length_eq : c.length = items.length
  isEmpty_iff : c.isEmpty = true ↔ items = []
  /-- Asking a cursor once more after `n` times gives the item at this place. -/
  next_eq : ∀ n, (c.cursor.advance n).next.1 = items[n]?
  /-- A cursor knows at any time how many items it has left. -/
  sizeHint_eq : ∀ n,
    (c.cursor.advance n).sizeHint = (items.length - n, some (items.length - n))

theorem represents_toList (c : Chain α) : c.Represents c.toList where
  toList_eq := rfl
  size_eq d hd := (c.sized.of_isTail hd).size_eq
  length_eq := (length_toList c).symm
  isEmpty_iff := by rw [isEmpty_eq, List.isEmpty_iff]
  next_eq n := by
    rw [Cursor.fst_next, Cursor.toList_advance, List.head?_drop]
    rfl
  sizeHint_eq := sizeHint_advance c

/-! ### Making chains -/

/-- A way to make a chain, from nothing, from items, or from other chains. -/
inductive Construction (α : Type u) where
  | empty
  | singleton (a : α)
  | ofList (items : List α)
  | add (m : Construction α) (a : α)
  | rest (m : Construction α)
  | clone (m : Construction α)
  /-- The items of the second chain in front of the first. -/
  | append (m m' : Construction α)
  | remove (m : Construction α) (a : α)

namespace Construction

variable [BEq α]

/-- The chain that is made. -/
def chain : Construction α → Chain α
  | empty => .empty
  | singleton a => .singleton a
  | ofList items => .ofList items
  | add m a => m.chain.add a
  | rest m => m.chain.rest
  | clone m => m.chain
  | append m m' => m.chain.append m'.chain
  | remove m a => m.chain.remove a

/-- What one gets in the same way from plain lists. -/
def items : Construction α → List α
  | empty => []
  | singleton a => [a]
  | ofList items => items
  | add m a => a :: m.items
  | rest m => m.items.tail
  | clone m => m.items
  | append m m' => m'.items ++ m.items
  | remove m a => m.items.filter fun b => !(b == a)

theorem toList_chain (m : Construction α) : m.chain.toList = m.items := by
  induction m with
  | empty => rfl
  | singleton a => rfl
  | ofList items => exact toList_ofList items
  | add m a ih => rw [chain, toList_add, ih, items]
  | rest m ih => rw [chain, toList_rest, ih, items]
  | clone m ih => exact ih
  | append m m' ih ih' => rw [chain, toList_append, ih, ih', items]
  | remove m a ih => rw [chain, toList_remove, ih, items]

/-- Every chain stands for the list that is made in the same way. Removing an item shares the
    cells behind its last occurrence. Chains are equal exactly if the lists are, item by item.

    The last part is for lawful types of items, in which an item equals itself and no other:
    there a comparison may know the chains to be the same, and gives no other answer. -/
theorem chains_are_sequences (m m' : Construction α) :
    m.chain.Represents m.items ∧
    (∀ a b before after, m.items = before ++ b :: after → (b == a) = true →
      (∀ d ∈ after, (d == a) = false) →
      (m.remove a).chain.cells = (m.chain.cells.drop (before.length + 1)).addAll
        (before.filter fun d => !(d == a)).reverse) ∧
    (m.chain == m'.chain) = (m.items == m'.items) ∧
    ∀ [LawfulBEq α] (same : Bool), (same = true → m.chain.cells = m'.chain.cells) →
      (m.chain.equal same m'.chain = true ↔ m.items = m'.items) := by
  refine ⟨m.toList_chain ▸ represents_toList _, fun a b before after h => ?_, ?_,
    fun same hsame => ?_⟩
  · exact cells_remove (m.toList_chain.trans h)
  · rw [beq_eq, toList_chain, toList_chain]
  · rw [equal_iff hsame, toList_chain, toList_chain]

/-- The items 5, 2, 5, 5, 1. -/
def fives : Construction Nat :=
  .append (.ofList [5, 1]) (.add (.ofList [2, 5]) 5)

theorem chains_are_sequences_fives :
    (fives.remove 5).chain.length = 2 ∧
    (fives.remove 5).chain.cells = (fives.chain.cells.drop 4).addAll [2] ∧
    ((fives.remove 5).chain == (rest (.clone (.ofList [7, 2, 1]))).chain) = true := by
  obtain ⟨_, hremove, _⟩ := chains_are_sequences fives fives
  obtain ⟨hrep, _, _, heq⟩ :=
    chains_are_sequences (fives.remove 5) (.rest (.clone (.ofList [7, 2, 1])))
  exact ⟨hrep.length_eq, hremove 5 5 [5, 2, 5] [1] rfl rfl (by decide), (heq false nofun).2 rfl⟩

end Construction

end Chain

end GridSat
