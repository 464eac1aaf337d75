import GridSat.Chain.Basic

/-!
# Cursors

A *cursor* goes through a chain, from the newest item to the oldest, and stands
in front of the cells that it has not read yet. It tells how many items are left
without reading them: the first of these cells stores their number.

A cursor at the end stays there, however often it is asked for another item. So
reading up to `n` items may stop early, and still leaves the cursor where `n`
questions would have taken it (`Cursor.read_eq`).
-/

namespace GridSat.Chain

universe u

variable {α : Type u}

/-- A place in a chain. -/
structure Cursor (α : Type u) where
  /-- The cells that are still to be read. -/
  cells : Cells α

/-- The cursor in front of all items. -/
def cursor (c : Chain α) : Cursor α :=
  ⟨c.cells⟩

namespace Cursor

/-- Asks for the next item; the answer is nothing at the end. -/
def next (r : Cursor α) : Option α × Cursor α :=
  match r.cells with
  | .nil => (none, r)
  | .cons a _ cells => (some a, ⟨cells⟩)

/-- The cursor after asking for an item `n` times. -/
def advance : Nat → Cursor α → Cursor α
  | 0, r => r
  | n + 1, r => advance n r.next.2

/-- A lower and an upper bound for the number of items that are left. -/
def sizeHint (r : Cursor α) : Nat × Option Nat :=
  (r.cells.size, some r.cells.size)

/-- Moves up to `n` items onto a list, so that they end up in reverse. -/
def readOnto : Nat → Cursor α → List α → List α × Cursor α
  | 0, r, acc => (acc, r)
  | n + 1, r, acc =>
    match r.next with
    | (none, r) => (acc, r)
    | (some a, r) => readOnto n r (a :: acc)

/-- Up to `n` items, and the cursor behind them. -/
def read (n : Nat) (r : Cursor α) : List α × Cursor α :=
  let (items, left) := readOnto n r []
  (items.reverse, left)

/-- The items that are left. -/
def toList (r : Cursor α) : List α :=
  r.cells.toList

theorem fst_next (r : Cursor α) : r.next.1 = r.toList.head? := by
  obtain ⟨_ | ⟨a, n, cells⟩⟩ := r <;> simp [next, toList]

theorem advance_eq (n : Nat) (r : Cursor α) : r.advance n = ⟨r.cells.drop n⟩ := by
  induction n generalizing r with
  | zero => rfl
  | succ n ih =>
    rw [advance, ih]
    obtain ⟨_ | ⟨a, k, cells⟩⟩ := r
    · cases n <;> rfl
    · rfl

@[simp] theorem toList_advance (n : Nat) (r : Cursor α) :
    (r.advance n).toList = r.toList.drop n := by
  rw [advance_eq]
  exact Cells.toList_drop ..

theorem readOnto_eq (n : Nat) (r : Cursor α) (acc : List α) :
    readOnto n r acc = ((r.toList.take n).reverse ++ acc, r.advance n) := by
  induction n generalizing r acc with
  | zero => rfl
  | succ n ih =>
    obtain ⟨_ | ⟨a, k, cells⟩⟩ := r
    · -- Nothing is left, and asking again would change nothing.
      rw [advance_eq]
      rfl
    · refine (ih ⟨cells⟩ (a :: acc)).trans ?_
      simp [toList, advance, next]

theorem read_eq (n : Nat) (r : Cursor α) : r.read n = (r.toList.take n, r.advance n) := by
  rw [read, readOnto_eq]
  simp

end Cursor

/-- A cursor on a chain knows at any time how many items it has left. -/
theorem sizeHint_advance (c : Chain α) (n : Nat) : (c.cursor.advance n).sizeHint =
    (c.toList.length - n, some (c.toList.length - n)) := by
  have hsize : (c.cells.drop n).size = c.toList.length - n := by
    rw [(c.sized.drop n).size_eq, Cells.toList_drop, List.length_drop]
    rfl
  rw [Cursor.advance_eq, Cursor.sizeHint]
  exact congrArg (fun k => (k, some k)) hsize

end GridSat.Chain
