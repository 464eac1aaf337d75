import GridSat.Chain.Cells

/-!
# Chains

A *chain* is a persistent sequence whose cells all know their size. Items are
added in front, so a chain is read from the newest item to the oldest, and the
operations return new chains that share the cells they leave alone.

A chain is determined by the list of its items (`Chain.ext`), and each
operation is described through that list.
-/

namespace GridSat

universe u v

/-- A persistent sequence that knows its length. -/
structure Chain (α : Type u) where
  /-- The cells, newest item first. -/
  cells : Cells α
  /-- Every cell stores its size. -/
  sized : cells.Sized

namespace Chain

variable {α : Type u} {β : Type v}

/-- The items, newest first. -/
def toList (c : Chain α) : List α :=
  c.cells.toList

/-- The chain without items. -/
def empty : Chain α :=
  ⟨.nil, .nil⟩

instance : Inhabited (Chain α) := ⟨empty⟩

instance : EmptyCollection (Chain α) := ⟨empty⟩

/-- Adds an item in front. -/
def add (c : Chain α) (a : α) : Chain α :=
  ⟨c.cells.add a, c.sized.add a⟩

/-- The chain of a single item. -/
def singleton (a : α) : Chain α :=
  empty.add a

/-- The chain of the items of a list, in the order of the list. -/
def ofList (items : List α) : Chain α :=
  ⟨Cells.nil.addAll items.reverse, Cells.Sized.nil.addAll _⟩

/-- The number of items, read off the first cell. -/
def length (c : Chain α) : Nat :=
  c.cells.size

/-- Whether there are no items. -/
def isEmpty (c : Chain α) : Bool :=
  match c.cells with
  | .nil => true
  | .cons .. => false

/-- The newest item. -/
def first? (c : Chain α) : Option α :=
  match c.cells with
  | .nil => none
  | .cons a _ _ => some a

/-- The chain after its first `n` items. -/
def drop (n : Nat) (c : Chain α) : Chain α :=
  ⟨c.cells.drop n, c.sized.drop n⟩

/-- The chain after its newest item; the empty chain stays empty. -/
def rest (c : Chain α) : Chain α :=
  c.drop 1

/-- Puts the items of `d` in front of `c`, which is shared. -/
def append (c d : Chain α) : Chain α :=
  ⟨c.cells.addAll (d.cells.pourOnto []), c.sized.addAll _⟩

/-- Whether some item passes the test `p`. -/
@[inline] def any (c : Chain α) (p : α → Bool) : Bool :=
  c.cells.any p

/-- Whether every item passes the test `p`. -/
@[inline] def all (c : Chain α) (p : α → Bool) : Bool :=
  !c.cells.any fun a => !p a

/-- Combines the items, newest first, starting from `b`. -/
@[inline] def foldl (f : β → α → β) (b : β) (c : Chain α) : β :=
  c.cells.foldl f b

/-- The first value that `f` finds, newest item first. -/
@[inline] def findSome? (f : α → Option β) (c : Chain α) : Option β :=
  c.cells.findSome? f

/-- The chain of what `f` makes of the items, in the same order. -/
@[inline] def filterMap (f : α → Option β) (c : Chain α) : Chain β :=
  ⟨Cells.nil.addAll (c.cells.pourMapped f []), Cells.Sized.nil.addAll _⟩

section BEq

variable [BEq α]

/-- Whether `a` is among the items. -/
@[inline] def contains (c : Chain α) (a : α) : Bool :=
  c.any (· == a)

/-- Drops every occurrence of `a`, sharing what follows the last one. -/
@[inline] def remove (c : Chain α) (a : α) : Chain α :=
  ⟨c.cells.remove a, c.sized.remove a⟩

/-- Whether the items of two chains agree, one by one. Chains that are known to be stored
    in one place, as `same` tells, are not compared any further. -/
@[inline] def equal (same : Bool) (c d : Chain α) : Bool :=
  same || c.cells.equal d.cells

/-- Chains are compared with nothing known about where they are stored. -/
instance : BEq (Chain α) := ⟨equal false⟩

end BEq

/-- The items in brackets, newest first: `[1, 2]`. -/
def render [ToString α] (c : Chain α) : String :=
  "[" ++ String.intercalate ", " (c.toList.map toString) ++ "]"

/-! ### The list of items -/

/-- A chain is determined by its items. -/
@[ext] theorem ext {c d : Chain α} (h : c.toList = d.toList) : c = d := by
  obtain ⟨c, hc⟩ := c
  obtain ⟨d, hd⟩ := d
  obtain rfl := hc.eq_of_toList_eq hd h
  rfl

@[simp] theorem toList_empty : (empty : Chain α).toList = [] := rfl

@[simp] theorem toList_add (c : Chain α) (a : α) : (c.add a).toList = a :: c.toList :=
  Cells.toList_add ..

@[simp] theorem toList_singleton (a : α) : (singleton a).toList = [a] := rfl

@[simp] theorem toList_ofList (items : List α) : (ofList items).toList = items :=
  (Cells.toList_addAll ..).trans (by simp)

@[simp] theorem ofList_toList (c : Chain α) : ofList c.toList = c :=
  ext (toList_ofList _)

@[simp] theorem length_toList (c : Chain α) : c.toList.length = c.length :=
  c.sized.size_eq.symm

@[simp] theorem isEmpty_eq (c : Chain α) : c.isEmpty = c.toList.isEmpty := by
  obtain ⟨_ | ⟨a, n, c⟩, h⟩ := c <;> simp [isEmpty, toList]

@[simp] theorem first?_eq (c : Chain α) : c.first? = c.toList.head? := by
  obtain ⟨_ | ⟨a, n, c⟩, h⟩ := c <;> simp [first?, toList]

@[simp] theorem toList_drop (n : Nat) (c : Chain α) : (c.drop n).toList = c.toList.drop n :=
  Cells.toList_drop ..

@[simp] theorem toList_rest (c : Chain α) : c.rest.toList = c.toList.tail :=
  (toList_drop 1 c).trans List.drop_one

@[simp] theorem toList_append (c d : Chain α) : (c.append d).toList = d.toList ++ c.toList := by
  refine (Cells.toList_addAll ..).trans ?_
  rw [Cells.pourOnto_eq, List.append_nil, List.reverse_reverse]
  rfl

@[simp] theorem any_eq (c : Chain α) (p : α → Bool) : c.any p = c.toList.any p :=
  Cells.any_eq ..

@[simp] theorem all_eq (c : Chain α) (p : α → Bool) : c.all p = c.toList.all p := by
  rw [all, Cells.any_eq, List.all_eq_not_any_not]
  rfl

@[simp] theorem foldl_eq (f : β → α → β) (b : β) (c : Chain α) :
    foldl f b c = c.toList.foldl f b :=
  Cells.foldl_eq ..

@[simp] theorem findSome?_eq (f : α → Option β) (c : Chain α) :
    c.findSome? f = c.toList.findSome? f :=
  Cells.findSome?_eq ..

@[simp] theorem toList_filterMap (f : α → Option β) (c : Chain α) :
    (c.filterMap f).toList = c.toList.filterMap f := by
  refine (Cells.toList_addAll ..).trans ?_
  rw [Cells.pourMapped_eq, List.append_nil, List.reverse_reverse, Cells.toList_nil,
    List.append_nil]
  rfl

section BEq

variable [BEq α]

@[simp] theorem contains_iff [LawfulBEq α] {c : Chain α} {a : α} :
    c.contains a = true ↔ a ∈ c.toList := by
  simp [contains]

@[simp] theorem toList_remove (c : Chain α) (a : α) :
    (c.remove a).toList = c.toList.filter fun b => !(b == a) :=
  Cells.toList_remove ..

theorem beq_eq (c d : Chain α) : (c == d) = (c.toList == d.toList) :=
  c.sized.equal_eq d.sized

theorem beq_iff [LawfulBEq α] {c d : Chain α} : (c == d) = true ↔ c.toList = d.toList := by
  rw [beq_eq, beq_iff_eq]

/-- To know that two chains are the same changes no answer, if items equal themselves. An
    item that does not would be passed over. -/
theorem equal_iff [LawfulBEq α] {c d : Chain α} {same : Bool}
    (h : same = true → c.cells = d.cells) : c.equal same d = true ↔ c.toList = d.toList := by
  cases same with
  | true => exact iff_of_true rfl (congrArg Cells.toList (h rfl))
  | false => exact beq_iff

instance [LawfulBEq α] : LawfulBEq (Chain α) where
  eq_of_beq h := ext (beq_iff.1 h)
  rfl := beq_iff.2 rfl

end BEq

instance [DecidableEq α] : DecidableEq (Chain α) := fun c d =>
  if h : c == d then isTrue (eq_of_beq h) else isFalse fun e => h (e ▸ BEq.rfl)

end Chain

end GridSat
