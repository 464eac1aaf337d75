/-!
# Cells

The cells of a persistent sequence. Each cell holds an item, the number of
items from it on, and the cells after it, which other sequences may share:
adding an item in front never touches what was there before.

The stored number is only worth reading if every cell got it right, which is
what `Cells.Sized` states. The items themselves are the list `Cells.toList`,
and every operation is described by what it does to that list:

* `toList_addAll`: adding items one after the other puts the last one first;
* `toList_remove`: removing an item filters out all its occurrences, although
  only the cells up to the last occurrence are rebuilt;
* `equal_eq`: comparison stops early on different sizes, and still gives what
  comparing the lists gives.

All traversals carry their result along, so that long sequences do not exhaust
the stack.
-/

namespace GridSat

universe u v

/-- The cells of a sequence: nothing, or an item in front of further cells,
    with the number of items from it on. -/
inductive Cells (α : Type u) where
  | nil : Cells α
  | cons (head : α) (size : Nat) (tail : Cells α) : Cells α

namespace Cells

variable {α : Type u} {β : Type v}

/-- The stored number of items. -/
def size : Cells α → Nat
  | nil => 0
  | cons _ n _ => n

/-- Every cell stores the number of items from it on. -/
inductive Sized : Cells α → Prop
  | nil : Sized nil
  | cons (a : α) {c : Cells α} : Sized c → Sized (cons a (c.size + 1) c)

/-- Moves the items, first one first, onto a list, so that they end up in
    reverse. -/
def pourOnto : Cells α → List α → List α
  | nil, acc => acc
  | cons a _ c, acc => pourOnto c (a :: acc)

/-- The items, first one first. -/
def toList (c : Cells α) : List α :=
  (c.pourOnto []).reverse

/-- Puts an item in front. -/
def add (c : Cells α) (a : α) : Cells α :=
  cons a (c.size + 1) c

/-- Puts items in front one after the other: the last of them ends up first. -/
def addAll (c : Cells α) (items : List α) : Cells α :=
  items.foldl add c

/-- The cells after the first `n`. -/
def drop : Nat → Cells α → Cells α
  | 0, c => c
  | _ + 1, nil => nil
  | n + 1, cons _ _ c => drop n c

/-- Whether some item passes the test `p`. -/
@[specialize] def any (p : α → Bool) : Cells α → Bool
  | nil => false
  | cons a _ c => if p a then true else any p c

/-- Combines the items, first one first, starting from `b`. -/
@[specialize] def foldl (f : β → α → β) (b : β) : Cells α → β
  | nil => b
  | cons a _ c => foldl f (f b a) c

/-- The first value that `f` finds, looking at the items from the first on. -/
@[specialize] def findSome? (f : α → Option β) : Cells α → Option β
  | nil => none
  | cons a _ c =>
    match f a with
    | some b => some b
    | none => findSome? f c

/-- Moves what `f` makes of the items, first one first, onto a list. -/
@[specialize] def pourMapped (f : α → Option β) : Cells α → List β → List β
  | nil, acc => acc
  | cons a _ c, acc =>
    match f a with
    | some b => pourMapped f c (b :: acc)
    | none => pourMapped f c acc

/-! ### Removal -/

section Removal

variable [BEq α]

/-- The position of the last item equal to `a`, counting from `i`, or `found`
    if there is none. -/
@[specialize] def lastPosition (a : α) : Cells α → Nat → Option Nat → Option Nat
  | nil, _, found => found
  | cons b _ c, i, found => lastPosition a c (i + 1) (if b == a then some i else found)

/-- Moves the items different from `a` among the first `n` onto a list. -/
@[specialize] def pourOthers (a : α) : Nat → Cells α → List α → List α
  | 0, _, acc => acc
  | _ + 1, nil, acc => acc
  | n + 1, cons b _ c, acc => pourOthers a n c (if b == a then acc else b :: acc)

/-- Drops every item equal to `a`. The cells after the last such item are
    shared, and if there is none the cells are returned as they are. -/
@[specialize] def remove (c : Cells α) (a : α) : Cells α :=
  match lastPosition a c 0 none with
  | none => c
  | some k => (c.drop (k + 1)).addAll (pourOthers a k c [])

/-- Whether the items agree one by one, from the first on. -/
@[specialize] def equalItems : Cells α → Cells α → Bool
  | nil, nil => true
  | cons a _ c, cons b _ d => if a == b then equalItems c d else false
  | _, _ => false

/-- Whether the items agree; cells of different sizes are told apart without
    looking at the items. -/
@[specialize] def equal (c d : Cells α) : Bool :=
  if c.size == d.size then equalItems c d else false

end Removal

/-! ### The list of items -/

theorem pourOnto_append (c : Cells α) (acc more : List α) :
    c.pourOnto (acc ++ more) = c.pourOnto acc ++ more := by
  induction c generalizing acc with
  | nil => rfl
  | cons a n c ih => exact ih (a :: acc)

theorem pourOnto_eq (c : Cells α) (acc : List α) : c.pourOnto acc = c.toList.reverse ++ acc := by
  rw [toList, List.reverse_reverse, ← pourOnto_append, List.nil_append]

@[simp] theorem toList_nil : (nil : Cells α).toList = [] := rfl

@[simp] theorem toList_cons (a : α) (n : Nat) (c : Cells α) :
    (cons a n c).toList = a :: c.toList := by
  rw [toList, pourOnto, pourOnto_eq]
  simp

@[simp] theorem toList_add (c : Cells α) (a : α) : (c.add a).toList = a :: c.toList :=
  toList_cons ..

@[simp] theorem toList_addAll (c : Cells α) (items : List α) :
    (c.addAll items).toList = items.reverse ++ c.toList := by
  induction items generalizing c with
  | nil => rfl
  | cons a items ih =>
    rw [addAll, List.foldl_cons]
    exact (ih _).trans (by simp)

@[simp] theorem toList_drop (n : Nat) (c : Cells α) : (drop n c).toList = c.toList.drop n := by
  fun_induction drop n c <;> simp_all

@[simp] theorem any_eq (p : α → Bool) (c : Cells α) : c.any p = c.toList.any p := by
  induction c with
  | nil => rfl
  | cons a n c ih =>
    rw [any, ih, toList_cons, List.any_cons]
    cases p a <;> rfl

@[simp] theorem foldl_eq (f : β → α → β) (b : β) (c : Cells α) :
    foldl f b c = c.toList.foldl f b := by
  induction c generalizing b with
  | nil => rfl
  | cons a n c ih => rw [foldl, ih, toList_cons, List.foldl_cons]

@[simp] theorem findSome?_eq (f : α → Option β) (c : Cells α) :
    c.findSome? f = c.toList.findSome? f := by
  induction c with
  | nil => rfl
  | cons a n c ih =>
    rw [findSome?, toList_cons, List.findSome?_cons, ih]
    cases f a <;> rfl

theorem pourMapped_eq (f : α → Option β) (c : Cells α) (acc : List β) :
    c.pourMapped f acc = (c.toList.filterMap f).reverse ++ acc := by
  induction c generalizing acc with
  | nil => rfl
  | cons a n c ih =>
    rw [pourMapped, toList_cons, List.filterMap_cons]
    cases f a <;> simp [ih]

/-! ### Stored sizes -/

theorem Sized.size_eq {c : Cells α} (h : c.Sized) : c.size = c.toList.length := by
  induction h with
  | nil => rfl
  | cons a h ih => rw [toList_cons, List.length_cons, ← ih, size]

theorem Sized.add {c : Cells α} (h : c.Sized) (a : α) : (c.add a).Sized :=
  .cons a h

theorem Sized.addAll {c : Cells α} (h : c.Sized) (items : List α) : (c.addAll items).Sized := by
  induction items generalizing c with
  | nil => exact h
  | cons a items ih => exact ih (h.add a)

theorem Sized.drop {c : Cells α} (h : c.Sized) (n : Nat) : (Cells.drop n c).Sized := by
  induction n generalizing c with
  | zero => exact h
  | succ n ih =>
    cases h with
    | nil => exact .nil
    | cons a h => exact ih h

/-- Sizes and items determine the cells. -/
theorem Sized.eq_of_toList_eq {c d : Cells α} (hc : c.Sized) (hd : d.Sized)
    (h : c.toList = d.toList) : c = d := by
  induction hc generalizing d with
  | nil =>
    cases hd with
    | nil => rfl
    | cons b hd => simp at h
  | cons a hc ih =>
    cases hd with
    | nil => simp at h
    | cons b hd =>
      simp only [toList_cons, List.cons.injEq] at h
      obtain ⟨rfl, h⟩ := h
      rw [ih hd h]

/-! ### Removal and comparison -/

section Removal

variable [BEq α]

theorem Sized.remove {c : Cells α} (h : c.Sized) (a : α) : (c.remove a).Sized := by
  unfold Cells.remove
  split
  · exact h
  · exact (h.drop _).addAll _

/-- What the search for the last position finds: nothing new if `a` does not
    occur, or else a position after which it does not occur. -/
theorem lastPosition_cases (a : α) (c : Cells α) (i : Nat) (found : Option Nat) :
    (lastPosition a c i found = found ∧ ∀ b ∈ c.toList, (b == a) = false) ∨
      ∃ k b, lastPosition a c i found = some (i + k) ∧ c.toList[k]? = some b ∧ (b == a) = true ∧
        ∀ b ∈ c.toList.drop (k + 1), (b == a) = false := by
  induction c generalizing i found with
  | nil => exact .inl ⟨rfl, by simp⟩
  | cons b n c ih =>
    rw [lastPosition]
    rcases ih (i + 1) (if b == a then some i else found) with ⟨h, hc⟩ | ⟨k, d, h, hk, hd, hc⟩
    · cases hb : b == a with
      | false => exact .inl ⟨by simpa [hb] using h, by simpa [hb] using hc⟩
      | true => exact .inr ⟨0, b, by simpa [hb] using h, by simp, hb, by simpa using hc⟩
    · exact .inr ⟨k + 1, d, by rw [h, Nat.add_right_comm, Nat.add_assoc], by simpa using hk, hd,
        by simpa using hc⟩

theorem pourOthers_eq (a : α) (n : Nat) (c : Cells α) (acc : List α) :
    pourOthers a n c acc = ((c.toList.take n).filter fun b => !(b == a)).reverse ++ acc := by
  induction n generalizing c acc with
  | zero => simp [pourOthers]
  | succ n ih =>
    cases c with
    | nil => simp [pourOthers]
    | cons b m c =>
      rw [pourOthers, ih, toList_cons, List.take_succ_cons]
      cases hb : b == a <;> simp [hb]

@[simp] theorem toList_remove (c : Cells α) (a : α) :
    (c.remove a).toList = c.toList.filter fun b => !(b == a) := by
  rw [remove]
  rcases lastPosition_cases a c 0 none with ⟨h, hc⟩ | ⟨k, b, h, hk, hb, hc⟩
  · rw [h]
    exact (List.filter_eq_self.2 fun b hb => by simp [hc b hb]).symm
  · -- Before position `k` the others are copied, at `k` the item goes, and
    -- after it nothing has to go.
    rw [h]
    simp only [Nat.zero_add, toList_addAll, pourOthers_eq, List.append_nil, List.reverse_reverse,
      toList_drop]
    obtain ⟨hlt, hget⟩ := List.getElem?_eq_some_iff.1 hk
    conv => rhs; rw [← List.take_append_drop k c.toList, List.filter_append,
      List.drop_eq_getElem_cons hlt, hget, List.filter_cons_of_neg (by simp [hb])]
    have hrest : (c.toList.drop (k + 1)).filter (fun b => !(b == a)) = c.toList.drop (k + 1) :=
      List.filter_eq_self.2 fun b hb => by simp [hc b hb]
    rw [hrest]

theorem equalItems_eq (c d : Cells α) : equalItems c d = (c.toList == d.toList) := by
  induction c generalizing d with
  | nil => cases d <;> simp [equalItems]
  | cons a n c ih =>
    cases d with
    | nil => simp [equalItems]
    | cons b m d =>
      rw [equalItems, toList_cons, toList_cons, List.cons_beq_cons, ih]
      cases a == b <;> rfl

theorem Sized.equal_eq {c d : Cells α} (hc : c.Sized) (hd : d.Sized) :
    equal c d = (c.toList == d.toList) := by
  rw [equal, hc.size_eq, hd.size_eq]
  split
  · exact equalItems_eq c d
  · next hsize =>
    refine (Bool.eq_false_iff.2 fun h => hsize ?_).symm
    rw [List.length_eq_of_beq h, BEq.rfl]

end Removal

end Cells

end GridSat
