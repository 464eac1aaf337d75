import Mathlib.Data.List.Perm.Subperm
import Std.Data.HashMap.Lemmas
import GridSat.Distinct

/-!
# Different items

The items that `distinct` keeps, the first occurrences of a list's
`List.eraseDups`, are different, and they are all there are exactly if the items
of the list were different already.

A further item at the end is kept if it is a new one (`eraseDups_concat_of_notMem`), and
items that are replaced one-to-one are kept or dropped as before (`eraseDups_map`).

A table that is filled with entries of different keys has all of them, as none is
overwritten by a later one (`getElem?_foldl_insert_of_mem`).
-/

namespace GridSat

universe u v

section Items

variable {α : Type u} [BEq α] [LawfulBEq α]

theorem nodup_eraseDups : (l : List α) → l.eraseDups.Nodup
  | [] => List.nodup_nil
  | a :: l => by
    rw [List.eraseDups_cons, List.nodup_cons, List.mem_eraseDups]
    exact ⟨by simp, nodup_eraseDups _⟩
termination_by l => l.length
decreasing_by exact Nat.lt_succ_of_le (List.length_filter_le ..)

/-- Nothing is dropped exactly if the items are different. -/
theorem length_eraseDups_eq_iff {l : List α} : l.eraseDups.length = l.length ↔ l.Nodup := by
  constructor
  · intro h
    have hsubset : l.eraseDups ⊆ l := fun _ => List.mem_eraseDups.1
    have hsubperm := List.subperm_of_subset (nodup_eraseDups l) hsubset
    exact (hsubperm.perm_of_length_le (Nat.le_of_eq h.symm)).nodup_iff.1 (nodup_eraseDups l)
  · intro h
    have hmem : ∀ a, a ∈ l.eraseDups ↔ a ∈ l := fun _ => List.mem_eraseDups
    exact ((List.perm_ext_iff_of_nodup (nodup_eraseDups l) h).2 hmem).length_eq

theorem eraseDups_concat_of_mem {l : List α} {a : α} (h : a ∈ l) :
    (l ++ [a]).eraseDups = l.eraseDups := by
  have hnone : [a].removeAll l = [] := by simp [List.removeAll, h]
  rw [List.eraseDups_append, hnone, List.eraseDups_nil, List.append_nil]

theorem eraseDups_concat_of_notMem {l : List α} {a : α} (h : a ∉ l) :
    (l ++ [a]).eraseDups = l.eraseDups ++ [a] := by
  have hkept : [a].removeAll l = [a] := by simp [List.removeAll, h]
  rw [List.eraseDups_append, hkept]
  rfl

variable {β : Type v} [BEq β] [LawfulBEq β] {f : α → β}

theorem filter_map_of_injective (hf : Function.Injective f) (l : List α) (a : α) :
    (l.map f).filter (fun b => !(b == f a)) = (l.filter fun b => !(b == a)).map f := by
  rw [List.filter_map]
  refine congrArg (List.map f) (List.filter_congr fun b _ => ?_)
  rw [Function.comp_apply, hf.beq_eq]

theorem eraseDups_map (hf : Function.Injective f) :
    (l : List α) → (l.map f).eraseDups = l.eraseDups.map f
  | [] => rfl
  | a :: l => by
    rw [List.map_cons, List.eraseDups_cons, List.eraseDups_cons, filter_map_of_injective hf,
      eraseDups_map hf, List.map_cons]
termination_by l => l.length
decreasing_by exact Nat.lt_succ_of_le (List.length_filter_le ..)

end Items

section Tables

variable {κ : Type u} {β : Type v} [BEq κ] [Hashable κ] [LawfulBEq κ] [LawfulHashable κ]

theorem getElem?_foldl_insert_of_notMem {k : κ} {bs : List (κ × β)} (h : k ∉ bs.map Prod.fst)
    (table : Std.HashMap κ β) :
    (bs.foldl (fun table b => table.insert b.1 b.2) table)[k]? = table[k]? := by
  induction bs generalizing table with
  | nil => rfl
  | cons b bs ih =>
    rw [List.map_cons, List.mem_cons, not_or] at h
    rw [List.foldl_cons, ih h.2, Std.HashMap.getElem?_insert, if_neg]
    rw [beq_iff_eq]
    exact Ne.symm h.1

theorem getElem?_foldl_insert_of_mem {b : κ × β} {bs : List (κ × β)}
    (hnodup : (bs.map Prod.fst).Nodup) (h : b ∈ bs) (table : Std.HashMap κ β) :
    (bs.foldl (fun table b => table.insert b.1 b.2) table)[b.1]? = some b.2 := by
  induction bs generalizing table with
  | nil => exact absurd h List.not_mem_nil
  | cons b' bs ih =>
    rw [List.map_cons, List.nodup_cons] at hnodup
    rw [List.foldl_cons]
    rcases List.mem_cons.1 h with rfl | h
    · rw [getElem?_foldl_insert_of_notMem hnodup.1, Std.HashMap.getElem?_insert_self]
    · exact ih hnodup.2 h _

end Tables

end GridSat
