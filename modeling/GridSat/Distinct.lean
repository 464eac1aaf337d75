import Std.Data.HashSet.Lemmas

/-!
# Distinct items

Keeping the first occurrence of every item of a list. The items met so far are
kept in a hash set, which decides membership only: the order of the result is
the order of first appearance (`distinct_eq_eraseDups`).
-/

namespace GridSat

universe u

variable {α : Type u} [BEq α] [Hashable α]

/-- Goes through a list, with the items seen and those kept so far, the latter
    newest first. -/
def distinctFrom : List α → Std.HashSet α → List α → List α
  | [], _, kept => kept.reverse
  | a :: l, seen, kept =>
    if seen.contains a then distinctFrom l seen kept
    else distinctFrom l (seen.insert a) (a :: kept)

/-- The different items of a list, in order of first appearance. -/
def distinct (l : List α) : List α :=
  distinctFrom l ∅ []

variable [LawfulBEq α] [LawfulHashable α]

theorem distinctFrom_eq (l : List α) (seen : Std.HashSet α) (kept : List α) :
    distinctFrom l seen kept =
      kept.reverse ++ (l.filter fun a => !seen.contains a).eraseDups := by
  induction l generalizing seen kept with
  | nil => simp [distinctFrom]
  | cons a l ih =>
    rw [distinctFrom]
    split
    · next h => rw [ih, List.filter_cons_of_neg (by simp [h])]
    · next h =>
      rw [ih, List.filter_cons_of_pos (by simpa using h), List.eraseDups_cons, List.filter_filter,
        List.reverse_cons, List.append_assoc, List.singleton_append]
      congr 4
      funext b
      rw [Std.HashSet.contains_insert, Bool.not_or, BEq.comm]

theorem distinct_eq_eraseDups (l : List α) : distinct l = l.eraseDups := by
  rw [distinct, distinctFrom_eq, List.filter_eq_self.2 (by simp)]
  rfl

end GridSat
