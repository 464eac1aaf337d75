import Mathlib.Logic.Embedding.Basic
import Std.Data.String.ToNat
import GridSat.Logic.Literal

/-!
# Numbers tell names

A name that gets a number keeps it. So of all names that are met in a run, each is found
at its number in the end (`internAll_keeps`), and as the table has one number for a name
and one name for a number, two of the numbers are equal exactly if the names are
(`numbers_tell_names`). So numbers are as good as names to keep variables apart, in whatever
order the names were met (`byNumber`).

A run fails only if there are not enough numbers left (`exists_internAll`).
-/

namespace GridSat.Interner

variable {t t' : Interner} {name name' : String} {names : List String} {number number' : Nat}
  {numbers : List Nat}

/-- The name has its number now, and no other number has changed its name. -/
theorem intern_keeps (h : t.intern name = some (number, t')) :
    t'.names[number]? = some name ∧
      ∀ (k : Nat) (other : String), t.names[k]? = some other → t'.names[k]? = some other := by
  unfold intern at h
  split at h
  · next found hfound =>
    obtain ⟨rfl, rfl⟩ := Prod.mk.inj (Option.some.inj h)
    exact ⟨(t.numbers_eq_some_iff name found).1 hfound, fun _ _ => id⟩
  · next hnew =>
    obtain ⟨_, h⟩ := Option.ite_none_right_eq_some.1 h
    obtain ⟨rfl, rfl⟩ := Prod.mk.inj (Option.some.inj h)
    refine ⟨Array.getElem?_push_size, fun k other hk => ?_⟩
    obtain ⟨hlt, hget⟩ := Array.getElem?_eq_some_iff.1 hk
    rw [add, Array.getElem?_push_lt hlt, hget]

/-- A run gives every name a number where it is found at the end of the run. -/
theorem internAll_keeps (h : t.internAll names = some (numbers, t')) :
    (∀ p ∈ names.zip numbers, t'.names[p.2]? = some p.1) ∧
      ∀ (k : Nat) (other : String), t.names[k]? = some other → t'.names[k]? = some other := by
  induction names generalizing t numbers with
  | nil =>
    obtain ⟨rfl, rfl⟩ := Prod.mk.inj (Option.some.inj h)
    exact ⟨fun _ hp => absurd hp List.not_mem_nil, fun _ _ => id⟩
  | cons name names ih =>
    rw [internAll] at h
    cases hname : t.intern name with
    | none => simp [hname] at h
    | some first =>
      obtain ⟨number, next⟩ := first
      cases hnames : next.internAll names with
      | none => simp [hname, hnames] at h
      | some rest =>
        obtain ⟨others, last⟩ := rest
        simp only [hname, hnames, Option.some.injEq, Prod.mk.injEq] at h
        obtain ⟨rfl, rfl⟩ := h
        obtain ⟨hnumber, hkeep⟩ := intern_keeps hname
        obtain ⟨hothers, hkeep'⟩ := ih hnames
        refine ⟨?_, fun k other hk => hkeep' k other (hkeep k other hk)⟩
        rw [List.zip_cons_cons]
        exact List.forall_mem_cons.2 ⟨hkeep' number name hnumber, hothers⟩

/-- Of the names of a run those are equal that have equal numbers. -/
theorem numbers_tell_names (h : t.internAll names = some (numbers, t'))
    (hname : (name, number) ∈ names.zip numbers) (hname' : (name', number') ∈ names.zip numbers) :
    number = number' ↔ name = name' := by
  have hnumber := (internAll_keeps h).1 _ hname
  have hnumber' := (internAll_keeps h).1 _ hname'
  constructor
  · rintro rfl
    exact Option.some.inj (hnumber.symm.trans hnumber')
  · rintro rfl
    rw [← t'.numbers_eq_some_iff] at hnumber hnumber'
    exact Option.some.inj (hnumber.symm.trans hnumber')

/-- A run ends with a number for every name, if so many are left. -/
theorem exists_internAll (h : t.names.size + names.length ≤ numberLimit) :
    ∃ numbers t', t.internAll names = some (numbers, t') ∧ numbers.length = names.length := by
  induction names generalizing t with
  | nil => exact ⟨[], t, rfl, rfl⟩
  | cons name names ih =>
    rw [List.length_cons] at h
    obtain ⟨number, next, hname, hsize⟩ : ∃ number next, t.intern name = some (number, next) ∧
        next.names.size ≤ t.names.size + 1 := by
      unfold intern
      split
      · exact ⟨_, _, rfl, Nat.le_succ _⟩
      · rw [if_pos (by omega)]
        exact ⟨_, _, rfl, Nat.le_of_eq (Array.size_push ..)⟩
    obtain ⟨numbers, last, hnames, hlength⟩ := @ih next (by omega)
    exact ⟨number :: numbers, last, by rw [internAll, hname]; simp only [hnames],
      congrArg Nat.succ hlength⟩

/-! ### Variables known by numbers -/

/-- The variable that has its number for a name. One without a number is marked instead. -/
def numbered (t : Interner) (x : Variable) : Variable :=
  match t.numbers[x.name]? with
  | some number => ⟨"#" ++ number.repr⟩
  | none => ⟨"?" ++ x.name⟩

theorem numbered_injective (t : Interner) : Function.Injective t.numbered := by
  have hmarks (s s' : String) : "#" ++ s ≠ "?" ++ s' := fun h => by
    have hlists := congrArg String.toList h
    rw [String.toList_append, String.toList_append] at hlists
    exact absurd (List.cons.inj hlists).1 (by decide)
  intro x y h
  obtain ⟨name⟩ := x
  obtain ⟨name'⟩ := y
  unfold numbered at h
  split at h <;> split at h
  · next number hnumber _ number' hnumber' =>
    have hsame : number = number' := Nat.repr_inj.1 (by simpa using h)
    rw [hsame, t.numbers_eq_some_iff] at hnumber
    rw [t.numbers_eq_some_iff] at hnumber'
    exact congrArg _ (Option.some.inj (hnumber.symm.trans hnumber'))
  · exact absurd (Variable.mk.inj h) (hmarks _ _)
  · exact absurd (Variable.mk.inj h).symm (hmarks _ _)
  · simpa using h

/-- Numbers as names. -/
def byNumber (t : Interner) : Variable ↪ Variable :=
  ⟨t.numbered, t.numbered_injective⟩

end GridSat.Interner
