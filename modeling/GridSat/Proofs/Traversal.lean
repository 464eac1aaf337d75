import Mathlib.Data.List.Enum
import Mathlib.Data.List.Forall2

/-!
# Going through a list

What comes of going through a list item by item, where an item may fail. If there is a
result for each item, the results are a list beside the list of items (`exists_forall₂`),
and otherwise there is a first item that fails, with items before it that do not
(`forall_or_exists_first`).

So a map over a list has the results of its items, or ends with the error of the first
item that has one (`mapM_eq_error_iff`). In a list of numbers in increasing order, those
before it are the smaller ones (`mapM_eq_error_iff_of_pairwise`). Items may be numbered
for their errors: those before the first that fails only count
(`mapM_zipIdx_append_of_error`). A search for the first hit ends alike
(`findSome?_zipIdx_append`).
-/

namespace GridSat

variable {α β ε : Type} {l before after : List α} {l' results : List β} {R S : α → β → Prop}

/-! ### Results beside items -/

theorem forall₂_imp_of_mem (h : List.Forall₂ R l l') (himp : ∀ a, ∀ b ∈ l', R a b → S a b) :
    List.Forall₂ S l l' := by
  rw [List.forall₂_iff_zip] at h ⊢
  exact ⟨h.1, fun hmem => himp _ _ (List.of_mem_zip hmem).2 (h.2 hmem)⟩

theorem exists_of_forall₂ (h : List.Forall₂ R l l') {a : α} (ha : a ∈ l) : ∃ b ∈ l', R a b := by
  induction h with
  | nil => exact absurd ha List.not_mem_nil
  | cons hab _ ih =>
    rcases List.mem_cons.1 ha with rfl | ha
    · exact ⟨_, List.mem_cons_self, hab⟩
    · obtain ⟨b, hb, hr⟩ := ih ha
      exact ⟨b, List.mem_cons_of_mem _ hb, hr⟩

theorem exists_forall₂ (h : ∀ a ∈ l, ∃ b, R a b) : ∃ l', List.Forall₂ R l l' := by
  induction l with
  | nil => exact ⟨[], .nil⟩
  | cons a l ih =>
    obtain ⟨⟨b, hb⟩, hl⟩ := List.forall_mem_cons.1 h
    obtain ⟨l', hl'⟩ := ih hl
    exact ⟨b :: l', .cons hb hl'⟩

/-- Unless all items of a list have a property, there is a first one without it. -/
theorem forall_or_exists_first (P : α → Prop) (l : List α) :
    (∀ a ∈ l, P a) ∨ ∃ before a after, l = before ++ a :: after ∧ (∀ b ∈ before, P b) ∧ ¬P a := by
  induction l with
  | nil => exact .inl nofun
  | cons a l ih =>
    by_cases ha : P a
    · rcases ih with hall | ⟨before, b, after, rfl, hbefore, hb⟩
      · exact .inl (List.forall_mem_cons.2 ⟨ha, hall⟩)
      · exact .inr ⟨a :: before, b, after, rfl, List.forall_mem_cons.2 ⟨ha, hbefore⟩, hb⟩
    · exact .inr ⟨[], a, l, rfl, nofun, ha⟩

/-! ### Steps that may fail -/

section Steps

variable {r : Except ε α} {f : α → Except ε β} {b : β} {e : ε}

theorem exists_eq_error_iff : (∃ e, r = .error e) ↔ ¬∃ a, r = .ok a := by
  cases r <;> simp

theorem bind_eq_ok_iff : r >>= f = .ok b ↔ ∃ a, r = .ok a ∧ f a = .ok b := by
  cases r <;> simp [bind, Except.bind]

theorem bind_eq_error_iff :
    r >>= f = .error e ↔ r = .error e ∨ ∃ a, r = .ok a ∧ f a = .error e := by
  cases r <;> simp [bind, Except.bind]

end Steps

/-! ### Maps -/

section Maps

variable {f : α → Except ε β} {a : α} {e : ε}

theorem mapM_congr {g : α → Except ε β} (h : ∀ a ∈ l, f a = g a) : l.mapM f = l.mapM g := by
  induction l with
  | nil => rfl
  | cons a l ih =>
    rw [List.forall_mem_cons] at h
    rw [List.mapM_cons, List.mapM_cons, h.1, ih h.2]

/-- A map in which nothing goes wrong. -/
theorem mapM_eq_ok {g : α → β} (h : ∀ a ∈ l, f a = .ok (g a)) : l.mapM f = .ok (l.map g) := by
  induction l with
  | nil => rfl
  | cons a l ih =>
    rw [List.forall_mem_cons] at h
    rw [List.mapM_cons, h.1, ih h.2]
    rfl

theorem mapM_of_forall₂ (h : List.Forall₂ (fun a b => f a = .ok b) l l') : l.mapM f = .ok l' := by
  induction h with
  | nil => rfl
  | cons ha _ ih =>
    rw [List.mapM_cons, ha, ih]
    rfl

theorem mapM_append_of_error (h : List.Forall₂ (fun a b => f a = .ok b) before results)
    (ha : f a = .error e) : (before ++ a :: after).mapM f = .error e := by
  rw [List.mapM_append, mapM_of_forall₂ h, List.mapM_cons, ha]
  rfl

theorem exists_mapM_eq_ok_iff :
    (∃ results, l.mapM f = .ok results) ↔ ∀ a ∈ l, ∃ b, f a = .ok b := by
  constructor
  · rintro ⟨results, h⟩
    induction l generalizing results with
    | nil => exact nofun
    | cons a l ih =>
      rw [List.mapM_cons, bind_eq_ok_iff] at h
      obtain ⟨b, ha, h⟩ := h
      obtain ⟨results, hl, _⟩ := bind_eq_ok_iff.1 h
      exact List.forall_mem_cons.2 ⟨⟨b, ha⟩, ih _ hl⟩
  · intro h
    obtain ⟨results, hresults⟩ := exists_forall₂ h
    exact ⟨results, mapM_of_forall₂ hresults⟩

/-- The error of a map is that of the first item that has one. -/
theorem mapM_eq_error_iff : l.mapM f = .error e ↔ ∃ before a after,
    l = before ++ a :: after ∧ (∀ b ∈ before, ∃ result, f b = .ok result) ∧ f a = .error e := by
  constructor
  · intro h
    rcases forall_or_exists_first (fun a => ∃ result, f a = .ok result) l with
      hall | ⟨before, a, after, rfl, hbefore, ha⟩
    · obtain ⟨results, hok⟩ := exists_mapM_eq_ok_iff.2 hall
      exact absurd (h.symm.trans hok) nofun
    · obtain ⟨results, hresults⟩ := exists_forall₂ hbefore
      obtain ⟨e', he'⟩ := exists_eq_error_iff.2 ha
      obtain rfl : e' = e :=
        Except.error.inj ((mapM_append_of_error hresults he').symm.trans h)
      exact ⟨before, a, after, rfl, hbefore, he'⟩
  · rintro ⟨before, a, after, rfl, hbefore, ha⟩
    obtain ⟨results, hresults⟩ := exists_forall₂ hbefore
    exact mapM_append_of_error hresults ha

end Maps

section Increasing

variable {before after l : List Nat} {f : Nat → Except ε β} {n k : Nat} {e : ε}

theorem mem_before_iff (h : (before ++ n :: after).Pairwise (· < ·)) :
    k ∈ before ↔ k ∈ before ++ n :: after ∧ k < n := by
  obtain ⟨_, hafter, hlt⟩ := List.pairwise_append.1 h
  constructor
  · intro hk
    exact ⟨List.mem_append_left _ hk, hlt k hk n List.mem_cons_self⟩
  · rintro ⟨hk, hkn⟩
    refine (List.mem_append.1 hk).resolve_right fun hmem => ?_
    rcases List.mem_cons.1 hmem with rfl | hmem
    · exact Nat.lt_irrefl _ hkn
    · exact Nat.lt_asymm hkn (List.rel_of_pairwise_cons hafter hmem)

/-- The first number that fails is the one of which all smaller ones do not. -/
theorem mapM_eq_error_iff_of_pairwise (h : l.Pairwise (· < ·)) : l.mapM f = .error e ↔
    ∃ n ∈ l, f n = .error e ∧ ∀ k ∈ l, k < n → ∃ result, f k = .ok result := by
  rw [mapM_eq_error_iff]
  constructor
  · rintro ⟨before, n, after, rfl, hbefore, hn⟩
    have hmem : n ∈ before ++ n :: after := List.mem_append_right _ List.mem_cons_self
    exact ⟨n, hmem, hn, fun k hk hkn => hbefore k ((mem_before_iff h).2 ⟨hk, hkn⟩)⟩
  · rintro ⟨n, hmem, hn, hsmaller⟩
    obtain ⟨before, after, rfl⟩ := List.append_of_mem hmem
    refine ⟨before, n, after, rfl, fun k hk => ?_, hn⟩
    obtain ⟨hmem, hkn⟩ := (mem_before_iff h).1 hk
    exact hsmaller k hmem hkn

end Increasing

section Numbered

variable {f : α × Nat → Except ε β} {a : α} {e : ε}

/-- If the positions only matter when something goes wrong, they do not matter. -/
theorem mapM_zipIdx_of_forall₂ (h : List.Forall₂ (fun a b => ∀ i, f (a, i) = .ok b) l l')
    (k : Nat) : (l.zipIdx k).mapM f = .ok l' := by
  induction h generalizing k with
  | nil => rfl
  | cons ha _ ih =>
    rw [List.zipIdx_cons, List.mapM_cons, ha, ih]
    rfl

/-- The position of the first item that fails is all that is left of those before it. -/
theorem mapM_zipIdx_append_of_error
    (h : List.Forall₂ (fun a b => ∀ i, f (a, i) = .ok b) before results) {k : Nat}
    (ha : f (a, before.length + k) = .error e) :
    ((before ++ a :: after).zipIdx k).mapM f = .error e := by
  rw [List.zipIdx_append, List.mapM_append, mapM_zipIdx_of_forall₂ h, List.zipIdx_cons,
    List.mapM_cons, Nat.add_comm k, ha]
  rfl

end Numbered

theorem findSome?_zipIdx_append {f : α × Nat → Option β} {a : α} {b : β}
    (h : ∀ c ∈ before, ∀ i, f (c, i) = none) {k : Nat} (ha : f (a, before.length + k) = some b) :
    ((before ++ a :: after).zipIdx k).findSome? f = some b := by
  have hbefore : (before.zipIdx k).findSome? f = none := by
    rw [List.findSome?_eq_none_iff]
    intro p hp
    exact h p.1 (List.fst_mem_of_mem_zipIdx hp) p.2
  rw [List.zipIdx_append, List.findSome?_append, hbefore, Option.none_or, List.zipIdx_cons,
    List.findSome?_cons, Nat.add_comm k, ha]

end GridSat
