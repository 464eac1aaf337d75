import Mathlib.Data.Finset.Card
import GridSat.Proofs.Logic.Truth
import GridSat.Proofs.Traversal

/-!
# Bindings one after the other

What an environment has after any list of bindings was made. One more binding
comes in front if its variable is unbound, changes nothing if it is there
already, and is refused if the variable has the other value
(`Environment.put_eq_ok_iff`, `put_eq_error_iff`). So, by induction from the end
of the list, the environment has the bindings of the list, each where it stands
first, and one for each variable (`toList_of_ofBindings`), and the first binding
that contradicts an earlier one is refused (`ofBindings_eq_error_iff`).

As no variable has two bindings, the ways to look one up agree: the search from
the newest binding on, and the table, into which a later binding would have gone
over an earlier one (`getElem?_toMap`). For the same reason there is one way only
to sort the bindings by name, so the text does not depend on their order
(`render_eq_of_perm`).
-/

namespace GridSat.Environment

variable {e e' : Environment} {x : Variable} {b : Bool} {bs bs' : List (Variable × Bool)}
  {c : Variable × Bool} {r : Rebinding}

/-! ### Bindings in a row -/

/-- A binding is refused if the variable has the other value. -/
theorem put_eq_error_iff : e.put x b = .error r ↔
    e.get? x = some r.current ∧ r.current ≠ b ∧ r.var = x ∧ r.wanted = b := by
  obtain ⟨y, current, wanted⟩ := r
  cases hx : e.get? x with
  | none =>
    obtain ⟨e', hput, _⟩ := exists_put_of_get?_eq_none hx b
    simp [hput]
  | some value =>
    rw [put_of_get?_eq_some hx]
    split
    · next h => exact iff_of_false nofun fun h' => h'.2.1 (Option.some.inj h'.1 ▸ h)
    · next h =>
      simp only [Except.error.injEq, Rebinding.mk.injEq, Option.some.injEq]
      constructor
      · rintro ⟨rfl, rfl, rfl⟩
        exact ⟨rfl, h, rfl, rfl⟩
      · rintro ⟨rfl, _, rfl, rfl⟩
        exact ⟨rfl, rfl, rfl⟩

/-- Makes further bindings, one after the other. -/
def putAll (e : Environment) (bs : List (Variable × Bool)) : Except Rebinding Environment :=
  bs.foldlM (fun e (x, b) => e.put x b) e

theorem putAll_cons (e : Environment) (x : Variable) (b : Bool) (bs : List (Variable × Bool)) :
    e.putAll ((x, b) :: bs) = e.put x b >>= (·.putAll bs) := rfl

@[simp] theorem putAll_singleton (e : Environment) (x : Variable) (b : Bool) :
    e.putAll [(x, b)] = e.put x b :=
  bind_pure _

theorem ofBindings_append (bs bs' : List (Variable × Bool)) :
    ofBindings (bs ++ bs') = ofBindings bs >>= (·.putAll bs') :=
  List.foldlM_append

/-- The bindings are those of the list, each where it stands first, and so are
    the variables. -/
theorem toList_of_ofBindings (h : ofBindings bs = .ok e) :
    e.toList = bs.eraseDups.reverse ∧
      e.toList.map Prod.fst = (bs.map Prod.fst).eraseDups.reverse := by
  -- The newest binding is the last one of the list.
  induction bs using List.reverseRecOn generalizing e with
  | nil =>
    cases h
    exact ⟨rfl, rfl⟩
  | append_singleton bs c ih =>
    obtain ⟨x, b⟩ := c
    rw [ofBindings_append, bind_eq_ok_iff] at h
    obtain ⟨e', hbs, hput⟩ := h
    rw [putAll_singleton, put_eq_ok_iff] at hput
    obtain ⟨hlist, hvars⟩ := ih hbs
    rw [List.map_append, List.map_singleton]
    rcases hput with ⟨hx, rfl⟩ | ⟨hx, hcons⟩
    · have hb : (x, b) ∈ bs := by
        simpa [hlist] using mem_toList_of_get? hx
      rw [eraseDups_concat_of_mem hb, eraseDups_concat_of_mem (List.mem_map_of_mem hb)]
      exact ⟨hlist, hvars⟩
    · have hnew : x ∉ bs.map Prod.fst := by
        simpa only [hvars, List.mem_reverse, List.mem_eraseDups] using get?_eq_none_iff.1 hx
      have hb : (x, b) ∉ bs := fun hmem => hnew (List.mem_map_of_mem hmem)
      rw [eraseDups_concat_of_notMem hb, eraseDups_concat_of_notMem hnew, List.reverse_concat,
        List.reverse_concat, hcons, List.map_cons, ← hlist, ← hvars]
      exact ⟨rfl, rfl⟩

theorem mem_toList_of_ofBindings (h : ofBindings bs = .ok e) : c ∈ e.toList ↔ c ∈ bs := by
  rw [(toList_of_ofBindings h).1, List.mem_reverse, List.mem_eraseDups]

theorem mem_vars_of_ofBindings (h : ofBindings bs = .ok e) :
    x ∈ e.toList.map Prod.fst ↔ x ∈ bs.map Prod.fst := by
  rw [(toList_of_ofBindings h).2, List.mem_reverse, List.mem_eraseDups]

/-- There are as many bindings as different variables. -/
theorem length_of_ofBindings (h : ofBindings bs = .ok e) :
    e.length = (bs.map Prod.fst).toFinset.card := by
  have hvars : (bs.map Prod.fst).toFinset = (e.toList.map Prod.fst).toFinset := by
    ext x
    rw [List.mem_toFinset, List.mem_toFinset, mem_vars_of_ofBindings h]
  have hnodup : (e.toList.map Prod.fst).Nodup := e.nodup
  rw [hvars, List.toFinset_card_of_nodup hnodup, List.length_map, length_toList]

/-- The first binding is refused that gives a variable the other value than an
    earlier one. -/
theorem ofBindings_eq_error_iff : ofBindings bs = .error r ↔
    ∃ before after e, bs = before ++ (r.var, r.wanted) :: after ∧ ofBindings before = .ok e ∧
      (r.var, r.current) ∈ before ∧ r.current ≠ r.wanted := by
  constructor
  · intro h
    induction bs using List.reverseRecOn with
    | nil => exact absurd h nofun
    | append_singleton bs c ih =>
      obtain ⟨x, b⟩ := c
      rw [ofBindings_append, bind_eq_error_iff] at h
      rcases h with h | ⟨e, hbs, hput⟩
      · obtain ⟨before, after, e, rfl, hbefore, hmem, hne⟩ := ih h
        exact ⟨before, after ++ [(x, b)], e, by simp, hbefore, hmem, hne⟩
      · rw [putAll_singleton, put_eq_error_iff] at hput
        obtain ⟨hx, hne, rfl, rfl⟩ := hput
        exact ⟨bs, [], e, rfl, hbs, (mem_toList_of_ofBindings hbs).1 (mem_toList_of_get? hx), hne⟩
  · rintro ⟨before, after, e, rfl, hbefore, hmem, hne⟩
    have hx := get?_eq_some_iff.2 ((mem_toList_of_ofBindings hbefore).2 hmem)
    have hput : e.put r.var r.wanted = .error r := put_eq_error_iff.2 ⟨hx, hne, rfl, rfl⟩
    rw [ofBindings_append, bind_eq_error_iff]
    exact .inr ⟨e, hbefore, bind_eq_error_iff.2 (.inl hput)⟩

/-- Bindings can be made unless a variable is to get both values. -/
theorem exists_ofBindings_iff :
    (∃ e, ofBindings bs = .ok e) ↔ ∀ x, (x, true) ∈ bs → (x, false) ∉ bs := by
  constructor
  · rintro ⟨e, h⟩ x htrue hfalse
    rw [← mem_toList_of_ofBindings h, ← get?_eq_some_iff] at htrue hfalse
    exact absurd (htrue.symm.trans hfalse) nofun
  · intro h
    cases hbs : ofBindings bs with
    | ok e => exact ⟨e, rfl⟩
    | error r =>
      obtain ⟨before, after, e, rfl, _, hmem, hne⟩ := ofBindings_eq_error_iff.1 hbs
      obtain ⟨x, current, wanted⟩ := r
      have hfalse := h x
      cases current <;> cases wanted <;> simp_all

/-! ### The table -/

@[simp] theorem getElem?_toMap (e : Environment) (x : Variable) : e.toMap[x]? = e.get? x := by
  rw [toMap, Chain.foldl_eq]
  cases hx : e.get? x with
  | none =>
    exact (getElem?_foldl_insert_of_notMem (get?_eq_none_iff.1 hx) _).trans
      Std.HashMap.getElem?_empty
  | some value => exact getElem?_foldl_insert_of_mem e.nodup (mem_toList_of_get? hx) _

/-! ### The text -/

/-- The name of the first variable is not after that of the second one. -/
def ByName (a b : Variable × Bool) : Prop :=
  a.1.name ≤ b.1.name

instance : DecidableRel ByName := fun a b =>
  inferInstanceAs (Decidable (a.1.name ≤ b.1.name))

theorem ByName.trans {a b c : Variable × Bool} (hab : ByName a b) (hbc : ByName b c) :
    ByName a c :=
  String.le_trans hab hbc

theorem ByName.total (a b : Variable × Bool) : ByName a b ∨ ByName b a :=
  String.le_total a.1.name b.1.name

theorem ByName.antisymm {a b : Variable × Bool} (hab : ByName a b) (hba : ByName b a) :
    a.1 = b.1 :=
  congrArg Variable.mk (String.le_antisymm hab hba)

theorem pairwise_mergeSort_byName (l : List (Variable × Bool)) :
    (l.mergeSort fun a b => decide (ByName a b)).Pairwise ByName := by
  refine (@List.pairwise_mergeSort _ (fun a b => decide (ByName a b)) ?_ ?_ l).imp of_decide_eq_true
  · intro a b c hab hbc
    exact decide_eq_true ((of_decide_eq_true hab).trans (of_decide_eq_true hbc))
  · intro a b
    simpa using ByName.total a b

/-- Only one order of the bindings is sorted, as no two of them are of one
    variable. -/
theorem eq_of_perm_toList {l l' : List (Variable × Bool)} (hl : l.Perm e.toList)
    (hl' : l'.Perm e.toList) (h : l.Pairwise ByName) (h' : l'.Pairwise ByName) : l = l' := by
  refine List.Perm.eq_of_pairwise (fun a b ha hb hab hba => ?_) h h' (hl.trans hl'.symm)
  exact List.inj_on_of_nodup_map e.nodup (hl.mem_iff.1 ha) (hl'.mem_iff.1 hb) (hab.antisymm hba)

theorem render_eq {sorted : List (Variable × Bool)} (hperm : sorted.Perm e.toList)
    (hsorted : sorted.Pairwise ByName) :
    e.render = "\x7b" ++ String.intercalate ", "
      (sorted.map fun (x, value) => s!"{x.name}: {value}") ++ "\x7d" := by
  rw [eq_of_perm_toList hperm (List.mergeSort_perm ..) hsorted (pairwise_mergeSort_byName _)]
  rfl

theorem render_eq_of_perm (h : e.toList.Perm e'.toList) : e.render = e'.render := by
  rw [render_eq (List.mergeSort_perm ..) (pairwise_mergeSort_byName e'.toList)]
  exact render_eq ((List.mergeSort_perm ..).trans h.symm) (pairwise_mergeSort_byName _)

/-- The same bindings, in any order and however often, can be made as well, and
    give the same text. -/
theorem exists_ofBindings_render_eq (h : ofBindings bs = .ok e) (hsame : ∀ c, c ∈ bs' ↔ c ∈ bs) :
    ∃ e', ofBindings bs' = .ok e' ∧ e'.render = e.render := by
  obtain ⟨e', h'⟩ : ∃ e', ofBindings bs' = .ok e' := by
    rw [exists_ofBindings_iff]
    simp only [hsame]
    exact exists_ofBindings_iff.1 ⟨e, h⟩
  refine ⟨e', h', render_eq_of_perm ?_⟩
  rw [List.perm_ext_iff_of_nodup e'.nodup_toList e.nodup_toList]
  intro c
  rw [mem_toList_of_ofBindings h', mem_toList_of_ofBindings h, hsame]

/-! ### Environments as maps -/

/-- Bindings can be made one after the other unless a variable is to get both
    values, and then the first binding is refused that contradicts an earlier
    one. Otherwise the environment has the bindings of the list, one for each
    variable, in the order in which the variables come up in it, the last one
    first. It has the values of the list, for the search and in the table alike,
    and its text only depends on what bindings there are. One more binding
    changes the value of an unbound variable, and of no other one, and nothing
    if it is there already. -/
theorem ofBindings_is_map (bs : List (Variable × Bool)) :
    ((∃ r, ofBindings bs = .error r) ↔ ∃ x, (x, true) ∈ bs ∧ (x, false) ∈ bs) ∧
    (∀ r, ofBindings bs = .error r → ∃ before after e, bs = before ++ (r.var, r.wanted) :: after ∧
      ofBindings before = .ok e ∧ (r.var, r.current) ∈ before ∧ r.current ≠ r.wanted) ∧
    ∀ e, ofBindings bs = .ok e →
      e.toList = bs.eraseDups.reverse ∧
      e.toList.map Prod.fst = (bs.map Prod.fst).eraseDups.reverse ∧
      e.length = (bs.map Prod.fst).toFinset.card ∧
      (∀ x b, e.get? x = some b ↔ (x, b) ∈ bs) ∧
      (∀ x, e.get? x = none ↔ x ∉ bs.map Prod.fst) ∧
      (∀ x, e.toMap[x]? = e.get? x) ∧
      (∀ x, e.get? x = none → ∀ b, ∃ e', e.put x b = .ok e' ∧ e'.get? x = some b ∧
        ∀ y, y ≠ x → e'.get? y = e.get? y) ∧
      (∀ x b, e.get? x = some b → e.put x b = .ok e) ∧
      (∀ sorted : List (Variable × Bool), sorted.Perm e.toList → sorted.Pairwise ByName →
        e.render = "\x7b" ++ String.intercalate ", "
          (sorted.map fun (x, value) => s!"{x.name}: {value}") ++ "\x7d") ∧
      ∀ bs', (∀ c, c ∈ bs' ↔ c ∈ bs) →
        ∃ e', ofBindings bs' = .ok e' ∧ e'.render = e.render := by
  refine ⟨?_, fun r h => ofBindings_eq_error_iff.1 h, fun e h => ?_⟩
  · rw [exists_eq_error_iff, exists_ofBindings_iff]
    push Not
    exact Iff.rfl
  · obtain ⟨hlist, hvars⟩ := toList_of_ofBindings h
    refine ⟨hlist, hvars, length_of_ofBindings h, fun x b => ?_, fun x => ?_, getElem?_toMap e,
      fun x hx b => ?_, fun x b hx => put_eq_ok_iff.2 (.inl ⟨hx, rfl⟩), fun _ => render_eq,
      fun bs' => exists_ofBindings_render_eq h⟩
    · rw [get?_eq_some_iff, mem_toList_of_ofBindings h]
    · rw [get?_eq_none_iff, mem_vars_of_ofBindings h]
    · obtain ⟨e', hput, _⟩ := exists_put_of_get?_eq_none hx b
      refine ⟨e', hput, ?_, fun y hy => ?_⟩
      · rw [get?_of_put hput, if_pos rfl]
      · rw [get?_of_put hput, if_neg hy]

theorem ofBindings_is_map_repeated :
    ∃ e e', ofBindings [(⟨"b"⟩, true), (⟨"a"⟩, false), (⟨"b"⟩, true)] = .ok e ∧
      e.toList = [(⟨"a"⟩, false), (⟨"b"⟩, true)] ∧ e.render = "\x7ba: false, b: true\x7d" ∧
      ofBindings [(⟨"a"⟩, false), (⟨"b"⟩, true)] = .ok e' ∧ e'.render = e.render := by
  have h : ofBindings [(⟨"b"⟩, true), (⟨"a"⟩, false), (⟨"b"⟩, true)] =
      .ok ⟨.ofList [(⟨"a"⟩, false), (⟨"b"⟩, true)], by decide⟩ := by decide
  obtain ⟨hlist, _, _, _, _, _, _, _, htext, hsame⟩ := (ofBindings_is_map _).2.2 _ h
  obtain ⟨e', h', htext'⟩ :=
    hsame [(⟨"a"⟩, false), (⟨"b"⟩, true)] (by simp [or_comm, or_left_comm])
  refine ⟨_, e', h, hlist.trans (by decide), ?_, h', htext'⟩
  exact htext [(⟨"a"⟩, false), (⟨"b"⟩, true)] (by decide) (by decide)

end GridSat.Environment
