import GridSat.Proofs.Dimacs.RoundTrip

/-!
# Going back by the comments

A text of a formula says which number each variable has, in a comment on a line of
its own. As long as no name has a line feed in it, these are the only lines that
look like such a comment (`names_write_iff`), and a comment tells the number and the
name (`comment_inj`). So an environment for the numbers can be translated into one
for the variables of the formula by the text alone, and it makes the formula that is
read true exactly if its translation makes the formula true
(`Translates.isSatisfiedBy_iff`).
-/

namespace GridSat.Dimacs

variable {f : Formula} {x y : Variable} {k m : Nat} {e e' : Environment}

/-! ### Comments as lines -/

/-- The text has a line with a comment that gives the variable this number. -/
def Names (t : String) (k : Nat) (x : Variable) : Prop :=
  s!"c {k} {x.name}".toList ∈ t.toList.splitOn '\n'

/-- A comment tells the number and the name. -/
theorem comment_inj (h : comment x k = comment y m) : x = y ∧ k = m := by
  have hspace : ∀ n : Nat, ' ' ∉ n.repr.toList := fun n => (Text.isWord_repr n).notMem (by decide)
  rw [toList_comment, toList_comment] at h
  simp only [List.cons_append, List.append_assoc, List.nil_append, List.cons.injEq, true_and] at h
  -- The number goes up to the first space.
  have hsplit := congrArg (·.splitOn ' ') h
  simp only [List.splitOn_append_cons_self_of_not_mem (hspace _), List.cons.injEq] at hsplit
  obtain rfl : k = m := Nat.repr_inj.1 (String.toList_inj.1 hsplit.1)
  have hname := (List.cons.inj (List.append_cancel_left h)).2
  exact ⟨congrArg Variable.mk (String.toList_inj.1 hname), rfl⟩

theorem splitOn_comment (hx : '\n' ∉ x.name.toList) (k : Nat) :
    (comment x k).splitOn '\n' = [comment x k] := by
  have hrepr : '\n' ∉ k.repr.toList := (Text.isWord_repr k).notMem (by decide)
  refine List.splitOn_eq_singleton ?_
  simp only [toList_comment, List.cons_append, List.mem_cons, List.mem_append, hrepr, hx]
  decide

/-- The lines of the text that look like comments are those on the variables. -/
theorem names_write_iff (h : f.vars.length < Text.bound31)
    (hnames : ∀ x ∈ f.vars, '\n' ∉ x.name.toList) :
    Names (write f) k x ↔ x ∈ f.vars ∧ k = number f x := by
  have hlines : (write f).toList.splitOn '\n' = textLines f ++ [[]] := by
    rw [toList_write, Text.splitOn_flatMap]
    rfl
  rw [Names, ← comment, hlines, textLines_eq_append]
  simp only [List.mem_append, List.mem_cons, List.mem_map, mem_lines_comments_iff, List.not_mem_nil,
    or_false]
  constructor
  · rintro ((⟨y, m, hy, hline⟩ | hline | ⟨c, hc, hline⟩) | hline)
    · rw [mem_zipIdx_vars_iff] at hy
      rw [splitOn_comment (hnames y hy.1), List.mem_singleton] at hline
      obtain ⟨rfl, rfl⟩ := comment_inj hline
      exact hy
    · rw [toList_comment, toList_problem] at hline
      exact absurd (List.cons.inj hline).1 (by decide)
    · have hskip : lineKind (comment x k) = .skip := by
        rw [toList_comment]
        exact lineKind_cons_c _
      rw [← hline, lineKind_clauseText h hc] at hskip
      cases hskip
    · rw [toList_comment] at hline
      cases hline
  · rintro ⟨hx, rfl⟩
    refine .inl (.inl ⟨x, number f x, mem_zipIdx_vars_iff.2 ⟨hx, rfl⟩, ?_⟩)
    rw [splitOn_comment (hnames x hx)]
    exact List.mem_singleton_self _

/-! ### Environments -/

/-- The second environment gives each variable that a comment of the text names the
    value that the first one gives to its number. -/
def Translates (t : String) (e e' : Environment) : Prop :=
  ∀ k x, Names t k x → e'.get? x = e.get? ⟨toString k⟩

/-- The bindings of the variables of the formula, by their numbers. -/
def translation (f : Formula) (e : Environment) : Environment where
  bindings := .ofList (f.vars.filterMap fun x => (e.get? (numeral f x)).map (x, ·))
  nodup := by
    rw [Chain.toList_ofList, List.map_filterMap]
    refine f.nodup_vars.filterMap fun x y z hx hy => ?_
    simp only [Option.map_map, Option.mem_def, Option.map_eq_some_iff, Function.comp] at hx hy
    obtain ⟨_, _, rfl⟩ := hx
    obtain ⟨_, _, rfl⟩ := hy
    rfl

theorem mem_translation_iff {b : Variable × Bool} : b ∈ (translation f e).toList ↔
    b.1 ∈ f.vars ∧ e.get? (numeral f b.1) = some b.2 := by
  obtain ⟨x, value⟩ := b
  rw [Environment.toList, translation, Chain.toList_ofList, List.mem_filterMap]
  simp

theorem translates_translation (h : f.vars.length < Text.bound31)
    (hnames : ∀ x ∈ f.vars, '\n' ∉ x.name.toList) (e : Environment) :
    Translates (write f) e (translation f e) := by
  intro k x hx
  obtain ⟨hmem, rfl⟩ := (names_write_iff h hnames).1 hx
  refine Option.ext fun value => ?_
  rw [Environment.get?_eq_some_iff, mem_translation_iff]
  exact and_iff_right hmem

/-- A model of what is read is one of the formula, once it is translated. -/
theorem Translates.isSatisfiedBy_iff (h : f.vars.length < Text.bound31)
    (hnames : ∀ x ∈ f.vars, '\n' ∉ x.name.toList) (he : Translates (write f) e e') :
    (renumbered f).isSatisfiedBy e = true ↔ f.isSatisfiedBy e' = true := by
  refine Formula.isSatisfiedBy_reversed_iff.trans (Formula.isSatisfiedBy_rename_iff fun x hx => ?_)
  exact he _ x ((names_write_iff h hnames).2 ⟨hx, rfl⟩)

end GridSat.Dimacs
