import GridSat.Proofs.Dimacs.Writing
import GridSat.Proofs.Search.Satisfiability

/-!
# Writing a formula and reading it back

What is read back from the text of a formula are the integers that the names of its
variables add, if any, and those of its clauses (`readText_write_eq_ok_iff`). The
integers of the clauses make the formula with numbers for variables, in reverse
(`foldl_take_clauses`), and as different variables have different numbers, it is
satisfiable exactly if the formula is.

A name without a line feed adds nothing, and so formulas with such names are read
back (`readText_write_of_quiet`). A name with line feeds is safe only as long as
nothing on its stray lines is read. Otherwise there are more clauses and literals
than there were, or a word that is no integer (`quiet_of_length_eq`), or the input
ends before the first clause (`readText_write_of_stop`).
-/

namespace GridSat.Dimacs

variable {f : Formula} {x : Variable}

/-- What is read back: the integers that the names add, and those of the
    clauses. -/
theorem readText_write_eq_ok_iff (h : f.vars.length < Text.bound31)
    (hstop : ∀ x ∈ f.vars, ∀ line ∈ strayLines x, lineKind line ≠ .stop) {g : Formula} :
    readText (write f) = .ok g ↔
      ∃ ks, (f.vars.flatMap strayTokens).mapM Text.int32? = some ks ∧
        ((ks ++ f.toList.flatMap (clauseIntegers f)).foldl Draft.take {}).finish = g := by
  have hlines : ∀ line ∈ textLines f, lineKind line ≠ .stop := by
    intro line hline hkind
    obtain ⟨x, hx, hstray⟩ := exists_mem_strayLines_of_stop h hline hkind
    exact hstop x hx line hstray hkind
  rw [readText, read, lines_write, readLines_eq_ok_iff hlines, tokens_textLines h]
  simp only [mapM_append_eq_some_iff, mapM_flatMap_clauseTokens h fun _ => id]
  constructor
  · rintro ⟨_, ⟨ks, ks', hks, hks', rfl⟩, hg⟩
    obtain rfl := Option.some.inj hks'
    exact ⟨ks, hks, hg⟩
  · rintro ⟨ks, hks, hg⟩
    exact ⟨_, ⟨ks, _, hks, rfl, rfl⟩, hg⟩

/-! ### The formula that is read -/

/-- The formula with numbers for variables, which come out newest first in each
    clause, as do the clauses. -/
def renumbered (f : Formula) : Formula :=
  (f.rename (numeral f)).reversed

theorem foldl_take_integer (f : Formula) (ls : List Literal) (d : Draft) :
    (ls.map (integer f)).foldl Draft.take d =
      ⟨d.formula, .ofList ((ls.map (.rename (numeral f))).reverse ++ d.current.toList)⟩ := by
  induction ls generalizing d with
  | nil =>
    have hcurrent : Clause.ofList d.current.toList = d.current := Clause.ext (Clause.toList_ofList _)
    exact congrArg (Draft.mk d.formula) hcurrent.symm
  | cons l ls ih =>
    rw [List.map_cons, List.foldl_cons, Draft.take_of_literal (literal_integer f l), ih,
      Clause.toList_add, List.map_cons, List.reverse_cons, List.append_assoc]
    rfl

theorem foldl_take_clauseIntegers (f : Formula) (c : Clause) (g : Formula) :
    (clauseIntegers f c).foldl Draft.take ⟨g, .empty⟩ =
      ⟨g.add (c.rename (numeral f)).reversed, .empty⟩ := by
  have hclause : Clause.ofList ((c.toList.map (.rename (numeral f))).reverse ++ []) =
      (c.rename (numeral f)).reversed := by
    rw [Clause.reversed, Clause.toList_rename, List.append_nil]
  rw [clauseIntegers, List.foldl_append, foldl_take_integer]
  exact congrArg (fun c => (⟨g.add c, .empty⟩ : Draft)) hclause

theorem foldl_take_flatMap (f : Formula) (cs : List Clause) (g : Formula) :
    (cs.flatMap (clauseIntegers f)).foldl Draft.take ⟨g, .empty⟩ =
      ⟨.ofList ((cs.map fun c => (c.rename (numeral f)).reversed).reverse ++ g.toList), .empty⟩ := by
  induction cs generalizing g with
  | nil =>
    have hformula : Formula.ofList g.toList = g := Formula.ext (Formula.toList_ofList _)
    exact congrArg (Draft.mk · .empty) hformula.symm
  | cons c cs ih =>
    rw [List.flatMap_cons, List.foldl_append, foldl_take_clauseIntegers, ih, Formula.toList_add,
      List.map_cons, List.reverse_cons, List.append_assoc]
    rfl

/-- The integers of the clauses give the renumbered formula. -/
theorem foldl_take_clauses (f : Formula) :
    (f.toList.flatMap (clauseIntegers f)).foldl Draft.take {} = ⟨renumbered f, .empty⟩ := by
  rw [foldl_take_flatMap, renumbered, Formula.reversed, Formula.toList_rename, List.map_map]
  exact congrArg (fun cs => (⟨.ofList cs, .empty⟩ : Draft)) (List.append_nil _)

@[simp] theorem length_renumbered (f : Formula) : (renumbered f).length = f.length := by
  rw [renumbered, Formula.length_reversed, Formula.length_rename]

@[simp] theorem numLiterals_renumbered (f : Formula) :
    (renumbered f).numLiterals = f.numLiterals := by
  rw [renumbered, Formula.numLiterals_reversed, Formula.numLiterals_rename]

theorem length_flatMap_clauseIntegers (f : Formula) :
    (f.toList.flatMap (clauseIntegers f)).length = f.length + f.numLiterals := by
  have hdraft : (⟨renumbered f, .empty⟩ : Draft).size = f.length + f.numLiterals := by
    rw [Draft.size, length_renumbered, numLiterals_renumbered]
    rfl
  have hsize := Draft.size_foldl_take (f.toList.flatMap (clauseIntegers f)) {}
  have hempty : ({} : Draft).size = 0 := rfl
  rw [foldl_take_clauses, hdraft, hempty, Nat.zero_add] at hsize
  exact hsize.symm

theorem satisfiable_renumbered_iff (f : Formula) : (renumbered f).Satisfiable ↔ f.Satisfiable :=
  Formula.satisfiable_reversed_iff.trans
    (Formula.satisfiable_rename_iff fun _ hx _ _ hxy => numeral_inj hx hxy)

/-! ### Names that add nothing -/

/-- All stray lines of the name are skipped, if it has any. -/
def Quiet (x : Variable) : Prop :=
  ∀ line ∈ strayLines x, lineKind line = .skip

theorem quiet_of_lineFeed_notMem (h : '\n' ∉ x.name.toList) : Quiet x := by
  intro line hline
  rw [strayLines, List.splitOn_eq_singleton h] at hline
  exact absurd hline List.not_mem_nil

theorem readText_write_of_quiet (h : f.vars.length < Text.bound31)
    (hquiet : ∀ x ∈ f.vars, Quiet x) : readText (write f) = .ok (renumbered f) := by
  have hstray : f.vars.flatMap strayTokens = [] := by
    refine List.flatMap_eq_nil_iff.2 fun x hx => List.flatMap_eq_nil_iff.2 fun line hline => ?_
    rw [hquiet x hx line hline]
    rfl
  refine (readText_write_eq_ok_iff h fun x hx line hline => ?_).2 ⟨[], ?_, ?_⟩
  · rw [hquiet x hx line hline]
    nofun
  · rw [hstray]
    rfl
  · rw [List.nil_append, foldl_take_clauses]
    rfl

/-- A formula whose names have no line feed in them comes back with numbers for
    variables, and with its clauses and the literals in each of them in reverse. So
    it has as many clauses and literals as before, and a search finds an environment
    for it exactly if it does for the formula. -/
theorem readText_write (f : Formula) (hvars : f.vars.length ≤ 2147483647)
    (hnames : ∀ x ∈ f.vars, '\n' ∉ x.name.toList) :
    ∃ g, readText (write f) = .ok g ∧
      g.toList = (f.toList.map fun c => Clause.ofList (c.toList.map fun l =>
        ⟨l.polarity, ⟨toString (f.vars.idxOf l.var + 1)⟩⟩).reverse).reverse ∧
      g.length = f.length ∧ g.numLiterals = f.numLiterals ∧
      g.solve.isSome = f.solve.isSome ∧ (g.Satisfiable ↔ f.Satisfiable) := by
  have hread : readText (write f) = .ok (renumbered f) :=
    readText_write_of_quiet (Nat.lt_succ_of_le hvars) fun x hx =>
      quiet_of_lineFeed_notMem (hnames x hx)
  refine ⟨renumbered f, hread, ?_, length_renumbered f, numLiterals_renumbered f,
    Formula.isSome_solve_eq (satisfiable_renumbered_iff f), satisfiable_renumbered_iff f⟩
  rw [renumbered, Formula.toList_reversed, Formula.toList_rename, List.map_map]
  refine congrArg List.reverse (List.map_congr_left fun c _ => ?_)
  rw [Function.comp, Clause.reversed, Clause.toList_rename]
  rfl

/-- A formula with an empty clause, a repeated literal, and names that look like
    lines of their own. -/
def awkward : Formula :=
  let a := Literal.named "% 0\r"
  let b := Literal.named " 7"
  let c := Literal.named ""
  .ofList [.ofList [a, b.negated, a], .empty, .ofList [c.negated, b]]

theorem readText_write_awkward :
    awkward.vars.length ≤ 2147483647 ∧ (∀ x ∈ awkward.vars, '\n' ∉ x.name.toList) ∧
      ∃ g, readText (write awkward) = .ok g ∧
        g.toList = [.ofList [.named "2", (Literal.named "3").negated], .empty,
          .ofList [.named "1", (Literal.named "2").negated, .named "1"]] ∧
        g.numLiterals = 5 ∧ g.solve = none := by
  have hlist : awkward.vars = [⟨"% 0\r"⟩, ⟨" 7"⟩, ⟨""⟩] := by cbv
  have hvars : awkward.vars.length ≤ 2147483647 := hlist ▸ by decide
  have hnames : ∀ x ∈ awkward.vars, '\n' ∉ x.name.toList := hlist ▸ by decide
  obtain ⟨g, hread, hclauses, _, hliterals, hsolve, _⟩ := readText_write awkward hvars hnames
  refine ⟨hvars, hnames, g, hread, hclauses.trans ?_, hliterals, ?_⟩
  · rw [hlist]
    decide
  · rw [← Option.isNone_iff_eq_none, ← Option.not_isSome, hsolve]
    cbv

/-! ### Names that are read -/

theorem quiet_of_length_eq (h : f.vars.length < Text.bound31)
    (hstop : ∀ x ∈ f.vars, ∀ line ∈ strayLines x, lineKind line ≠ .stop) {g : Formula}
    (hread : readText (write f) = .ok g) (hlength : g.length = f.length)
    (hliterals : g.numLiterals = f.numLiterals) : ∀ x ∈ f.vars, Quiet x := by
  obtain ⟨ks, hks, rfl⟩ := (readText_write_eq_ok_iff h hstop).1 hread
  have hnil : f.vars.flatMap strayTokens = [] := by
    rw [← List.length_eq_zero_iff, ← length_of_mapM hks]
    have hle := Draft.size_le_finish ((ks ++ f.toList.flatMap (clauseIntegers f)).foldl .take {})
    rw [hlength, hliterals, Draft.size_foldl_take, List.length_append,
      length_flatMap_clauseIntegers] at hle
    omega
  intro x hx line hline
  refine LineKind.ofWords_eq_skip (hstop x hx line hline) ?_
  exact List.flatMap_eq_nil_iff.1 (List.flatMap_eq_nil_iff.1 hnil x hx) line hline

theorem readText_write_of_stop (hstop : ∃ x ∈ f.vars, ∃ line ∈ strayLines x, lineKind line = .stop)
    {f' : Formula} (hvars : f'.vars = f.vars) : readText (write f') = readText (write f) := by
  have hlines : ∃ line ∈ (comments f.vars).flatMap (·.splitOn '\n'), lineKind line = .stop := by
    obtain ⟨x, hx, line, hline, hkind⟩ := hstop
    obtain ⟨first, hfirst, _⟩ := exists_splitOn_comment x (number f x)
    have hcomment : line ∈ (comment x (number f x)).splitOn '\n' :=
      hfirst ▸ List.mem_cons_of_mem _ hline
    exact ⟨line, mem_lines_comments_iff.2 ⟨x, _, mem_zipIdx_vars_iff.2 ⟨hx, rfl⟩, hcomment⟩, hkind⟩
  have hread : ∀ {g : Formula}, g.vars = f.vars → readText (write g) =
      readLines (((comments f.vars).flatMap (·.splitOn '\n')).map Text.lineBytes) 1 {} := by
    intro g hg
    rw [readText, read, lines_write, textLines_eq_append, hg, readLines_append_of_stop hlines]
  rw [hread hvars, hread rfl]

/-- What line feeds in names do. If all stray lines are skipped, the formula is read
    back. It is read back only then, unless one of these lines ends the input, as
    any other line adds a clause or a literal or is an error. And if a stray line
    ends the input, it does so before the first clause, so that all formulas with
    these variables are read as the same formula. -/
theorem stray_lines_are_read (f : Formula) (hvars : f.vars.length ≤ 2147483647) :
    ((∀ x ∈ f.vars, Quiet x) → ∃ g, readText (write f) = .ok g ∧ g.length = f.length ∧
      g.numLiterals = f.numLiterals ∧ (g.Satisfiable ↔ f.Satisfiable)) ∧
    ((∀ x ∈ f.vars, ∀ line ∈ strayLines x, lineKind line ≠ .stop) →
      (∃ g, readText (write f) = .ok g ∧ g.length = f.length ∧ g.numLiterals = f.numLiterals) →
        ∀ x ∈ f.vars, Quiet x) ∧
    ((∃ x ∈ f.vars, ∃ line ∈ strayLines x, lineKind line = .stop) →
      ∀ f' : Formula, f'.vars = f.vars → readText (write f') = readText (write f)) := by
  have hbound : f.vars.length < Text.bound31 := Nat.lt_succ_of_le hvars
  refine ⟨fun hquiet => ?_, ?_, fun hstop f' => readText_write_of_stop hstop⟩
  · exact ⟨renumbered f, readText_write_of_quiet hbound hquiet, length_renumbered f,
      numLiterals_renumbered f, satisfiable_renumbered_iff f⟩
  · rintro hstop ⟨g, hread, hlength, hliterals⟩
    exact quiet_of_length_eq hbound hstop hread hlength hliterals

theorem stray_lines_are_read_comment :
    strayLines ⟨"x\nc 0"⟩ = ["c 0".toList] ∧
      ∃ g, readText (write (.ofVariable ⟨"x\nc 0"⟩)) = .ok g ∧ g.length = 1 ∧ g.numLiterals = 1 ∧
        g.Satisfiable := by
  have hlist : (Formula.ofVariable ⟨"x\nc 0"⟩).vars = [⟨"x\nc 0"⟩] := by cbv
  have hstray : strayLines ⟨"x\nc 0"⟩ = ["c 0".toList] := by decide
  have hskip : lineKind "c 0".toList = .skip := rfl
  have hquiet : ∀ x ∈ (Formula.ofVariable ⟨"x\nc 0"⟩).vars, Quiet x := by
    rw [hlist, List.forall_mem_singleton, Quiet, hstray, List.forall_mem_singleton]
    exact hskip
  obtain ⟨g, hread, hlength, hliterals, hsat⟩ :=
    (stray_lines_are_read (.ofVariable ⟨"x\nc 0"⟩) (hlist ▸ by decide)).1 hquiet
  exact ⟨hstray, g, hread, hlength, hliterals, hsat.2 ⟨fun _ => true, rfl⟩⟩

/-- The formula of a variable and its negation, which is false. -/
def clash (x : Variable) : Formula :=
  .ofList [.singleton (.positive x), .singleton (.negative x)]

theorem not_satisfiable_clash (x : Variable) : ¬(clash x).Satisfiable := by
  rintro ⟨v, hv⟩
  cases hx : v x <;>
    simp [clash, Formula.holds, Clause.holds, Literal.positive, Literal.negative, Literal.holds,
      Literal.evalWith, hx] at hv

/-- The case of a single variable whose name has a single stray line. -/
theorem readText_write_eq_ok_iff_of_data {line : List Char} {tokens : List String} {g : Formula}
    (hvars : f.vars = [x]) (hstray : strayLines x = [line]) (hkind : lineKind line = .data tokens) :
    readText (write f) = .ok g ↔ ∃ ks, tokens.mapM Text.int32? = some ks ∧
      ((ks ++ f.toList.flatMap (clauseIntegers f)).foldl Draft.take {}).finish = g := by
  have hbound : f.vars.length < Text.bound31 := by
    rw [hvars, List.length_singleton]
    decide
  have hstop : ∀ y ∈ f.vars, ∀ line ∈ strayLines y, lineKind line ≠ .stop := by
    rw [hvars, List.forall_mem_singleton, hstray, List.forall_mem_singleton, hkind]
    rintro ⟨⟩
  have htokens : f.vars.flatMap strayTokens = tokens := by
    rw [hvars, List.flatMap_singleton, strayTokens, hstray, List.flatMap_singleton, hkind]
    rfl
  rw [readText_write_eq_ok_iff hbound hstop, htokens]

/-- A zero in front of the clauses ends a clause without literals. -/
theorem not_satisfiable_of_zero (f : Formula) :
    ¬((0 :: f.toList.flatMap (clauseIntegers f)).foldl Draft.take {}).finish.Satisfiable := by
  rintro ⟨v, hv⟩
  rw [List.foldl_cons, Draft.take_zero, foldl_take_flatMap] at hv
  have hempty : Clause.empty.holds v = true := Formula.holds_iff.1 hv _ (by simp [Draft.finish])
  cases hempty

/-- A line feed in a name may add a clause that is false, add a word that is no
    integer, or hide all the clauses. -/
theorem line_feeds_change_formulas :
    ((Formula.ofVariable ⟨"x\n0"⟩).Satisfiable ∧
      ∃ g, readText (write (.ofVariable ⟨"x\n0"⟩)) = .ok g ∧ ¬g.Satisfiable) ∧
    (∀ g, readText (write (.ofVariable ⟨"x\ny"⟩)) ≠ .ok g) ∧
    ((Formula.ofVariable ⟨"x\n%"⟩).Satisfiable ∧ ¬(clash ⟨"x\n%"⟩).Satisfiable ∧
      readText (write (clash ⟨"x\n%"⟩)) = readText (write (.ofVariable ⟨"x\n%"⟩))) := by
  have hsat : ∀ x, (Formula.ofVariable x).Satisfiable := fun _ => ⟨fun _ => true, rfl⟩
  refine ⟨⟨hsat _, ?_⟩, ?_, hsat _, not_satisfiable_clash _, ?_⟩
  · have hvars : (Formula.ofVariable ⟨"x\n0"⟩).vars = [⟨"x\n0"⟩] := by cbv
    have hkind : lineKind ['0'] = .data ["0"] := rfl
    have hread := (readText_write_eq_ok_iff_of_data hvars (by decide) hkind).2 ⟨[0], by decide, rfl⟩
    exact ⟨_, hread, not_satisfiable_of_zero _⟩
  · intro g hread
    have hvars : (Formula.ofVariable ⟨"x\ny"⟩).vars = [⟨"x\ny"⟩] := by cbv
    have hkind : lineKind ['y'] = .data ["y"] := rfl
    obtain ⟨ks, hks, _⟩ := (readText_write_eq_ok_iff_of_data hvars (by decide) hkind).1 hread
    have hnone : ["y"].mapM Text.int32? = none := by decide
    exact absurd (hnone.symm.trans hks) (Option.some_ne_none ks).symm
  · have hvars : (Formula.ofVariable ⟨"x\n%"⟩).vars = [⟨"x\n%"⟩] := by cbv
    have hvars' : (clash ⟨"x\n%"⟩).vars = [⟨"x\n%"⟩] := by cbv
    have hstray : strayLines ⟨"x\n%"⟩ = [['%']] := by decide
    have hkind : lineKind ['%'] = .stop := rfl
    refine readText_write_of_stop ⟨_, hvars ▸ List.mem_singleton_self _, ['%'], ?_, hkind⟩
      (hvars'.trans hvars.symm)
    exact hstray ▸ List.mem_singleton_self _

end GridSat.Dimacs
