import Std.Data.String.ToNat
import GridSat.Dimacs.Writer
import GridSat.Proofs.Dimacs.Reading
import GridSat.Proofs.Logic.Renaming

/-!
# What is written for a formula

The writer gives each variable its place in the order of first appearance as a
number, and a literal is written as the number of its variable, with a minus sign
if it is negated. So different variables have different numbers (`numeral_inj`),
and the text of a literal is read as the literal of the number
(`int32?_literalText`, `literal_integer`).

The lines of the text are those of the comments, the problem line, and the lines of
the clauses. The problem line is skipped and the words of a clause are read. A
comment is skipped up to the first line feed in the name of its variable. What
comes after that is on lines of its own, the *stray* lines of the name, and may be
read like any other line. They are all that is read besides the clauses
(`tokens_textLines`), and no other line can end the input
(`exists_mem_strayLines_of_stop`).

Names are written in the comments only. What comes after them stays the same if the
variables get other names (`body_rename`).
-/

namespace GridSat.Dimacs

variable {f : Formula} {x : Variable} {l : Literal}

/-! ### Numbers of variables -/

/-- The number of a variable, which is its position in the formula, from one on. -/
def number (f : Formula) (x : Variable) : Nat :=
  f.vars.idxOf x + 1

/-- The variable that is named by the number of a variable. -/
def numeral (f : Formula) (x : Variable) : Variable :=
  ⟨toString (number f x)⟩

/-- The integer of a literal. -/
def integer (f : Formula) (l : Literal) : Int :=
  if l.polarity then number f l.var else -number f l.var

theorem mem_zipIdx_vars_iff {k : Nat} :
    (x, k) ∈ f.vars.zipIdx 1 ↔ x ∈ f.vars ∧ k = number f x := by
  rw [List.mk_mem_zipIdx_iff_le_and_getElem?_sub, List.getElem?_eq_some_iff, number]
  constructor
  · rintro ⟨hk, hlt, rfl⟩
    refine ⟨List.getElem_mem hlt, ?_⟩
    rw [f.nodup_vars.idxOf_getElem]
    omega
  · rintro ⟨hx, rfl⟩
    have hlt := List.idxOf_lt_length_of_mem hx
    exact ⟨Nat.le_add_left .., hlt, List.getElem_idxOf hlt⟩

theorem getD_numbering (hx : x ∈ f.vars) : (numbering f.vars).getD x 0 = number f x := by
  have hkeys : ((f.vars.zipIdx 1).map Prod.fst).Nodup := by
    rw [List.zipIdx_map_fst]
    exact f.nodup_vars
  have hget : (numbering f.vars)[x]? = some (number f x) :=
    getElem?_foldl_insert_of_mem hkeys (mem_zipIdx_vars_iff.2 ⟨hx, rfl⟩) ∅
  rw [Std.HashMap.getD_eq_getD_getElem?, hget, Option.getD_some]

theorem number_lt (h : f.vars.length < Text.bound31) (hx : x ∈ f.vars) :
    number f x < Text.bound31 :=
  Nat.lt_of_le_of_lt (List.idxOf_lt_length_of_mem hx) h

theorem numeral_inj {y : Variable} (hx : x ∈ f.vars) (h : numeral f x = numeral f y) : x = y := by
  have hnumber : (number f x).repr = (number f y).repr := congrArg Variable.name h
  exact (List.idxOf_inj hx).1 (Nat.succ.inj (Nat.repr_inj.1 hnumber))

theorem literal_integer (f : Formula) (l : Literal) :
    literal (integer f l) = .ok (l.rename (numeral f)) := by
  have hpos : 0 < (number f l.var : Int) := Int.natCast_pos.2 (Nat.succ_pos _)
  rw [literal, integer]
  split
  · next hl =>
    rw [if_neg (Int.ne_of_gt hpos), Int.natAbs_natCast, decide_eq_true hpos, ← hl]
    rfl
  · next hl =>
    rw [Bool.not_eq_true] at hl
    rw [if_neg (by omega), Int.natAbs_neg, Int.natAbs_natCast, decide_eq_false (by omega), ← hl]
    rfl

theorem literalText_eq (hl : l.var ∈ f.vars) : literalText (numbering f.vars) l =
    if l.polarity then (number f l.var).repr else "-" ++ (number f l.var).repr := by
  rw [literalText, getD_numbering hl]
  rfl

theorem int32?_literalText (h : f.vars.length < Text.bound31) (hl : l.var ∈ f.vars) :
    Text.int32? (literalText (numbering f.vars) l) = some (integer f l) := by
  have hlt := number_lt h hl
  rw [literalText_eq hl, integer]
  split
  · exact Text.int32?_repr hlt
  · exact Text.int32?_neg_repr hlt

theorem isWord_literalText (hl : l.var ∈ f.vars) :
    Text.IsWord (literalText (numbering f.vars) l) := by
  rw [literalText_eq hl]
  split
  · exact Text.isWord_repr _
  · have hlist : ("-" ++ (number f l.var).repr).toList = '-' :: (number f l.var).repr.toList := by
      rw [String.toList_append]
      rfl
    refine ⟨hlist ▸ List.cons_ne_nil _ _, hlist ▸ List.forall_mem_cons.2 ⟨by decide, ?_⟩⟩
    exact (Text.isWord_repr _).isBlank_eq

/-! ### Lines for variables and clauses -/

/-- The comment on a variable, without the line feed at its end. -/
def comment (x : Variable) (k : Nat) : List Char :=
  s!"c {k} {x.name}".toList

/-- What is left of a name after its first line feed, cut at the others. -/
def strayLines (x : Variable) : List (List Char) :=
  (x.name.toList.splitOn '\n').tail

theorem toList_comment (x : Variable) (k : Nat) :
    comment x k = 'c' :: ' ' :: (k.repr.toList ++ [' ']) ++ x.name.toList := by
  have hc : (toString "c ").toList = ['c', ' '] := rfl
  have hspace : (toString " ").toList = [' '] := rfl
  have hname : toString x.name = x.name := rfl
  have hnumber : toString k = k.repr := rfl
  simp only [comment, String.toList_append, hc, hspace, hname, hnumber, List.cons_append,
    List.nil_append, List.append_assoc]

theorem lineKind_cons_c (cs : List Char) : lineKind ('c' :: ' ' :: cs) = .skip := by
  have hword : Text.IsWord "c" := Text.isWord_of_toList_eq rfl (by decide)
  exact congrArg LineKind.ofWords (Text.words_cons_word hword (c := ' ') (by decide) cs)

/-- A comment is a line to be skipped, up to the first line feed in the name. -/
theorem exists_splitOn_comment (x : Variable) (k : Nat) :
    ∃ line, (comment x k).splitOn '\n' = line :: strayLines x ∧ lineKind line = .skip := by
  have hfeed : '\n' ∉ 'c' :: ' ' :: (k.repr.toList ++ [' ']) := by
    have hrepr : '\n' ∉ k.repr.toList := (Text.isWord_repr k).notMem (by decide)
    simpa using hrepr
  obtain ⟨first, hfirst⟩ : ∃ first, x.name.toList.splitOn '\n' = first :: strayLines x :=
    ⟨_, (List.cons_head_tail (List.splitOn_ne_nil '\n' x.name.toList)).symm⟩
  rw [toList_comment, Text.splitOn_append_of_not_mem hfeed, hfirst, List.modifyHead_cons]
  exact ⟨_, rfl, lineKind_cons_c _⟩

/-- The problem line, without the line feed at its end. -/
def problem (f : Formula) : List Char :=
  s!"p cnf {f.vars.length} {f.length}".toList

theorem toList_problem (f : Formula) : problem f =
    'p' :: ' ' :: ("cnf ".toList ++ (f.vars.length.repr.toList ++ ' ' :: f.length.repr.toList)) := by
  have hp : (toString "p cnf ").toList = 'p' :: ' ' :: "cnf ".toList := rfl
  have hspace : (toString " ").toList = [' '] := rfl
  simp [problem, hp, hspace]

theorem splitOn_problem (f : Formula) : (problem f).splitOn '\n' = [problem f] := by
  have hcnf : '\n' ∉ "cnf ".toList := by decide
  have hvars : '\n' ∉ f.vars.length.repr.toList := (Text.isWord_repr _).notMem (by decide)
  have hclauses : '\n' ∉ f.length.repr.toList := (Text.isWord_repr _).notMem (by decide)
  refine List.splitOn_eq_singleton ?_
  simp only [toList_problem, List.mem_cons, List.mem_append, hcnf, hvars, hclauses]
  decide

theorem lineKind_problem (f : Formula) : lineKind (problem f) = .skip := by
  have hword : Text.IsWord "p" := Text.isWord_of_toList_eq rfl (by decide)
  rw [toList_problem, lineKind]
  exact congrArg LineKind.ofWords (Text.words_cons_word hword (c := ' ') (by decide) _)

/-- The words of the line of a clause. -/
def clauseTokens (f : Formula) (c : Clause) : List String :=
  c.toList.map (literalText (numbering f.vars)) ++ ["0"]

/-- The line of a clause, without the line feed at its end. -/
def clauseText (f : Formula) (c : Clause) : List Char :=
  (String.intercalate " " (clauseTokens f c)).toList

/-- The integers of a clause. -/
def clauseIntegers (f : Formula) (c : Clause) : List Int :=
  c.toList.map (integer f) ++ [0]

section Clauses

variable {c : Clause}

theorem var_mem_vars (hc : c ∈ f.toList) (hl : l ∈ c.toList) : l.var ∈ f.vars :=
  Formula.mem_vars_iff.2 ⟨c, hc, l, hl, rfl⟩

theorem isWord_of_mem_clauseTokens (hc : c ∈ f.toList) {w : String} (hw : w ∈ clauseTokens f c) :
    Text.IsWord w := by
  rw [clauseTokens, List.mem_append, List.mem_map, List.mem_singleton] at hw
  rcases hw with ⟨l, hl, rfl⟩ | rfl
  · exact isWord_literalText (var_mem_vars hc hl)
  · exact Text.isWord_repr 0

theorem splitOn_clauseText (hc : c ∈ f.toList) :
    (clauseText f c).splitOn '\n' = [clauseText f c] :=
  List.splitOn_eq_singleton <| Text.lineFeed_notMem_intercalate fun _ =>
    isWord_of_mem_clauseTokens hc

theorem mapM_map_eq_some {α : Type} {text : α → String} {value : α → Int} {as : List α}
    (h : ∀ a ∈ as, Text.int32? (text a) = some (value a)) :
    (as.map text).mapM Text.int32? = some (as.map value) := by
  induction as with
  | nil => rfl
  | cons a as ih =>
    obtain ⟨ha, has⟩ := List.forall_mem_cons.1 h
    rw [List.map_cons, List.mapM_cons, ha, ih has]
    rfl

theorem mapM_clauseTokens (h : f.vars.length < Text.bound31) (hc : c ∈ f.toList) :
    (clauseTokens f c).mapM Text.int32? = some (clauseIntegers f c) := by
  refine mapM_append_eq_some_iff.2 ⟨_, [0], mapM_map_eq_some fun l hl => ?_, by decide, rfl⟩
  exact int32?_literalText h (var_mem_vars hc hl)

/-- A line of integers is a data line. -/
theorem ofWords_eq_data {ws : List String} {ks : List Int} (hne : ws ≠ [])
    (h : ws.mapM Text.int32? = some ks) : LineKind.ofWords ws = .data ws := by
  cases ws with
  | nil => exact absurd rfl hne
  | cons w ws =>
    have hw : Text.int32? w ≠ none := by
      intro hnone
      rw [List.mapM_cons, hnone] at h
      exact absurd h nofun
    have hstop : w ≠ "%" := fun hw' => hw (hw' ▸ by decide)
    have hskip : ¬(w = "c" ∨ w = "p") := by
      rintro (rfl | rfl) <;> exact hw (by decide)
    rw [LineKind.ofWords, if_neg hstop, if_neg hskip]

theorem lineKind_clauseText (h : f.vars.length < Text.bound31) (hc : c ∈ f.toList) :
    lineKind (clauseText f c) = .data (clauseTokens f c) := by
  rw [lineKind, clauseText, String.ofList_toList,
    Text.words_intercalate fun _ => isWord_of_mem_clauseTokens hc]
  exact ofWords_eq_data (by simp [clauseTokens]) (mapM_clauseTokens h hc)

end Clauses

/-! ### The lines of the text -/

/-- The comments on the variables of a list, numbered from one. -/
def comments (vars : List Variable) : List (List Char) :=
  (vars.zipIdx 1).map fun b => comment b.1 b.2

/-- All that is written, without the line feed at the end of each item. -/
def items (f : Formula) : List (List Char) :=
  comments f.vars ++ problem f :: f.toList.map (clauseText f)

/-- The lines of the text. -/
def textLines (f : Formula) : List (List Char) :=
  (items f).flatMap (·.splitOn '\n')

theorem toList_write (f : Formula) : (write f).toList = (items f).flatMap (· ++ ['\n']) := by
  have hfeed : (toString "\n").toList = ['\n'] := rfl
  have hfeed' : "\n".toList = ['\n'] := rfl
  simp only [write, items, comments, comment, commentLine, problem, problemLine, clauseText,
    clauseLine, clauseTokens, String.toList_append, String.toList_join, List.flatMap_append,
    List.flatMap_cons, List.flatMap_map, List.append_assoc, hfeed, hfeed']

theorem lines_write (f : Formula) :
    Text.lines (write f).toUTF8 = (textLines f).map Text.lineBytes :=
  Text.lines_toUTF8 (toList_write f)

/-- The lines of the comments come first. They depend on the variables only. -/
theorem textLines_eq_append (f : Formula) : textLines f =
    (comments f.vars).flatMap (·.splitOn '\n') ++ problem f :: f.toList.map (clauseText f) := by
  have hclauses : (f.toList.flatMap fun c => (clauseText f c).splitOn '\n') =
      f.toList.map (clauseText f) := by
    rw [List.flatMap_congr fun c hc => splitOn_clauseText hc, List.map_eq_flatMap]
  rw [textLines, items, List.flatMap_append, List.flatMap_cons, splitOn_problem, List.flatMap_map,
    hclauses]
  rfl

theorem mem_lines_comments_iff {vars : List Variable} {line : List Char} :
    line ∈ (comments vars).flatMap (·.splitOn '\n') ↔
      ∃ x k, (x, k) ∈ vars.zipIdx 1 ∧ line ∈ (comment x k).splitOn '\n' := by
  simp [comments]

/-- Only what comes after a line feed in a name can end the input. -/
theorem exists_mem_strayLines_of_stop (h : f.vars.length < Text.bound31) {line : List Char}
    (hline : line ∈ textLines f) (hstop : lineKind line = .stop) :
    ∃ x ∈ f.vars, line ∈ strayLines x := by
  rw [textLines_eq_append, List.mem_append, List.mem_cons, List.mem_map,
    mem_lines_comments_iff] at hline
  rcases hline with ⟨x, k, hx, hline⟩ | rfl | ⟨c, hc, rfl⟩
  · obtain ⟨first, hfirst, hskip⟩ := exists_splitOn_comment x k
    rw [hfirst] at hline
    rcases List.mem_cons.1 hline with rfl | hstray
    · exact absurd (hskip.symm.trans hstop) nofun
    · exact ⟨x, (mem_zipIdx_vars_iff.1 hx).1, hstray⟩
  · exact absurd ((lineKind_problem f).symm.trans hstop) nofun
  · exact absurd ((lineKind_clauseText h hc).symm.trans hstop) nofun

/-- The words of the stray lines of a name, as far as they are read. -/
def strayTokens (x : Variable) : List String :=
  (strayLines x).flatMap fun line => (lineKind line).tokens

theorem tokens_comments (vars : List Variable) :
    (((comments vars).flatMap (·.splitOn '\n')).flatMap fun line => (lineKind line).tokens) =
      vars.flatMap strayTokens := by
  have hvars : (vars.zipIdx 1).map Prod.fst = vars := List.zipIdx_map_fst ..
  conv_rhs => rw [← hvars, List.flatMap_map]
  rw [List.flatMap_assoc, comments, List.flatMap_map]
  refine List.flatMap_congr fun b _ => ?_
  obtain ⟨first, hfirst, hskip⟩ := exists_splitOn_comment b.1 b.2
  rw [hfirst, List.flatMap_cons, hskip]
  rfl

/-- What is read: the words of the stray lines, and those of the clauses. -/
theorem tokens_textLines (h : f.vars.length < Text.bound31) :
    ((textLines f).flatMap fun line => (lineKind line).tokens) =
      f.vars.flatMap strayTokens ++ f.toList.flatMap (clauseTokens f) := by
  have hclauses : (f.toList.flatMap fun c => (lineKind (clauseText f c)).tokens) =
      f.toList.flatMap (clauseTokens f) :=
    List.flatMap_congr fun c hc => congrArg LineKind.tokens (lineKind_clauseText h hc)
  rw [textLines_eq_append, List.flatMap_append, tokens_comments, List.flatMap_cons,
    lineKind_problem, List.flatMap_map, hclauses]
  rfl

theorem mapM_flatMap_clauseTokens (h : f.vars.length < Text.bound31) {cs : List Clause}
    (hcs : ∀ c ∈ cs, c ∈ f.toList) :
    (cs.flatMap (clauseTokens f)).mapM Text.int32? = some (cs.flatMap (clauseIntegers f)) := by
  induction cs with
  | nil => rfl
  | cons c cs ih =>
    obtain ⟨hc, hcs⟩ := List.forall_mem_cons.1 hcs
    rw [List.flatMap_cons, List.flatMap_cons]
    exact mapM_append_eq_some_iff.2 ⟨_, _, mapM_clauseTokens h hc, ih hcs, rfl⟩

/-! ### Other names -/

/-- The comments that the text of a formula begins with. -/
def commentBlock (f : Formula) : String :=
  String.join ((f.vars.zipIdx 1).map fun b => commentLine b.1 b.2)

/-- The problem line and the lines of the clauses, which come after the comments. -/
def body (f : Formula) : String :=
  problemLine f.vars.length f.length ++ String.join (f.toList.map (clauseLine (numbering f.vars)))

theorem write_eq_append (f : Formula) : write f = commentBlock f ++ body f :=
  String.append_assoc ..

section Renaming

variable {r : Variable → Variable} (hr : Function.Injective r)

include hr

theorem number_rename (f : Formula) (x : Variable) : number (f.rename r) (r x) = number f x := by
  have hbeq : (fun y => y == r x) ∘ r = fun y => y == x := funext fun _ => hr.beq_eq
  rw [number, Formula.vars_rename hr, List.idxOf, List.findIdx_map, hbeq]
  rfl

theorem literalText_rename (hl : l.var ∈ f.vars) :
    literalText (numbering (f.rename r).vars) (l.rename r) =
      literalText (numbering f.vars) l := by
  have hmem : (l.rename r).var ∈ (f.rename r).vars := by
    rw [Formula.vars_rename hr]
    exact List.mem_map_of_mem hl
  have hnumber : number (f.rename r) (l.rename r).var = number f l.var := number_rename hr f l.var
  rw [literalText_eq hmem, literalText_eq hl, hnumber]
  rfl

theorem body_rename (f : Formula) : body (f.rename r) = body f := by
  have hclauses : (f.rename r).toList.map (clauseLine (numbering (f.rename r).vars)) =
      f.toList.map (clauseLine (numbering f.vars)) := by
    rw [Formula.toList_rename, List.map_map]
    refine List.map_congr_left fun c hc => ?_
    have hliterals := List.map_congr_left fun l hl => literalText_rename hr (var_mem_vars hc hl)
    rw [Function.comp_apply, clauseLine, Clause.toList_rename, List.map_map, clauseLine, ← hliterals]
    rfl
  rw [body, hclauses, Formula.length_rename, Formula.vars_rename hr, List.length_map, body]

end Renaming

end GridSat.Dimacs
