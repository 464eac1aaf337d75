import GridSat.Dimacs.Reader
import GridSat.Proofs.Logic.Truth
import GridSat.Proofs.Text.Lines
import GridSat.Proofs.Text.Words

/-!
# What is read from lines

As long as no line ends the input, only the words of the data lines count, and the
lines that they stand on do not: reading succeeds exactly if all of these words are
integers, and what is read is what the integers make of the empty draft, one after
the other (`readLines_eq_ok_iff`).

Each integer shows in the result (`Draft.size_take`): a zero is one more clause and
anything else one more literal. So the numbers of clauses and literals that were
read tell how many integers there were at most.
-/

namespace GridSat.Dimacs

/-! ### Lines -/

/-- What a line of characters is for. -/
def lineKind (line : List Char) : LineKind :=
  .ofWords (Text.words (String.ofList line))

/-- The words to be read as integers. -/
def LineKind.tokens : LineKind → List String
  | stop | skip => []
  | data tokens => tokens

/-- A line read from its bytes may lack a carriage return, which is a blank. -/
theorem exists_lineText? (line : List Char) :
    ∃ text, Text.lineText? (Text.lineBytes line) = some text ∧
      LineKind.ofWords (Text.words text) = lineKind line := by
  rcases Text.lineText?_lineBytes line with htext | ⟨rest, rfl, htext⟩
  · exact ⟨_, htext, rfl⟩
  · refine ⟨_, htext, ?_⟩
    rw [lineKind, Text.words_append_blank_nil (by decide)]

theorem mapM_append_eq_some_iff {ts ts' : List String} {ks : List Int} :
    (ts ++ ts').mapM Text.int32? = some ks ↔ ∃ ks₁ ks₂, ts.mapM Text.int32? = some ks₁ ∧
      ts'.mapM Text.int32? = some ks₂ ∧ ks₁ ++ ks₂ = ks := by
  simp only [List.mapM_append, Option.bind_eq_bind, Option.bind_eq_some_iff, Option.pure_def,
    Option.some.injEq]
  exact ⟨fun ⟨ks₁, h₁, ks₂, h₂, h⟩ => ⟨ks₁, ks₂, h₁, h₂, h⟩,
    fun ⟨ks₁, ks₂, h₁, h₂, h⟩ => ⟨ks₁, h₁, ks₂, h₂, h⟩⟩

theorem readTokens_eq_ok_iff {line : Nat} {tokens : List String} {d d' : Draft} :
    readTokens line tokens d = .ok d' ↔
      ∃ ks, tokens.mapM Text.int32? = some ks ∧ ks.foldl Draft.take d = d' := by
  induction tokens generalizing d with
  | nil => simp [readTokens]
  | cons token tokens ih =>
    rw [readTokens, List.mapM_cons]
    cases htoken : Text.int32? token with
    | none => simp
    | some k =>
      simp only [ih, Option.bind_eq_bind, Option.bind_some, Option.bind_eq_some_iff, Option.pure_def,
        Option.some.injEq]
      constructor
      · rintro ⟨ks, hks, rfl⟩
        exact ⟨k :: ks, ⟨ks, hks, rfl⟩, rfl⟩
      · rintro ⟨_, ⟨ks, hks, rfl⟩, hd⟩
        exact ⟨ks, hks, hd⟩

/-- A data line is read if its words are integers and the other lines are read behind
    them. -/
theorem readLines_cons_data_eq_ok_iff {line : List UInt8} {lines : List (List UInt8)}
    {text : String} {tokens : List String} (htext : Text.lineText? line = some text)
    (hkind : LineKind.ofWords (Text.words text) = .data tokens) {number : Nat} {d : Draft}
    {f : Formula} :
    readLines (line :: lines) number d = .ok f ↔ ∃ ks, tokens.mapM Text.int32? = some ks ∧
      readLines lines (number + 1) (ks.foldl Draft.take d) = .ok f := by
  simp only [readLines, htext, hkind]
  cases hread : readTokens number tokens d with
  | error e =>
    refine iff_of_false (by rintro ⟨⟩) ?_
    rintro ⟨ks, hks, -⟩
    cases hread.symm.trans (readTokens_eq_ok_iff.2 ⟨ks, hks, rfl⟩)
  | ok d' =>
    obtain ⟨ks, hks, rfl⟩ := readTokens_eq_ok_iff.1 hread
    simp [hks]

theorem readLines_eq_ok_iff {lines : List (List Char)} {number : Nat} {d : Draft} {f : Formula}
    (h : ∀ line ∈ lines, lineKind line ≠ .stop) :
    readLines (lines.map Text.lineBytes) number d = .ok f ↔
      ∃ ks, (lines.flatMap fun line => (lineKind line).tokens).mapM Text.int32? = some ks ∧
        (ks.foldl Draft.take d).finish = f := by
  induction lines generalizing number d with
  | nil => simp [readLines]
  | cons line lines ih =>
    obtain ⟨hline, hlines⟩ := List.forall_mem_cons.1 h
    obtain ⟨text, htext, hkind⟩ := exists_lineText? line
    rw [List.map_cons, List.flatMap_cons]
    cases hk : lineKind line with
    | stop => exact absurd hk hline
    | skip =>
      simp only [readLines, htext, hkind, hk]
      exact ih hlines
    | data tokens =>
      rw [readLines_cons_data_eq_ok_iff htext (hkind.trans hk)]
      simp only [LineKind.tokens, mapM_append_eq_some_iff, ih hlines]
      constructor
      · rintro ⟨ks, hks, ks', hks', rfl⟩
        exact ⟨ks ++ ks', ⟨ks, ks', hks, hks', rfl⟩, by rw [List.foldl_append]⟩
      · rintro ⟨_, ⟨ks, ks', hks, hks', rfl⟩, rfl⟩
        exact ⟨ks, hks, ks', hks', by rw [List.foldl_append]⟩

/-- What comes after a line that ends the input makes no difference. -/
theorem readLines_append_of_stop {lines : List (List Char)}
    (h : ∃ line ∈ lines, lineKind line = .stop) (rest : List (List Char)) (number : Nat)
    (d : Draft) :
    readLines ((lines ++ rest).map Text.lineBytes) number d =
      readLines (lines.map Text.lineBytes) number d := by
  induction lines generalizing number d with
  | nil => exact absurd h (by simp)
  | cons line lines ih =>
    obtain ⟨text, htext, hkind⟩ := exists_lineText? line
    rw [List.cons_append, List.map_cons, List.map_cons, readLines, readLines, htext]
    simp only [hkind]
    cases hk : lineKind line with
    | stop => rfl
    | skip => exact ih (by simpa [hk] using h) _ _
    | data tokens =>
      dsimp only
      cases readTokens number tokens d with
      | error error => rfl
      | ok d' => exact ih (by simpa [hk] using h) _ _

/-- A data line has a word to be read. -/
theorem LineKind.ofWords_eq_skip {ws : List String} (hstop : ofWords ws ≠ .stop)
    (htokens : (ofWords ws).tokens = []) : ofWords ws = .skip := by
  cases ws with
  | nil => rfl
  | cons word words =>
    by_cases hpercent : word = "%"
    · exact absurd (if_pos hpercent) hstop
    · rw [ofWords, if_neg hpercent] at htokens ⊢
      split at htokens
      · next hword => rw [if_pos hword]
      · exact absurd htokens (List.cons_ne_nil _ _)

theorem length_of_mapM {ts : List String} {ks : List Int} (h : ts.mapM Text.int32? = some ks) :
    ks.length = ts.length := by
  induction ts generalizing ks with
  | nil => exact Option.some.inj h ▸ rfl
  | cons t ts ih =>
    simp only [List.mapM_cons, Option.bind_eq_bind, Option.bind_eq_some_iff, Option.pure_def,
      Option.some.injEq] at h
    obtain ⟨k, _, ks, hks, rfl⟩ := h
    rw [List.length_cons, List.length_cons, ih hks]

/-! ### Drafts -/

namespace Draft

variable {d : Draft} {k : Int}

theorem take_zero (d : Draft) : d.take 0 = ⟨d.formula.add d.current, .empty⟩ := rfl

theorem take_of_literal {l : Literal} (h : literal k = .ok l) :
    d.take k = ⟨d.formula, d.current.add l⟩ := by
  rw [take, h]

/-- The clauses and literals read so far. -/
def size (d : Draft) : Nat :=
  d.formula.length + d.formula.numLiterals + d.current.length

theorem size_take (d : Draft) (k : Int) : (d.take k).size = d.size + 1 := by
  rw [take]
  split
  · have hempty : Clause.empty.length = 0 := rfl
    simp only [size, Formula.length_add, Formula.numLiterals_add, hempty]
    omega
  · simp only [size, Clause.length_add]
    omega

theorem size_foldl_take (ks : List Int) (d : Draft) :
    (ks.foldl take d).size = d.size + ks.length := by
  induction ks generalizing d with
  | nil => rfl
  | cons k ks ih =>
    rw [List.foldl_cons, ih, size_take, List.length_cons]
    omega

theorem size_le_finish (d : Draft) : d.size ≤ d.finish.length + d.finish.numLiterals := by
  rw [finish, size]
  split
  · next h =>
    rw [Clause.isEmpty_eq, List.isEmpty_iff_length_eq_zero, Clause.length_toList] at h
    omega
  · rw [Formula.length_add, Formula.numLiterals_add]
    omega

end Draft

end GridSat.Dimacs
