import GridSat.Proofs.Dimacs.Reading
import GridSat.Proofs.Traversal

/-!
# The grammar of DIMACS

What any bytes are read as, said without the reader: the bytes fall into lines, the lines
up to the end of the input hold items (`Holds`), and the items have an answer (`Answer`).
A line that is no text is an item, and so is each word of a data line. The first item that
is no integer is the error. If there is none, the integers are cut at each zero, and the
pieces are the clauses.

The reader takes line after line and keeps the clause that is not ended in a draft. On
the lines of a file it does what it would do on their items (`Holds.readLines_eq`), and
on the items it gives their answer (`Answer.consume_eq`), for the draft is what the last
piece has become so far (`finish_foldl_take`). Lines, items and an answer are there for
any bytes, so there is nothing else that is read (`read_eq_iff`).
-/

namespace GridSat.Dimacs

/-! ### Lines and their items -/

/-- The line is a text of these words. -/
def LineWords (line : List UInt8) (ws : List String) : Prop :=
  ∃ cs, Text.encode cs = line ∧ Text.Spaced ws cs

/-- The first word of the line is a percent sign. -/
def EndsInput (line : List UInt8) : Prop :=
  ∃ ws, LineWords line ("%" :: ws)

/-- Something to be read. -/
inductive Item where
  /-- A line that is no text. -/
  | unreadable
  /-- A word of the data line of this number. -/
  | token (line : Nat) (word : String)

/-- What a line adds, if it does not end the input: a line that is blank, a comment or a
    problem line adds nothing. -/
inductive Adds (number : Nat) (line : List UInt8) : List Item → Prop
  | unreadable : (∀ cs, Text.encode cs ≠ line) → Adds number line [.unreadable]
  | nothing {ws : List String} : LineWords line ws → (∀ w ∈ ws.head?, w = "c" ∨ w = "p") →
      Adds number line []
  | tokens {w : String} {ws : List String} : LineWords line (w :: ws) → w ≠ "c" → w ≠ "p" →
      Adds number line ((w :: ws).map (.token number))

/-- The lines, the first of which has the given number, hold these items before the input
    ends. -/
inductive Holds : Nat → List (List UInt8) → List Item → Prop
  | nil {number : Nat} : Holds number [] []
  | ended {number : Nat} {line : List UInt8} {lines : List (List UInt8)} : EndsInput line →
      Holds number (line :: lines) []
  | kept {number : Nat} {line : List UInt8} {lines : List (List UInt8)} {part items : List Item} :
      ¬EndsInput line → Adds number line part → Holds (number + 1) lines items →
      Holds number (line :: lines) (part ++ items)

/-! ### Items and their answer -/

/-- The item is a numeral of the integer. -/
inductive Item.IsInteger : Item → Int → Prop
  | token {number : Nat} {word : String} {k : Int} : Text.IsInt32 word k →
      IsInteger (.token number word) k

/-- The variable named by the absolute value, with the sign of the integer. -/
def signedVariable (k : Int) : Literal :=
  ⟨decide (0 < k), ⟨toString k.natAbs⟩⟩

/-- The clause of integers, with the last of them in front. -/
def pieceClause (piece : List Int) : Clause :=
  .ofList (piece.map signedVariable).reverse

/-- The answer to the items: what is wrong with the first that is no integer, or else the
    formula of the pieces between zeros, where a last piece counts if it has an integer. -/
inductive Answer : List Item → Except Error Formula → Prop
  | unreadable {items rest : List Item} {ks : List Int} : List.Forall₂ Item.IsInteger items ks →
      Answer (items ++ .unreadable :: rest) (.error (.input .notText))
  | invalid {items rest : List Item} {ks : List Int} {number : Nat} {word : String} :
      List.Forall₂ Item.IsInteger items ks → (∀ k, ¬Text.IsInt32 word k) →
      Answer (items ++ .token number word :: rest) (.error (.invalidLiteral number word))
  | formula {items : List Item} {ks : List Int} {pieces : List (List Int)} {last : List Int} :
      List.Forall₂ Item.IsInteger items ks → ks.splitOn 0 = pieces ++ [last] →
      Answer items (.ok (.ofList
        ((pieces ++ if last = [] then [] else [last]).map pieceClause).reverse))

/-- The bytes have this answer. -/
def Parses (bytes : List UInt8) (r : Except Error Formula) : Prop :=
  ∃ lines items, Text.FallsInto bytes lines ∧ Holds 1 lines items ∧ Answer items r

/-! ### Reading items -/

/-- Takes the items one after the other. -/
def consume : List Item → Draft → Except Error Formula
  | [], d => .ok d.finish
  | .unreadable :: _, _ => .error (.input .notText)
  | .token number word :: items, d =>
    match Text.int32? word with
    | none => .error (.invalidLiteral number word)
    | some k => consume items (d.take k)

section Lines

variable {line : List UInt8} {lines : List (List UInt8)} {number : Nat} {ws : List String}

theorem lineWords_iff :
    LineWords line ws ↔ ∃ text, Text.lineText? line = some text ∧ Text.words text = ws := by
  constructor
  · rintro ⟨cs, rfl, hspaced⟩
    exact ⟨_, Text.lineText?_encode cs, hspaced.words_eq⟩
  · rintro ⟨text, htext, hwords⟩
    rw [← String.ofList_toList (s := text)] at hwords
    exact ⟨text.toList, Text.lineText?_eq_some_iff.1 htext, Text.words_eq_iff.1 hwords⟩

theorem readLines_cons_of_unreadable (h : ∀ cs, Text.encode cs ≠ line) (d : Draft) :
    readLines (line :: lines) number d = .error (.input .notText) := by
  have hnone : Text.lineText? line = none :=
    Option.eq_none_iff_forall_ne_some.2 fun text htext =>
      h text.toList (Text.lineText?_eq_some_iff.1 htext)
  rw [readLines, hnone]

theorem readLines_cons_of_words (h : LineWords line ws) (d : Draft) :
    readLines (line :: lines) number d =
      match LineKind.ofWords ws with
      | .stop => .ok d.finish
      | .skip => readLines lines (number + 1) d
      | .data tokens =>
        match readTokens number tokens d with
        | .error e => .error e
        | .ok d => readLines lines (number + 1) d := by
  obtain ⟨text, htext, rfl⟩ := lineWords_iff.1 h
  have hread : readLines (line :: lines) number d = _ := readLines.eq_2 ..
  rw [htext] at hread
  exact hread

/-- The words of a line are taken one after the other. -/
theorem consume_tokens (number : Nat) (tokens : List String) (items : List Item) (d : Draft) :
    consume (tokens.map (.token number) ++ items) d =
      match readTokens number tokens d with
      | .error e => .error e
      | .ok d => consume items d := by
  induction tokens generalizing d with
  | nil => rfl
  | cons token tokens ih =>
    rw [List.map_cons, List.cons_append, consume, readTokens]
    cases Text.int32? token with
    | none => rfl
    | some k => exact ih _

/-- Reading lines is reading the items that they hold. -/
theorem Holds.readLines_eq {items : List Item} (h : Holds number lines items) (d : Draft) :
    readLines lines number d = consume items d := by
  induction h generalizing d with
  | nil => rfl
  | ended hends =>
    obtain ⟨ws, hws⟩ := hends
    rw [readLines_cons_of_words hws]
    rfl
  | @kept number line lines part items hends hadds _ ih =>
    cases hadds with
    | unreadable htext => exact readLines_cons_of_unreadable htext d
    | @nothing ws hws hhead =>
      have hskip : LineKind.ofWords ws = .skip := by
        cases ws with
        | nil => rfl
        | cons w ws =>
          have hw := hhead w rfl
          rw [LineKind.ofWords, if_neg (by rintro rfl; exact absurd hw (by decide)), if_pos hw]
      rw [readLines_cons_of_words hws, hskip]
      exact ih d
    | @tokens w ws hws hc hp =>
      have hdata : LineKind.ofWords (w :: ws) = .data (w :: ws) := by
        rw [LineKind.ofWords, if_neg (by rintro rfl; exact hends ⟨ws, hws⟩),
          if_neg (not_or.2 ⟨hc, hp⟩)]
      rw [readLines_cons_of_words hws, hdata, consume_tokens]
      simp only [ih]

theorem exists_holds (lines : List (List UInt8)) (number : Nat) :
    ∃ items, Holds number lines items := by
  induction lines generalizing number with
  | nil => exact ⟨[], .nil⟩
  | cons line lines ih =>
    obtain ⟨items, hitems⟩ := ih (number + 1)
    by_cases hends : EndsInput line
    · exact ⟨[], .ended hends⟩
    by_cases htext : ∃ cs, Text.encode cs = line
    · obtain ⟨cs, hcs⟩ := htext
      obtain ⟨ws, hws⟩ := Text.exists_spaced cs
      cases ws with
      | nil => exact ⟨_, .kept hends (.nothing ⟨cs, hcs, hws⟩ nofun) hitems⟩
      | cons w ws =>
        by_cases hw : w = "c" ∨ w = "p"
        · exact ⟨_, .kept hends (.nothing ⟨cs, hcs, hws⟩ (by simpa using hw)) hitems⟩
        · rw [not_or] at hw
          exact ⟨_, .kept hends (.tokens ⟨cs, hcs, hws⟩ hw.1 hw.2) hitems⟩
    · exact ⟨_, .kept hends (.unreadable (not_exists.1 htext)) hitems⟩

end Lines

/-! ### Cutting at zeros -/

theorem literal_of_ne_zero {k : Int} (h : k ≠ 0) : literal k = .ok (signedVariable k) :=
  if_neg h

theorem toList_pieceClause (piece : List Int) :
    (pieceClause piece).toList = (piece.map signedVariable).reverse :=
  Clause.toList_ofList _

theorem pieceClause_append (piece : List Int) (k : Int) :
    pieceClause (piece ++ [k]) = (pieceClause piece).add (signedVariable k) := by
  apply Clause.ext
  rw [Clause.toList_add, toList_pieceClause, toList_pieceClause, List.map_append,
    List.reverse_append]
  rfl

/-- The draft holds the clauses of the pieces that were ended and that of the piece so far. -/
theorem finish_foldl_take {ks piece last : List Int} {pieces : List (List Int)} (hpiece : 0 ∉ piece)
    (h : (piece ++ ks).splitOn 0 = pieces ++ [last]) (f : Formula) :
    (ks.foldl Draft.take ⟨f, pieceClause piece⟩).finish = .ofList
      (((pieces ++ if last = [] then [] else [last]).map pieceClause).reverse ++ f.toList) := by
  -- By induction on the integers to come, with the piece so far in front of them: a zero
  -- ends the piece, and any other integer becomes its last.
  induction ks generalizing piece pieces f with
  | nil =>
    rw [List.append_nil, List.splitOn_eq_singleton hpiece] at h
    obtain ⟨rfl, hlast⟩ := List.append_inj' ((List.nil_append _).trans h) rfl
    obtain rfl : piece = last := List.singleton_inj.1 hlast
    apply Formula.ext
    rw [List.foldl_nil, Draft.finish, Clause.isEmpty_eq, toList_pieceClause]
    by_cases hnil : piece = []
    · simp [hnil]
    · simp [hnil]
  | cons k ks ih =>
    rw [List.foldl_cons]
    by_cases hk : k = 0
    · subst hk
      rw [List.splitOn_append_cons_self_of_not_mem hpiece] at h
      -- The piece that was ended is not the last, for something follows each zero.
      rcases List.cons_eq_append_iff.1 h with ⟨-, hlast⟩ | ⟨pieces, rfl, hpieces⟩
      · exact absurd (List.cons.inj hlast).2.symm (List.splitOn_ne_nil 0 ks)
      · have hfinish := ih List.not_mem_nil hpieces (f.add (pieceClause piece))
        rw [Formula.toList_add] at hfinish
        rw [Draft.take_zero, List.cons_append, List.map_cons, List.reverse_cons, List.append_assoc]
        exact hfinish
    · rw [Draft.take_of_literal (literal_of_ne_zero hk), ← pieceClause_append]
      have hpiece' : 0 ∉ piece ++ [k] := by
        simpa [hpiece] using Ne.symm hk
      exact ih hpiece' (by rw [List.append_assoc, List.singleton_append, h]) f

/-! ### Answers -/

theorem Item.IsInteger.consume_cons {item : Item} {k : Int} (h : item.IsInteger k)
    (items : List Item) (d : Draft) : consume (item :: items) d = consume items (d.take k) := by
  obtain ⟨hword⟩ := h
  rw [consume, Text.int32?_eq_some_iff.2 hword]

theorem consume_append {items : List Item} {ks : List Int}
    (h : List.Forall₂ Item.IsInteger items ks) (rest : List Item) (d : Draft) :
    consume (items ++ rest) d = consume rest (ks.foldl Draft.take d) := by
  induction h generalizing d with
  | nil => rfl
  | cons hitem _ ih => rw [List.cons_append, hitem.consume_cons, ih, List.foldl_cons]

theorem Answer.consume_eq {items : List Item} {r : Except Error Formula} (h : Answer items r) :
    consume items {} = r := by
  cases h with
  | unreadable hitems =>
    rw [consume_append hitems]
    rfl
  | @invalid items rest ks number word hitems hword =>
    have hnone : Text.int32? word = none :=
      Option.eq_none_iff_forall_ne_some.2 fun k hk => hword k (Text.int32?_eq_some_iff.1 hk)
    rw [consume_append hitems, consume, hnone]
  | @formula items ks pieces last hitems hpieces =>
    have hfinish := finish_foldl_take List.not_mem_nil hpieces .empty
    rw [Formula.toList_empty, List.append_nil] at hfinish
    rw [← hfinish, ← List.append_nil items, consume_append hitems]
    rfl

theorem exists_answer (items : List Item) : ∃ r, Answer items r := by
  rcases forall_or_exists_first (fun item => ∃ k, Item.IsInteger item k) items with
    hall | ⟨before, item, after, rfl, hbefore, hitem⟩
  · obtain ⟨ks, hks⟩ := exists_forall₂ hall
    obtain ⟨pieces, last, hpieces⟩ := Text.exists_splitOn_eq_append 0 ks
    exact ⟨_, .formula hks hpieces⟩
  · obtain ⟨ks, hks⟩ := exists_forall₂ hbefore
    cases item with
    | unreadable => exact ⟨_, .unreadable hks⟩
    | token number word => exact ⟨_, .invalid hks fun k hk => hitem ⟨k, ⟨hk⟩⟩⟩

/-! ### Files -/

theorem Parses.read_eq {bytes : ByteArray} {r : Except Error Formula}
    (h : Parses bytes.data.toList r) : read bytes = r := by
  obtain ⟨lines, items, hlines, hitems, hr⟩ := h
  rw [read, Text.lines_eq_iff.2 hlines, hitems.readLines_eq, hr.consume_eq]

theorem exists_parses (bytes : List UInt8) : ∃ r, Parses bytes r := by
  obtain ⟨lines, hlines⟩ := Text.exists_fallsInto bytes
  obtain ⟨items, hitems⟩ := exists_holds lines 1
  obtain ⟨r, hr⟩ := exists_answer items
  exact ⟨r, lines, items, hlines, hitems, hr⟩

/-- What is read from any bytes is the answer that they have. -/
theorem read_eq_iff {bytes : ByteArray} {r : Except Error Formula} :
    read bytes = r ↔ Parses bytes.data.toList r := by
  refine ⟨?_, Parses.read_eq⟩
  rintro rfl
  obtain ⟨r, hr⟩ := exists_parses bytes.data.toList
  rwa [hr.read_eq]

end GridSat.Dimacs
