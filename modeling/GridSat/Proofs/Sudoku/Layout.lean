import GridSat.Proofs.Sudoku.Reading

/-!
# Layouts of a puzzle

The ways to write a puzzle down, said without the reader. A cell is written with a
dot, a numeral or a letter (`Writes`). A row is a run of characters or words with blanks
between them (`WritesRow`), whichever it is for each row, and a table is written with a
row on each line and lines to skip anywhere (`WritesTable`).

Any line is skipped or has the entries of a row (`HasEntries`). A row that is written has
its own, except that a word alone would be a run and that a number sign makes a comment
(`WritesRow.hasEntries`).

A table of entries is read back from any such text (`WritesTable.filterMap_rowEntries?`).
A grid has no frame to drop, a grid in a frame is what is left when the frame is dropped,
and each entry is read as the digit that it was written for. So all layouts of a puzzle
are read alike, in a frame or not (`Puzzle.readText_of_writesText`), and the text that a
puzzle is shown as is one of them (`Puzzle.writesText_render`).
-/

namespace GridSat.Sudoku

open Text

/-! ### Entries -/

/-- The entry stands for the digit of a cell. -/
inductive Writes : String → Nat → Prop
  | dot : Writes "." 0
  | numeral {ds : List Char} : ds ≠ [] → (∀ c ∈ ds, c.isDigit = true) →
      Writes (String.ofList ds) (Nat.ofDigitChars 10 ds 0)
  | letter {a : Char} {k : Nat} : a = 'A' ∨ a = 'a' → k ≤ 15 →
      Writes (String.ofList [Char.ofNat (a.toNat + k)]) (10 + k)

/-- An entry denotes the digit it is written for, if the grid has that digit. -/
theorem Writes.denotes {token : String} {n num : Nat} (h : Writes token num) (hnum : num ≤ n)
    (hn : n ≤ 25) : Denotes n token num := by
  cases h with
  | dot => exact .dot
  | numeral hne hds => exact .numeral (.plain hne hds (by omega))
  | letter ha hk => exact .letter ha hk hnum

/-- No entry makes a comment of its row. -/
theorem Writes.head?_ne {token : String} {num : Nat} (h : Writes token num) :
    token.toList.head? ≠ some '#' := by
  cases h with
  | dot => decide
  | numeral hne hds =>
    obtain ⟨c, cs, rfl⟩ := List.exists_cons_of_ne_nil hne
    rw [String.toList_ofList, List.head?_cons]
    rintro ⟨⟩
    exact absurd (hds '#' List.mem_cons_self) (by decide)
  | letter ha hk =>
    obtain ⟨-, halpha, -⟩ := charDigit?_letter ha hk
    rw [String.toList_ofList, List.head?_cons]
    intro hsign
    rw [Option.some.inj hsign] at halpha
    exact absurd halpha (by decide)

/-! ### Rows -/

/-- The first entry starts with a number sign. -/
def IsComment (entries : List String) : Prop :=
  (entries.head?.bind fun token => token.toList.head?) = some '#'

instance : DecidablePred IsComment := fun entries =>
  inferInstanceAs (Decidable ((entries.head?.bind fun token => token.toList.head?) = some '#'))

/-- The line says nothing: it is blank, or a number sign comes first. -/
inductive Skipped : List Char → Prop
  | blank {line : List Char} : AllBlank line → Skipped line
  | comment {before rest : List Char} : AllBlank before → Skipped (before ++ '#' :: rest)

/-- The line is a row of these entries: a run of characters with blanks around it, one
    entry each, or two words or more with blanks between them and around them. It does not
    start with a number sign. -/
inductive HasEntries : List String → List Char → Prop
  | run {before cells after : List Char} : AllBlank before → cells ≠ [] →
      (∀ c ∈ cells, isBlank c = false) → cells.head? ≠ some '#' → AllBlank after →
      HasEntries (cells.map fun c => String.ofList [c]) (before ++ cells ++ after)
  | words {entries : List String} {line : List Char} : Spaced entries line →
      2 ≤ entries.length → ¬IsComment entries → HasEntries entries line

theorem Skipped.rowEntries?_eq {line : List Char} (h : Skipped line) :
    rowEntries? (String.ofList line) = none := by
  cases h with
  | blank hline => exact rowEntries?_of_allBlank hline
  | @comment before rest hbefore =>
    obtain ⟨rest', hrest⟩ := exists_trim_cons (c := '#') (by decide) rest
    exact rowEntries?_of_comment (by rw [trim_append_of_allBlank hbefore, hrest])

theorem HasEntries.rowEntries?_eq {entries : List String} {line : List Char}
    (h : HasEntries entries line) : rowEntries? (String.ofList line) = some entries := by
  cases h with
  | @run before cells after hbefore hne hcells hhead hafter =>
    refine rowEntries?_of_run hcells hne hhead ?_
    rw [trim_of_append_allBlank hafter, trim_append_of_allBlank hbefore, trim_eq_self hcells]
  | words hspaced hlength hcomment =>
    have hwords := hspaced.words_eq
    obtain ⟨w, ws, rfl⟩ := List.exists_cons_of_length_pos (l := entries) (by omega)
    obtain ⟨hw, before, rest, hbefore, -, rfl⟩ := hspaced.exists_append
    obtain ⟨c, cs, hcs⟩ := List.exists_cons_of_ne_nil hw.ne_nil
    have hc : isBlank c = false := hw.isBlank_eq c (hcs ▸ List.mem_cons_self)
    obtain ⟨rest', hrest⟩ := exists_trim_cons hc (cs ++ rest)
    have htrim : trim (before ++ (w.toList ++ rest)) = c :: rest' := by
      rw [trim_append_of_allBlank hbefore, hcs, List.cons_append, hrest]
    have hsign : c ≠ '#' := fun hc => hcomment (by simp [IsComment, hcs, hc])
    -- A single word would be taken for a run, which is why there are two at least.
    rw [rowEntries?_of_words htrim hsign (by rw [hwords]; exact hlength), hwords]

/-- Any line is skipped or is a row: a word alone is a run, and the first word tells
    whether the line is a comment. -/
theorem skipped_or_exists_hasEntries (line : List Char) :
    Skipped line ∨ ∃ entries, HasEntries entries line := by
  obtain ⟨ws, hws⟩ := exists_spaced line
  cases ws with
  | nil => exact .inl (.blank hws.allBlank)
  | cons w ws =>
    obtain ⟨hw, before, rest, hbefore, hrest, rfl⟩ := hws.exists_append
    by_cases hcomment : IsComment (w :: ws)
    · obtain ⟨c, cs, hcs⟩ := List.exists_cons_of_ne_nil hw.ne_nil
      obtain rfl : c = '#' := by simpa [IsComment, hcs] using hcomment
      rw [hcs]
      exact .inl (.comment hbefore)
    · cases ws with
      | nil =>
        rw [← List.append_assoc]
        exact .inr ⟨_, .run hbefore hw.ne_nil hw.isBlank_eq hcomment hrest.allBlank⟩
      | cons w' ws =>
        exact .inr ⟨_, .words hws (by simp) hcomment⟩

/-- The line has these entries, as a run of characters with blanks around it or as
    words with blanks between them and around them. -/
inductive WritesRow : List String → List Char → Prop
  | run {before cells after : List Char} : AllBlank before → (∀ c ∈ cells, isBlank c = false) →
      AllBlank after →
      WritesRow (cells.map fun c => String.ofList [c]) (before ++ cells ++ after)
  | spaced {entries : List String} {line : List Char} : Spaced entries line →
      WritesRow entries line

/-- A run of characters may stand alone. -/
theorem writesRow_of_run {cells : List Char} (h : ∀ c ∈ cells, isBlank c = false) :
    WritesRow (cells.map fun c => String.ofList [c]) cells := by
  have hrun := @WritesRow.run [] _ [] nofun h nofun
  rwa [List.append_nil] at hrun

/-- With two entries or more, a line that is written for a row is that row, unless it
    looks like a comment. -/
theorem WritesRow.hasEntries {entries : List String} {line : List Char}
    (h : WritesRow entries line) (hlength : 2 ≤ entries.length) (hcomment : ¬IsComment entries) :
    HasEntries entries line := by
  cases h with
  | run hbefore hcells hafter =>
    rw [List.length_map] at hlength
    refine .run hbefore (List.ne_nil_of_length_pos (by omega)) hcells (fun hsign => ?_) hafter
    exact hcomment (by simp [IsComment, hsign])
  | spaced hspaced => exact .words hspaced hlength hcomment

/-! ### Tables -/

/-- The lines are the rows in order, with lines to skip anywhere. -/
inductive WritesTable : List (List String) → List (List Char) → Prop
  | nil : WritesTable [] []
  | skip {rows : List (List String)} {line : List Char} {lines : List (List Char)} :
      Skipped line → WritesTable rows lines → WritesTable rows (line :: lines)
  | row {entries : List String} {rows : List (List String)} {line : List Char}
      {lines : List (List Char)} : WritesRow entries line → WritesTable rows lines →
      WritesTable (entries :: rows) (line :: lines)

/-- The lines of the text are the rows. -/
def WritesText (rows : List (List String)) (t : String) : Prop :=
  WritesTable rows (t.toList.splitOn '\n')

theorem WritesTable.filterMap_rowEntries? {rows : List (List String)} {lines : List (List Char)}
    (h : WritesTable rows lines)
    (hrows : ∀ entries ∈ rows, 2 ≤ entries.length ∧ ¬IsComment entries) :
    (lines.filterMap fun line => rowEntries? (String.ofList line)) = rows := by
  induction h with
  | nil => rfl
  | skip hline _ ih =>
    rw [List.filterMap_cons, hline.rowEntries?_eq]
    exact ih hrows
  | row hline _ ih =>
    obtain ⟨⟨hlength, hcomment⟩, hrest⟩ := List.forall_mem_cons.1 hrows
    rw [List.filterMap_cons, (hline.hasEntries hlength hcomment).rowEntries?_eq, ih hrest]

/-! ### Frames -/

/-- The table has the rows and the columns of a grid. -/
structure IsGrid (s : Size) (rows : List (List String)) : Prop where
  length_eq : rows.length = s.side
  length_row : ∀ entries ∈ rows, entries.length = s.side

/-- The rows in an index frame: a row above them, and an entry before each. -/
def inFrame (top side : List String) (rows : List (List String)) : List (List String) :=
  top :: List.zipWith List.cons side rows

section Frames

variable {s : Size} {rows : List (List String)}

/-- No side length follows another one. -/
theorem Size.ofSide?_side_sub_one (s : Size) : Size.ofSide? (s.side - 1) = none := by
  cases s <;> rfl

/-- A frame is taken for one where there is a row and a column more than in a grid. -/
theorem isFramed_iff : isFramed rows = true ↔ ∃ s : Size, rows.length = s.side + 1 ∧
    ∀ entries ∈ rows, entries.length = s.side + 1 := by
  simp only [isFramed, Bool.and_eq_true, decide_eq_true_iff, Option.isSome_iff_exists,
    Size.ofSide?_eq_some_iff, List.all_eq_true, beq_iff_eq]
  constructor
  · rintro ⟨⟨hone, s, hside⟩, hrows⟩
    have hlength : rows.length = s.side + 1 := by omega
    exact ⟨s, hlength, fun entries hentries => (hrows entries hentries).trans hlength⟩
  · rintro ⟨s, hlength, hrows⟩
    have hside : 1 < s.side := by cases s <;> decide
    exact ⟨⟨by omega, s, by omega⟩, fun entries hentries =>
      (hrows entries hentries).trans hlength.symm⟩

theorem dropFrame_eq_self (h : isFramed rows = false) : dropFrame rows = rows := by
  rw [dropFrame, h]
  rfl

theorem IsGrid.dropFrame_eq (h : IsGrid s rows) : dropFrame rows = rows := by
  refine dropFrame_eq_self ?_
  simp [isFramed, h.length_eq, Size.ofSide?_side_sub_one]

theorem IsGrid.length_of_mem_inFrame (h : IsGrid s rows) {top side : List String}
    (htop : top.length = s.side + 1) :
    ∀ entries ∈ inFrame top side rows, entries.length = s.side + 1 := by
  refine List.forall_mem_cons.2 ⟨htop, fun entries hentries => ?_⟩
  obtain ⟨i, hi, rfl⟩ := List.getElem_of_mem hentries
  rw [List.length_zipWith, Nat.lt_min] at hi
  rw [List.getElem_zipWith, List.length_cons, h.length_row _ (List.getElem_mem hi.2)]

theorem IsGrid.dropFrame_inFrame (h : IsGrid s rows) {top side : List String}
    (htop : top.length = s.side + 1) (hside : side.length = s.side) :
    dropFrame (inFrame top side rows) = rows := by
  have hlength : (inFrame top side rows).length = s.side + 1 := by
    simp [inFrame, hside, h.length_eq]
  have hframed : isFramed (inFrame top side rows) = true :=
    isFramed_iff.2 ⟨s, hlength, h.length_of_mem_inFrame htop⟩
  -- There is an entry before each row, so no row is lost with the frame.
  rw [dropFrame, if_pos hframed]
  calc (List.zipWith List.cons side rows).map List.tail
    _ = (side.zip rows).map Prod.snd := by
      rw [List.zip, List.map_zipWith, List.map_zipWith]
      rfl
    _ = rows := List.map_snd_zip (by rw [h.length_eq, hside])

end Frames

/-- A table of entries is read if each of them stands for a digit of the grid. -/
theorem readEntries_of_writes {rows : List (List String)} {values : List (List Nat)}
    (h : List.Forall₂ (List.Forall₂ Writes) rows values) (hlength : rows.length ≤ 25)
    (hvalues : ∀ nums ∈ values, ∀ num ∈ nums, num ≤ rows.length) :
    readEntries rows = .ok values := by
  refine readEntries_of_denotes (forall₂_imp_of_mem h fun entries nums hnums hrow => ?_)
  exact forall₂_imp_of_mem hrow fun token num hnum htoken =>
    htoken.denotes (hvalues nums hnums num hnum) hlength

/-! ### Texts -/

namespace Puzzle

variable {p : Puzzle} {rows : List (List String)}

theorem Accepted.isGrid (hp : p.Accepted)
    (hrows : List.Forall₂ (List.Forall₂ Writes) rows p.board.rows) : IsGrid p.size rows := by
  obtain ⟨hlength, hvalues⟩ := accepted_iff.1 hp
  refine ⟨hrows.length_eq.trans hlength, fun entries hentries => ?_⟩
  obtain ⟨nums, hnums, hrow⟩ := exists_of_forall₂ hrows hentries
  exact hrow.length_eq.trans (hvalues nums hnums).1

/-- A row of entries is no comment. -/
theorem not_isComment {entries : List String} {nums : List Nat}
    (h : List.Forall₂ Writes entries nums) : ¬IsComment entries := by
  cases h with
  | nil => exact nofun
  | cons htoken _ => exact htoken.head?_ne

/-- What is left of the table when its frame is dropped is read. -/
theorem readText_of_writesText (hp : p.Accepted)
    (hrows : List.Forall₂ (List.Forall₂ Writes) rows p.board.rows) {table : List (List String)}
    (hframe : dropFrame table = rows)
    (htable : ∀ entries ∈ table, 2 ≤ entries.length ∧ ¬IsComment entries) {t : String}
    (ht : WritesText table t) : readText t = .ok p := by
  obtain ⟨hlength, hvalues⟩ := accepted_iff.1 hp
  have hside : rows.length = p.size.side := hrows.length_eq.trans hlength
  have hentries : readEntries rows = .ok p.board.rows := by
    refine readEntries_of_writes hrows ?_ ?_
    · rw [hside]
      cases p.size <;> decide
    · rw [hside]
      exact fun nums hnums => (hvalues nums hnums).2
  rw [readText_eq, ht.filterMap_rowEntries? htable, hframe, hentries]
  exact hp

theorem readText_of_grid (hp : p.Accepted)
    (hrows : List.Forall₂ (List.Forall₂ Writes) rows p.board.rows) {t : String}
    (ht : WritesText rows t) : readText t = .ok p := by
  have hgrid := hp.isGrid hrows
  refine readText_of_writesText hp hrows hgrid.dropFrame_eq (fun entries hentries => ?_) ht
  obtain ⟨nums, -, hrow⟩ := exists_of_forall₂ hrows hentries
  refine ⟨?_, not_isComment hrow⟩
  rw [hgrid.length_row entries hentries]
  cases p.size <;> decide

/-- All layouts of a puzzle are read alike: rows as runs or as words, lines to skip
    anywhere, and a frame of any entries, unless a row of it looks like a comment. -/
theorem readText_layout (hp : p.Accepted)
    (hrows : List.Forall₂ (List.Forall₂ Writes) rows p.board.rows) (t : String) :
    (WritesText rows t → readText t = .ok p) ∧
      ∀ top side : List String, top.length = p.size.side + 1 → side.length = p.size.side →
        (∀ entries ∈ inFrame top side rows, ¬IsComment entries) →
        WritesText (inFrame top side rows) t → readText t = .ok p := by
  refine ⟨readText_of_grid hp hrows, fun top side htop hside hcomment ht => ?_⟩
  have hgrid := hp.isGrid hrows
  refine readText_of_writesText hp hrows (hgrid.dropFrame_inFrame htop hside) ?_ ht
  intro entries hentries
  refine ⟨?_, hcomment entries hentries⟩
  rw [hgrid.length_of_mem_inFrame htop entries hentries]
  cases p.size <;> decide

/-- The small sample with a comment and a blank line, in runs and in words, one of them
    a numeral with a zero in front, and once more in a frame. -/
theorem readText_layout_sampleFour :
    readText "# small\n1..4\n 0  04 1 . \n\n\t.14.\n4 0 0 1" = .ok ⟨.four, sampleFour⟩ ∧
      readText "%abcd\n# small\n+1..4\nrow2 0  04 1 .\r\nx.14.\nd 4 0 0 1\n" =
        .ok ⟨.four, sampleFour⟩ := by
  have hp : Accepted ⟨.four, sampleFour⟩ := by decide
  have hzero : Writes "0" 0 := @Writes.numeral ['0'] (by decide) (List.all_eq_true.1 (by decide))
  have hone : Writes "1" 1 := @Writes.numeral ['1'] (by decide) (List.all_eq_true.1 (by decide))
  have hfour : Writes "4" 4 := @Writes.numeral ['4'] (by decide) (List.all_eq_true.1 (by decide))
  have hfour' : Writes "04" 4 :=
    @Writes.numeral ['0', '4'] (by decide) (List.all_eq_true.1 (by decide))
  have hrows : List.Forall₂ (List.Forall₂ Writes)
      [["1", ".", ".", "4"], ["0", "04", "1", "."], [".", "1", "4", "."], ["4", "0", "0", "1"]]
      sampleFour.rows :=
    .cons (.cons hone (.cons .dot (.cons .dot (.cons hfour .nil))))
      (.cons (.cons hzero (.cons hfour' (.cons hone (.cons .dot .nil))))
        (.cons (.cons .dot (.cons hone (.cons hfour (.cons .dot .nil))))
          (.cons (.cons hfour (.cons hzero (.cons hzero (.cons hone .nil)))) .nil)))
  have hcomment : Skipped "# small".toList := @Skipped.comment [] _ nofun
  have hblank : ∀ cells : List Char, cells.any isBlank = false → ∀ c ∈ cells, isBlank c = false :=
    fun cells h c hc => Bool.eq_false_iff.2 (List.any_eq_false.1 h c hc)
  have htab : WritesRow [".", "1", "4", "."] "\t.14.".toList :=
    @WritesRow.run ['\t'] ".14.".toList [] (List.forall_mem_singleton.2 (by decide))
      (hblank _ (by decide)) nofun
  have hplain : "# small\n1..4\n 0  04 1 . \n\n\t.14.\n4 0 0 1".toList.splitOn '\n' =
      ["# small".toList, "1..4".toList, " 0  04 1 . ".toList, "".toList, "\t.14.".toList,
        "4 0 0 1".toList] := by
    decide +kernel
  have hframed : "%abcd\n# small\n+1..4\nrow2 0  04 1 .\r\nx.14.\nd 4 0 0 1\n".toList.splitOn '\n' =
      ["%abcd".toList, "# small".toList, "+1..4".toList, "row2 0  04 1 .\r".toList,
        "x.14.".toList, "d 4 0 0 1".toList, "".toList] := by
    decide +kernel
  refine ⟨(readText_layout hp hrows _).1 ?_, (readText_layout hp hrows _).2
    ["%", "a", "b", "c", "d"] ["+", "row2", "x", "d"] rfl rfl (by decide) ?_⟩
  · rw [WritesText, hplain]
    exact .skip hcomment (.row (@writesRow_of_run "1..4".toList (hblank _ (by decide)))
      (.row (.spaced (by decide)) (.skip (.blank nofun) (.row htab
        (.row (.spaced (by decide)) .nil)))))
  · rw [WritesText, hframed]
    exact .row (@writesRow_of_run "%abcd".toList (hblank _ (by decide))) (.skip hcomment
      (.row (@writesRow_of_run "+1..4".toList (hblank _ (by decide))) (.row (.spaced (by decide))
        (.row (@writesRow_of_run "x.14.".toList (hblank _ (by decide))) (.row (.spaced (by decide))
          (.skip (.blank nofun) .nil))))))

/-! ### The text of a puzzle -/

theorem isBlank_digitChar : ∀ num ≤ 25, isBlank (digitChar num) = false := by
  decide

theorem ofDigitChars_digitChar : ∀ num < 10, 0 < num →
    (digitChar num).isDigit = true ∧ Nat.ofDigitChars 10 [digitChar num] 0 = num := by
  decide

/-- The entry for a digit, as puzzles are shown. -/
def entryText (num : Nat) : String :=
  String.ofList [digitChar num]

theorem writes_entryText {num : Nat} (h : num ≤ 25) : Writes (entryText num) num := by
  by_cases hlt : num < 10
  · rcases Nat.eq_zero_or_pos num with rfl | hpos
    · exact .dot
    · obtain ⟨hdigit, hvalue⟩ := ofDigitChars_digitChar num hlt hpos
      have hwrites := Writes.numeral (List.cons_ne_nil _ []) (List.forall_mem_singleton.2 hdigit)
      rwa [hvalue] at hwrites
  · obtain ⟨k, rfl⟩ := Nat.exists_eq_add_of_le (Nat.le_of_not_lt hlt)
    have hletter : digitChar (10 + k) = Char.ofNat ('A'.toNat + k) := by
      rw [digitChar, if_neg (by omega), if_neg hlt, Nat.add_sub_cancel_left, if_pos]
      have hcode : 'A'.toNat = 65 := rfl
      omega
    rw [entryText, hletter]
    exact .letter (.inl rfl) (by omega)

section Rendering

variable {nums : List Nat}

theorem isBlank_of_mem_map_digitChar (h : ∀ num ∈ nums, num ≤ 25) :
    ∀ c ∈ nums.map digitChar, isBlank c = false :=
  List.forall_mem_map.2 fun num hnum => isBlank_digitChar num (h num hnum)

theorem writesRow_map_digitChar (h : ∀ num ∈ nums, num ≤ 25) :
    WritesRow (nums.map entryText) (nums.map digitChar) := by
  have hrun := writesRow_of_run (isBlank_of_mem_map_digitChar h)
  rwa [List.map_map] at hrun

/-- A puzzle is shown with a row on each line and nothing on the last. -/
theorem splitOn_render (h : ∀ nums ∈ p.board.rows, ∀ num ∈ nums, num ≤ 25) :
    p.render.toList.splitOn '\n' = p.board.rows.map (·.map digitChar) ++ [[]] := by
  have hitems : p.render.toList = (p.board.rows.map (·.map digitChar)).flatMap (· ++ ['\n']) := by
    have hfeed : "\n".toList = ['\n'] := rfl
    simp only [render, String.toList_join, List.flatMap_map, String.toList_append,
      String.toList_ofList, hfeed]
  have hpiece : ∀ nums ∈ p.board.rows,
      (nums.map digitChar).splitOn '\n' = [nums.map digitChar] := by
    intro nums hnums
    refine List.splitOn_eq_singleton fun hmem => ?_
    exact absurd (isBlank_of_mem_map_digitChar (h nums hnums) _ hmem) (by decide)
  rw [hitems, splitOn_flatMap, List.flatMap_map, List.flatMap_congr hpiece, List.map_eq_flatMap]

theorem writesText_render (h : ∀ nums ∈ p.board.rows, ∀ num ∈ nums, num ≤ 25) :
    WritesText (p.board.rows.map (·.map entryText)) p.render := by
  rw [WritesText, splitOn_render h]
  generalize p.board.rows = rows at h
  induction rows with
  | nil => exact .skip (.blank nofun) .nil
  | cons nums rows ih =>
    obtain ⟨hnums, hrows⟩ := List.forall_mem_cons.1 h
    exact .row (writesRow_map_digitChar hnums) (ih hrows)

end Rendering

/-- A puzzle is read back from the text it is shown as. -/
theorem readText_render (hp : p.Accepted) : readText p.render = .ok p := by
  obtain ⟨-, hvalues⟩ := accepted_iff.1 hp
  have hle : ∀ nums ∈ p.board.rows, ∀ num ∈ nums, num ≤ 25 := fun nums hnums num hnum =>
    ((hvalues nums hnums).2 num hnum).trans (by cases p.size <;> decide)
  refine readText_of_grid hp ?_ (writesText_render hle)
  rw [List.forall₂_map_left_iff, List.forall₂_same]
  intro nums hnums
  rw [List.forall₂_map_left_iff, List.forall₂_same]
  exact fun num hnum => writes_entryText (hle nums hnums num hnum)

/-- The largest grid, with blanks and all of its digits. -/
theorem readText_render_shifted :
    (ofDigits .twentyFive fun row col => (row + col) % 26).Accepted ∧
      readText (ofDigits .twentyFive fun row col => (row + col) % 26).render =
        .ok (ofDigits .twentyFive fun row col => (row + col) % 26) := by
  have hp : (ofDigits .twentyFive fun row col => (row + col) % 26).Accepted :=
    accepted_ofDigits fun row _ col _ => Nat.le_of_lt_succ (Nat.mod_lt (row + col) (by decide))
  exact ⟨hp, readText_render hp⟩

end Puzzle

end GridSat.Sudoku
