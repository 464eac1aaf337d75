import GridSat.Proofs.Sudoku.Grid
import GridSat.Proofs.Text.Lines
import GridSat.Proofs.Text.Words
import GridSat.Sudoku.Reader

/-!
# Reading a puzzle step by step

What each step of the reader makes of a text. The text is cut at its line feeds, and
each piece is skipped or gives the entries of a row (`Puzzle.readText_eq`). Which of
the two, and what the entries are, is decided by the piece without the blanks at its
ends: a run of characters is one entry each (`rowEntries?_of_run`), and with blanks
inside the entries are its words (`rowEntries?_of_words`).

An entry is read as the value that it denotes (`entryValue?_eq_some_iff`): a numeral, a
dot or a letter, where the number of rows bounds the letters but not the numerals. So a
table is read if all of its entries denote something, and otherwise the first that does
not is the error (`readEntries_of_not_denotes`).
-/

namespace GridSat.Sudoku

open Text

/-! ### Lines -/

section Lines

variable {line cells : List Char}

theorem rowEntries?_of_allBlank (h : AllBlank line) : rowEntries? (String.ofList line) = none := by
  rw [rowEntries?, String.toList_ofList, trim_of_allBlank h]

theorem rowEntries?_of_comment {rest : List Char} (h : trim line = '#' :: rest) :
    rowEntries? (String.ofList line) = none := by
  rw [rowEntries?, String.toList_ofList, h]
  rfl

theorem rowEntries?_of_trim {c : Char} {rest : List Char} (h : trim line = c :: rest)
    (hc : c ≠ '#') : rowEntries? (String.ofList line) = some (lineEntries (c :: rest)) := by
  rw [rowEntries?, String.toList_ofList, h]
  split
  · next hnil => exact absurd hnil (List.cons_ne_nil c rest)
  · next hcons => exact absurd (List.cons.inj hcons).1 hc
  · rfl

/-- A run of characters without blanks has an entry for each character. -/
theorem rowEntries?_of_run (hcells : ∀ c ∈ cells, isBlank c = false) (hne : cells ≠ [])
    (hhead : cells.head? ≠ some '#') (h : trim line = cells) :
    rowEntries? (String.ofList line) = some (cells.map fun c => String.ofList [c]) := by
  obtain ⟨c, rest, rfl⟩ := List.exists_cons_of_ne_nil hne
  have hany : (c :: rest).any isBlank = false :=
    List.any_eq_false.2 fun d hd => Bool.eq_false_iff.1 (hcells d hd)
  rw [rowEntries?_of_trim h fun hc => hhead (congrArg some hc), lineEntries, hany]
  rfl

/-- A line of two words or more has a blank inside, so the words are its entries. -/
theorem rowEntries?_of_words {c : Char} {rest : List Char} (htrim : trim line = c :: rest)
    (hc : c ≠ '#') (hwords : 2 ≤ (words (String.ofList line)).length) :
    rowEntries? (String.ofList line) = some (words (String.ofList line)) := by
  have hany : (c :: rest).any isBlank = true := by
    by_contra hnone
    rw [Bool.not_eq_true, List.any_eq_false] at hnone
    have hword : IsWord (String.ofList (c :: rest)) := by
      rw [← String.toList_ofList (l := c :: rest)] at hnone
      exact ⟨by simp, fun d hd => Bool.eq_false_iff.2 (hnone d hd)⟩
    rw [← words_trim, htrim, hword.words_eq] at hwords
    exact absurd hwords (by simp)
  rw [rowEntries?_of_trim htrim hc, lineEntries, if_pos hany, ← htrim, words_trim]

/-- A carriage return at the end of a line is trimmed away. -/
theorem rowEntries?_append_return (cs : List Char) :
    rowEntries? (String.ofList (cs ++ ['\r'])) = rowEntries? (String.ofList cs) := by
  have hreturn : AllBlank ['\r'] := List.forall_mem_singleton.2 (by decide)
  rw [rowEntries?, rowEntries?, String.toList_ofList, String.toList_ofList,
    trim_of_append_allBlank hreturn]

end Lines

/-! ### Entries -/

/-- The entry stands for the value in a grid of `n` rows: a numeral for any number of 64
    bits, a dot for zero, and a letter of either case for ten and more, up to `n`. -/
inductive Denotes (n : Nat) : String → Nat → Prop
  | numeral {token : String} {value : Nat} : IsNat64 token value → Denotes n token value
  | dot : Denotes n "." 0
  | letter {a : Char} {k : Nat} : a = 'A' ∨ a = 'a' → k ≤ 15 → 10 + k ≤ n →
      Denotes n (String.ofList [Char.ofNat (a.toNat + k)]) (10 + k)

/-- A single character that is no digit is looked up. -/
theorem nat64?_singleton {c : Char} (hc : c.isDigit = false) :
    nat64? (String.ofList [c]) = none := by
  rw [nat64?, String.toList_ofList]
  split
  · next h =>
    rw [← (List.cons.inj h).2]
    rfl
  · simp [natural?, hc]

theorem charDigit?_letter {a : Char} {k : Nat} (ha : a = 'A' ∨ a = 'a') (hk : k ≤ 15) :
    (Char.ofNat (a.toNat + k)).isDigit = false ∧ (Char.ofNat (a.toNat + k)).isAlpha = true ∧
      charDigit? (Char.ofNat (a.toNat + k)) = some (10 + k) := by
  rcases ha with rfl | rfl <;> revert k <;> decide

/-- A digit alone is a numeral. -/
theorem exists_nat64?_singleton {c : Char} (hc : c.isDigit = true) :
    ∃ value, nat64? (String.ofList [c]) = some value := by
  have hlt : Nat.ofDigitChars 10 [c] 0 < 18446744073709551616 := by
    have hval := c.val.toNat_lt
    rw [Nat.ofDigitChars_cons, Nat.ofDigitChars_nil]
    change c.val.toNat < _ at hval
    change 10 * 0 + (c.val.toNat - 48) < _
    omega
  exact ⟨_, nat64?_eq_some_iff.2
    (.plain (List.cons_ne_nil c []) (List.forall_mem_singleton.2 hc) hlt)⟩

/-- The sixteen characters from a letter on are counted from that letter. -/
theorem exists_eq_ofNat_add {a b c : Char} (ha : a ≤ c) (hb : c ≤ b)
    (hab : b.toNat = a.toNat + 15) :
    ∃ k ≤ 15, c = Char.ofNat (a.toNat + k) ∧ c.toNat - a.toNat + 10 = 10 + k := by
  have ha : a.toNat ≤ c.toNat := ha
  have hb : c.toNat ≤ b.toNat := hb
  refine ⟨c.toNat - a.toNat, by omega, ?_, Nat.add_comm ..⟩
  rw [Nat.add_sub_cancel' ha, Char.ofNat_toNat]

/-- What is looked up is a dot, a digit or a letter. -/
theorem charDigit?_cases {c : Char} {value : Nat} (h : charDigit? c = some value) :
    c = '.' ∧ value = 0 ∨ c.isDigit = true ∨
      ∃ a k, (a = 'A' ∨ a = 'a') ∧ k ≤ 15 ∧ c = Char.ofNat (a.toNat + k) ∧ value = 10 + k := by
  rw [charDigit?] at h
  split at h
  · next hdot => exact .inl ⟨hdot, (Option.some.inj h).symm⟩
  split at h
  · next hdigit => exact .inr (.inl hdigit)
  split at h
  · next hupper =>
    obtain ⟨k, hk, hc, hvalue⟩ := exists_eq_ofNat_add hupper.1 hupper.2 rfl
    exact .inr (.inr ⟨'A', k, .inl rfl, hk, hc, (Option.some.inj h).symm.trans hvalue⟩)
  split at h
  · next hlower =>
    obtain ⟨k, hk, hc, hvalue⟩ := exists_eq_ofNat_add hlower.1 hlower.2 rfl
    exact .inr (.inr ⟨'a', k, .inr rfl, hk, hc, (Option.some.inj h).symm.trans hvalue⟩)
  · exact absurd h nofun

section Values

variable {n value : Nat} {token : String}

theorem Denotes.entryValue?_eq (h : Denotes n token value) : entryValue? n token = some value := by
  cases h with
  | numeral htoken => rw [entryValue?, nat64?_eq_some_iff.2 htoken]
  | dot => rfl
  | letter ha hk hn =>
    obtain ⟨hdigit, halpha, hc⟩ := charDigit?_letter ha hk
    rw [entryValue?, nat64?_singleton hdigit, String.toList_ofList]
    simp [halpha, hc, hn]

theorem denotes_of_entryValue? (h : entryValue? n token = some value) :
    Denotes n token value := by
  rw [entryValue?] at h
  split at h
  · next htoken => exact Option.some.inj h ▸ .numeral (nat64?_eq_some_iff.1 htoken)
  next hnumeral =>
  split at h
  · next c htoken =>
    obtain rfl : token = String.ofList [c] := by rw [← htoken, String.ofList_toList]
    have hchar : charDigit? c = some value ∧ (c.isAlpha = true → value ≤ n) := by
      split at h
      · exact (Option.filter_eq_some_iff.1 h).imp_right fun hn _ => of_decide_eq_true hn
      · next halpha => exact ⟨h, fun hc => absurd hc halpha⟩
    rcases charDigit?_cases hchar.1 with ⟨rfl, rfl⟩ | hdigit | ⟨a, k, ha, hk, rfl, rfl⟩
    · exact .dot
    · -- A digit would have been read as a numeral.
      obtain ⟨_, hsome⟩ := exists_nat64?_singleton hdigit
      exact absurd (hnumeral.symm.trans hsome) nofun
    · exact .letter ha hk (hchar.2 (charDigit?_letter ha hk).2.1)
  · exact absurd h nofun

theorem entryValue?_eq_some_iff : entryValue? n token = some value ↔ Denotes n token value :=
  ⟨denotes_of_entryValue?, Denotes.entryValue?_eq⟩

end Values

section Tables

variable {rows : List (List String)} {values : List (List Nat)}

theorem readEntries_of_denotes
    (h : List.Forall₂ (List.Forall₂ (Denotes rows.length)) rows values) :
    readEntries rows = .ok values := by
  -- The reader numbers rows and columns for its errors, and there is none.
  refine mapM_zipIdx_of_forall₂ (h.imp fun entries nums hrow i => ?_) 1
  refine mapM_zipIdx_of_forall₂ (hrow.imp fun token num htoken j => ?_) 1
  simp only [htoken.entryValue?_eq]

/-- The first entry that stands for nothing is named, with its place. -/
theorem readEntries_of_not_denotes {above below : List (List String)} {left right : List String}
    {token : String} {nums : List Nat} (hrows : rows = above ++ (left ++ token :: right) :: below)
    (habove : List.Forall₂ (List.Forall₂ (Denotes rows.length)) above values)
    (hleft : List.Forall₂ (Denotes rows.length) left nums)
    (htoken : ∀ value, ¬Denotes rows.length token value) :
    readEntries rows = .error (.invalidEntry (above.length + 1) (left.length + 1) token) := by
  have hnone : entryValue? rows.length token = none :=
    Option.eq_none_iff_forall_ne_some.2 fun value hvalue =>
      htoken value (entryValue?_eq_some_iff.1 hvalue)
  rw [readEntries]
  generalize rows.length = n at *
  subst hrows
  refine mapM_zipIdx_append_of_error (habove.imp fun entries nums hrow i => ?_) ?_
  · refine mapM_zipIdx_of_forall₂ (hrow.imp fun token num htoken j => ?_) 1
    simp only [htoken.entryValue?_eq]
  · refine mapM_zipIdx_append_of_error (hleft.imp fun token num htoken j => ?_) ?_
    · simp only [htoken.entryValue?_eq]
    · simp only [hnone]

end Tables

/-! ### Puzzles -/

theorem lineTexts_of_forall₂ {bytes : ByteArray} {texts : List String}
    (h : List.Forall₂ (fun line text => lineText? line = some text) (lines bytes) texts) :
    lineTexts bytes = .ok texts :=
  mapM_of_forall₂ (h.imp fun line text htext => by rw [htext])

/-- If all lines are texts, the frame is dropped, the entries are read, and the board is
    checked. -/
theorem Puzzle.read_of_lineTexts {bytes : ByteArray} {texts : List String}
    (h : lineTexts bytes = .ok texts) : read bytes =
      match readEntries (dropFrame (texts.filterMap rowEntries?)) with
      | .error fault => .error fault
      | .ok values => Puzzle.ofBoard ⟨values⟩ := by
  rw [read, h]
  change (do
    let values ← readEntries (dropFrame (texts.filterMap rowEntries?))
    ofBoard ⟨values⟩) = _
  cases readEntries (dropFrame (texts.filterMap rowEntries?)) <;> rfl

/-- A text is read piece by piece between its line feeds, then as any lines are. -/
theorem Puzzle.readText_eq (t : String) : Puzzle.readText t =
    match readEntries (dropFrame ((t.toList.splitOn '\n').filterMap fun line =>
      rowEntries? (String.ofList line))) with
    | .error fault => .error fault
    | .ok values => Puzzle.ofBoard ⟨values⟩ := by
  obtain ⟨texts, htexts, hrows⟩ := exists_lineTexts (by rfl) rowEntries?_append_return t
  rw [readText, read_of_lineTexts (lineTexts_of_forall₂ htexts), hrows]

/-- What is read is a puzzle that fits its size. -/
theorem Puzzle.accepted_of_read {bytes : ByteArray} {p : Puzzle} (h : read bytes = .ok p) :
    p.Accepted := by
  cases htexts : lineTexts bytes with
  | error fault => simp [read, htexts, bind, Except.bind] at h
  | ok texts =>
    rw [read_of_lineTexts htexts] at h
    split at h
    · exact absurd h nofun
    · exact accepted_of_ofBoard h

end GridSat.Sudoku
