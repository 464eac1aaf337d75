import Mathlib.Logic.Relation
import GridSat.Proofs.Dimacs.Grammar

/-!
# Line breaks and comments

A file that is accepted stays so, and stands for the same formula, when its data are put
on other lines: a line break may be added between two words of a data line or removed
between two data lines, and comments may be put anywhere (`Relined`). This is so for each
change in its place (`Relined.readLines_eq`) and for any number of them
(`readLines_of_relined`): the number of a line shows in an error only, and of a line that
is accepted all words are integers, so no part of it is a comment or ends the input.

It is enough to look at the pieces between line feeds (`read_eq_ok_iff`), since a
carriage return is a blank and an empty piece holds nothing.
-/

namespace GridSat.Dimacs

open Text (lineFeed carriageReturn dropReturn)

/-! ### Lines that are accepted -/

/-- The integers of a line, if they are taken. -/
def LineIntegers (line : List UInt8) (ks : List Int) : Prop :=
  ∃ ws, LineWords line ws ∧ (LineKind.ofWords ws).tokens.mapM Text.int32? = some ks

section Lines

variable {line : List UInt8} {lines lines' : List (List UInt8)} {ws ws' : List String}
  {number : Nat} {d : Draft} {f : Formula} {ks : List Int}

theorem LineWords.unique (h : LineWords line ws) (h' : LineWords line ws') : ws = ws' := by
  obtain ⟨text, htext, rfl⟩ := lineWords_iff.1 h
  obtain ⟨text', htext', rfl⟩ := lineWords_iff.1 h'
  rw [Option.some.inj (htext.symm.trans htext')]

theorem LineWords.endsInput_iff (h : LineWords line ws) :
    EndsInput line ↔ LineKind.ofWords ws = .stop := by
  constructor
  · rintro ⟨ws', hws'⟩
    rw [h.unique hws']
    rfl
  · intro hstop
    cases ws with
    | nil => cases hstop
    | cons w ws =>
      by_cases hw : w = "%"
      · exact ⟨ws, hw ▸ h⟩
      · rw [LineKind.ofWords, if_neg hw] at hstop
        split at hstop <;> cases hstop

theorem LineWords.lineIntegers_iff (h : LineWords line ws) :
    LineIntegers line ks ↔ (LineKind.ofWords ws).tokens.mapM Text.int32? = some ks := by
  constructor
  · rintro ⟨ws', hws', hks⟩
    rwa [h.unique hws']
  · exact fun hks => ⟨ws, h, hks⟩

/-- A first line is accepted if it ends the input, or if its integers are taken and the
    other lines are accepted. -/
theorem readLines_cons_eq_ok_iff : readLines (line :: lines) number d = .ok f ↔
    EndsInput line ∧ d.finish = f ∨ ¬EndsInput line ∧ ∃ ks, LineIntegers line ks ∧
      readLines lines (number + 1) (ks.foldl Draft.take d) = .ok f := by
  by_cases hwords : ∃ ws, LineWords line ws
  · obtain ⟨ws, hws⟩ := hwords
    obtain ⟨text, htext, rfl⟩ := lineWords_iff.1 hws
    rw [hws.endsInput_iff]
    simp only [hws.lineIntegers_iff]
    cases hkind : LineKind.ofWords (Text.words text) with
    | stop => simp [readLines, htext, hkind]
    | skip => simp [readLines, htext, hkind, LineKind.tokens]
    | data tokens => simp [readLines_cons_data_eq_ok_iff htext hkind, LineKind.tokens]
  · have htext : ∀ cs, Text.encode cs ≠ line := by
      intro cs hcs
      obtain ⟨ws, hws⟩ := Text.exists_spaced cs
      exact hwords ⟨ws, cs, hcs, hws⟩
    rw [readLines_cons_of_unreadable htext]
    refine iff_of_false (by rintro ⟨⟩) ?_
    rintro (⟨⟨ws, hws⟩, -⟩ | ⟨-, ks, ⟨ws, hws, -⟩, -⟩)
    · exact hwords ⟨_, hws⟩
    · exact hwords ⟨_, hws⟩

/-- The numbers of the lines show in errors only. -/
theorem readLines_of_number (h : readLines lines number d = .ok f) (number' : Nat) :
    readLines lines number' d = .ok f := by
  induction lines generalizing number number' d with
  | nil => exact h
  | cons line lines ih =>
    rw [readLines_cons_eq_ok_iff] at h ⊢
    exact h.imp_right fun ⟨hends, ks, hks, hlines⟩ => ⟨hends, ks, hks, ih hlines _⟩

/-- Lines may be changed behind others. -/
theorem readLines_append_of_imp
    (h : ∀ number d, readLines lines number d = .ok f → readLines lines' number d = .ok f)
    (before : List (List UInt8)) (hread : readLines (before ++ lines) number d = .ok f) :
    readLines (before ++ lines') number d = .ok f := by
  induction before generalizing number d with
  | nil => exact h number d hread
  | cons line before ih =>
    rw [List.cons_append, readLines_cons_eq_ok_iff] at hread ⊢
    exact hread.imp_right fun ⟨hends, ks, hks, hlines⟩ => ⟨hends, ks, hks, ih hlines⟩

end Lines

/-! ### Lines with the same words -/

section SameWords

variable {line : List UInt8} {lines lines' : List (List UInt8)} {ws : List String}
  {number : Nat} {d : Draft} {f : Formula}

theorem dropReturn_eq_or (line : List UInt8) :
    dropReturn line = line ∨ line = dropReturn line ++ [carriageReturn] := by
  rw [dropReturn]
  split
  · next h =>
    obtain ⟨rest, rfl⟩ := List.getLast?_eq_some_iff.1 (beq_iff_eq.1 h)
    exact .inr (by rw [List.dropLast_concat])
  · exact .inl rfl

/-- A carriage return at the end of a line is a blank. -/
theorem lineWords_dropReturn_iff : LineWords (dropReturn line) ws ↔ LineWords line ws := by
  have hblank : Text.isBlank '\r' = true := by decide
  constructor
  · rintro ⟨cs, hcs, hspaced⟩
    rcases dropReturn_eq_or line with hline | hline
    · exact ⟨cs, hcs.trans hline, hspaced⟩
    · refine ⟨cs ++ ['\r'], ?_, ?_⟩
      · rw [hline, ← hcs, Text.encode_append]
        rfl
      · rw [← Text.words_eq_iff, Text.words_append_blank_nil hblank, hspaced.words_eq]
  · rintro ⟨cs, rfl, hspaced⟩
    rw [lineWords_iff]
    rcases Text.lineText?_lineBytes cs with htext | ⟨rest, rfl, htext⟩
    · exact ⟨_, htext, hspaced.words_eq⟩
    · exact ⟨_, htext, by rw [← Text.words_append_blank_nil hblank, hspaced.words_eq]⟩

/-- Only the words of the lines count. -/
theorem readLines_eq_ok_congr
    (h : List.Forall₂ (fun line line' => ∀ ws, LineWords line ws ↔ LineWords line' ws)
      lines lines') :
    readLines lines number d = .ok f ↔ readLines lines' number d = .ok f := by
  induction h generalizing number d with
  | nil => exact Iff.rfl
  | cons hline _ ih =>
    rw [readLines_cons_eq_ok_iff, readLines_cons_eq_ok_iff]
    simp only [EndsInput, LineIntegers, hline, ih]

/-- An empty line at the end makes no difference. -/
theorem readLines_append_nil_eq_ok_iff :
    readLines (lines ++ [[]]) number d = .ok f ↔ readLines lines number d = .ok f := by
  induction lines generalizing number d with
  | nil => exact Iff.rfl
  | cons line lines ih =>
    rw [List.cons_append, readLines_cons_eq_ok_iff, readLines_cons_eq_ok_iff]
    simp only [ih]

/-- The pieces between line feeds are accepted if the bytes are. -/
theorem read_eq_ok_iff {bytes : ByteArray} :
    read bytes = .ok f ↔ readLines (bytes.data.toList.splitOn lineFeed) 1 {} = .ok f := by
  obtain ⟨pieces, last, hsplit⟩ := Text.exists_splitOn_eq_append lineFeed bytes.data.toList
  have hpieces : List.Forall₂ (fun line line' => ∀ ws, LineWords line ws ↔ LineWords line' ws)
      (pieces.map dropReturn) pieces := by
    rw [List.forall₂_map_left_iff]
    exact List.forall₂_same.2 fun line _ ws => lineWords_dropReturn_iff
  rw [read, Text.lines_of_splitOn hsplit, hsplit]
  by_cases hlast : last = []
  · rw [if_pos hlast, hlast, List.append_nil, readLines_append_nil_eq_ok_iff]
    exact readLines_eq_ok_congr hpieces
  · rw [if_neg hlast]
    exact readLines_eq_ok_congr (List.rel_append hpieces (.cons (fun _ => Iff.rfl) .nil))

end SameWords

/-! ### Data on other lines -/

/-- The words of the line are data, if there are any. -/
structure IsData (line : List UInt8) (ws : List String) : Prop where
  lineWords : LineWords line ws
  head_ne : ∀ w ∈ ws.head?, w ≠ "%" ∧ w ≠ "c" ∧ w ≠ "p"

/-- A change to the lines of a file: a break between two words of a data line is added,
    one between two data lines is removed, or a comment is put somewhere. -/
inductive Relined : List (List UInt8) → List (List UInt8) → Prop
  | addBreak {before after : List (List UInt8)} {line first second : List UInt8}
      {ws ws' : List String} : IsData line (ws ++ ws') → LineWords first ws →
      LineWords second ws' → lineFeed ∉ first → lineFeed ∉ second →
      Relined (before ++ line :: after) (before ++ first :: second :: after)
  | removeBreak {before after : List (List UInt8)} {line first second : List UInt8}
      {ws ws' : List String} : IsData first ws → IsData second ws' →
      LineWords line (ws ++ ws') → lineFeed ∉ line →
      Relined (before ++ first :: second :: after) (before ++ line :: after)
  | addComment {before after : List (List UInt8)} {line : List UInt8} {ws : List String} :
      LineWords line ("c" :: ws) → lineFeed ∉ line →
      Relined (before ++ after) (before ++ line :: after)

section Relined

variable {line : List UInt8} {lines lines' : List (List UInt8)} {ws : List String}
  {number : Nat} {d : Draft} {f : Formula} {ks : List Int}

theorem IsData.ofWords (h : IsData line ws) :
    LineKind.ofWords ws ≠ .stop ∧ (LineKind.ofWords ws).tokens = ws := by
  cases ws with
  | nil => exact ⟨by rintro ⟨⟩, rfl⟩
  | cons w ws =>
    obtain ⟨hpercent, hc, hp⟩ := h.head_ne w rfl
    rw [LineKind.ofWords, if_neg hpercent, if_neg (not_or.2 ⟨hc, hp⟩)]
    exact ⟨by rintro ⟨⟩, rfl⟩

theorem IsData.readLines_cons_eq_ok_iff (h : IsData line ws) :
    readLines (line :: lines) number d = .ok f ↔ ∃ ks, ws.mapM Text.int32? = some ks ∧
      readLines lines (number + 1) (ks.foldl Draft.take d) = .ok f := by
  obtain ⟨hstop, htokens⟩ := h.ofWords
  rw [Dimacs.readLines_cons_eq_ok_iff, h.lineWords.endsInput_iff]
  simp only [h.lineWords.lineIntegers_iff, hstop, htokens, false_and, false_or, not_false_iff,
    true_and]

/-- Words that are integers are data. -/
theorem LineWords.isData (h : LineWords line ws) (hks : ws.mapM Text.int32? = some ks) :
    IsData line ws := by
  refine ⟨h, fun w hw => ?_⟩
  obtain ⟨ws, rfl⟩ : ∃ ws', ws = w :: ws' := List.head?_eq_some_iff.1 hw
  simp only [List.mapM_cons, Option.bind_eq_bind, Option.bind_eq_some_iff] at hks
  obtain ⟨k, hk, -⟩ := hks
  have hnone : Text.int32? "%" = none ∧ Text.int32? "c" = none ∧ Text.int32? "p" = none := by
    decide
  refine ⟨?_, ?_, ?_⟩ <;> rintro rfl
  · exact absurd (hnone.1.symm.trans hk) nofun
  · exact absurd (hnone.2.1.symm.trans hk) nofun
  · exact absurd (hnone.2.2.symm.trans hk) nofun

/-- A change keeps what is read, wherever it is made. -/
theorem Relined.readLines_eq (h : Relined lines lines') (hread : readLines lines number d = .ok f) :
    readLines lines' number d = .ok f := by
  cases h with
  | addBreak hline hfirst hsecond =>
    refine readLines_append_of_imp (fun number d h => ?_) _ hread
    -- All words were integers, so both parts of the line are data again.
    obtain ⟨ks, hks, hafter⟩ := hline.readLines_cons_eq_ok_iff.1 h
    obtain ⟨ks₁, ks₂, hks₁, hks₂, rfl⟩ := mapM_append_eq_some_iff.1 hks
    rw [List.foldl_append] at hafter
    rw [(hfirst.isData hks₁).readLines_cons_eq_ok_iff]
    refine ⟨ks₁, hks₁, ?_⟩
    rw [(hsecond.isData hks₂).readLines_cons_eq_ok_iff]
    exact ⟨ks₂, hks₂, readLines_of_number hafter _⟩
  | removeBreak hfirst hsecond hline =>
    refine readLines_append_of_imp (fun number d h => ?_) _ hread
    obtain ⟨ks₁, hks₁, h⟩ := hfirst.readLines_cons_eq_ok_iff.1 h
    obtain ⟨ks₂, hks₂, hafter⟩ := hsecond.readLines_cons_eq_ok_iff.1 h
    have hks := mapM_append_eq_some_iff.2 ⟨ks₁, ks₂, hks₁, hks₂, rfl⟩
    rw [(hline.isData hks).readLines_cons_eq_ok_iff]
    refine ⟨ks₁ ++ ks₂, hks, ?_⟩
    rw [List.foldl_append]
    exact readLines_of_number hafter _
  | addComment hline =>
    refine readLines_append_of_imp (fun number d h => ?_) _ hread
    rw [readLines_cons_of_words hline]
    exact readLines_of_number h _

theorem readLines_of_relined (h : Relation.ReflTransGen Relined lines lines')
    (hread : readLines lines number d = .ok f) : readLines lines' number d = .ok f := by
  induction h with
  | refl => exact hread
  | tail _ hstep ih => exact hstep.readLines_eq ih

/-! ### Files -/

/-- The file of the lines, with line feeds between them. -/
def file (lines : List (List UInt8)) : ByteArray :=
  ⟨([lineFeed].intercalate lines).toArray⟩

/-- The lines are those that a file is cut into. -/
def AreLines (lines : List (List UInt8)) : Prop :=
  lines ≠ [] ∧ ∀ line ∈ lines, lineFeed ∉ line

theorem AreLines.splitOn_file (h : AreLines lines) :
    (file lines).data.toList.splitOn lineFeed = lines :=
  List.splitOn_intercalate lineFeed h.2 h.1

theorem areLines_splitOn (bytes : List UInt8) : AreLines (bytes.splitOn lineFeed) :=
  ⟨List.splitOn_ne_nil lineFeed bytes, fun _ => Text.notMem_of_mem_splitOn⟩

theorem Relined.areLines (h : Relined lines lines') (hlines : AreLines lines) :
    AreLines lines' := by
  refine ⟨by cases h <;> simp, ?_⟩
  have hfeed := hlines.2
  cases h with
  | addBreak _ _ _ hfirst hsecond =>
    rw [List.forall_mem_append, List.forall_mem_cons] at hfeed
    rw [List.forall_mem_append, List.forall_mem_cons, List.forall_mem_cons]
    exact ⟨hfeed.1, hfirst, hsecond, hfeed.2.2⟩
  | removeBreak _ _ _ hline =>
    rw [List.forall_mem_append, List.forall_mem_cons, List.forall_mem_cons] at hfeed
    rw [List.forall_mem_append, List.forall_mem_cons]
    exact ⟨hfeed.1, hline, hfeed.2.2.2⟩
  | addComment _ hline =>
    rw [List.forall_mem_append] at hfeed
    rw [List.forall_mem_append, List.forall_mem_cons]
    exact ⟨hfeed.1, hline, hfeed.2⟩

theorem areLines_of_relined (h : Relation.ReflTransGen Relined lines lines')
    (hlines : AreLines lines) : AreLines lines' := by
  induction h with
  | refl => exact hlines
  | tail _ hstep ih => exact hstep.areLines ih

/-- Any bytes are read as the grammar says, and if they are accepted, changes to the lines
    that their data stand on keep the formula. -/
theorem read_grammar (bytes : ByteArray) :
    (∀ r, read bytes = r ↔ Parses bytes.data.toList r) ∧
      ∀ f lines, read bytes = .ok f →
        Relation.ReflTransGen Relined (bytes.data.toList.splitOn lineFeed) lines →
        read (file lines) = .ok f := by
  refine ⟨fun r => read_eq_iff, fun f lines hread hlines => ?_⟩
  have hfile := (areLines_of_relined hlines (areLines_splitOn _)).splitOn_file
  rw [read_eq_ok_iff, hfile]
  exact readLines_of_relined hlines (read_eq_ok_iff.1 hread)

/-- Two clauses on a line are read, and so they are with a break in the second clause and
    a comment in the break. -/
theorem read_grammar_break :
    read "1 -2 0 +03 0\n".toUTF8 = .ok (.ofList [pieceClause [3], pieceClause [1, -2]]) ∧
      read (file [Text.encode "1 -2 0 +03".toList, Text.encode "c three".toList,
        Text.encode "\t0 ".toList, []]) = .ok (.ofList [pieceClause [3], pieceClause [1, -2]]) := by
  have hread : read "1 -2 0 +03 0\n".toUTF8 =
      .ok (.ofList [pieceClause [3], pieceClause [1, -2]]) := by
    decide +kernel
  have hlines : "1 -2 0 +03 0\n".toUTF8.data.toList.splitOn lineFeed =
      [Text.encode "1 -2 0 +03 0".toList, []] := by
    decide +kernel
  refine ⟨hread, (read_grammar _).2 _ _ hread ?_⟩
  rw [hlines]
  have hdata : IsData (Text.encode "1 -2 0 +03 0".toList) (["1", "-2", "0", "+03"] ++ ["0"]) :=
    ⟨⟨_, rfl, by decide⟩, by simp⟩
  have hfirst : LineWords (Text.encode "1 -2 0 +03".toList) ["1", "-2", "0", "+03"] :=
    ⟨_, rfl, by decide⟩
  have hsecond : LineWords (Text.encode "\t0 ".toList) ["0"] := ⟨_, rfl, by decide⟩
  have hcomment : LineWords (Text.encode "c three".toList) ["c", "three"] := ⟨_, rfl, by decide⟩
  refine .tail (.single (@Relined.addBreak [] [[]] _ _ _ _ _ hdata hfirst hsecond ?_ ?_))
    (@Relined.addComment [_] [_, _] _ _ hcomment ?_)
  all_goals decide

end Relined

end GridSat.Dimacs
