import Mathlib.Data.List.Forall2
import GridSat.Text

/-!
# Lines of a text

A text is read as bytes, and its lines are cut from the bytes. Its characters can
be cut instead: the byte of a line feed is in the encoding of that character only
(`mem_utf8EncodeChar_iff`), so the pieces between line feeds are the encodings of
the pieces between those characters (`splitOn_encode`), and every line of a text
is a text again.

A line feed belongs to no line, wherever it comes from. If items are written one
after the other, each with a line feed behind it, the lines are those that the
items fall into at the line feeds they have themselves (`lines_toUTF8`).

In any text the lines are the pieces between its line feeds, except that a carriage
return may be missing at the end of a piece and the last piece may be missing if it is
empty (`exists_lineTexts`). What the lines of any bytes are is said once more by a
relation, without cutting (`FallsInto`, `lines_eq_iff`).
-/

namespace GridSat.Text

/-! ### Bytes of characters -/

/-- The bytes of characters. -/
def encode (cs : List Char) : List UInt8 :=
  cs.flatMap String.utf8EncodeChar

@[simp] theorem encode_append (cs ds : List Char) : encode (cs ++ ds) = encode cs ++ encode ds :=
  List.flatMap_append

theorem toList_toUTF8 (s : String) : s.toUTF8.data.toList = encode s.toList := by
  rw [String.toUTF8_eq_toByteArray, ← String.utf8Encode_toList, List.utf8Encode,
    List.toList_data_toByteArray, encode]

@[simp] theorem lineText?_encode (cs : List Char) : lineText? (encode cs) = some (String.ofList cs) := by
  have hbytes : (⟨(encode cs).toArray⟩ : ByteArray) = (String.ofList cs).toByteArray := by
    rw [← String.utf8Encode_toList, String.toList_ofList, List.utf8Encode, ← encode]
    exact ByteArray.ext (List.data_toByteArray).symm
  rw [lineText?, hbytes, String.fromUTF8?, dif_pos (String.ofList cs).isValidUTF8]
  rfl

/-- A line is a text exactly if it is the bytes of it. -/
theorem lineText?_eq_some_iff {line : List UInt8} {text : String} :
    lineText? line = some text ↔ encode text.toList = line := by
  constructor
  · intro h
    rw [lineText?, String.fromUTF8?] at h
    split at h
    · next hvalid =>
      rw [← toList_toUTF8, ← Option.some.inj h]
      rfl
    · exact absurd h nofun
  · rintro rfl
    rw [lineText?_encode, String.ofList_toList]

/-- A character below 128 is a byte of its own, which no other character uses. -/
theorem mem_utf8EncodeChar_iff {a : Char} (ha : a.toNat < 128) {c : Char} :
    UInt8.ofNat a.toNat ∈ String.utf8EncodeChar c ↔ c = a := by
  have hc : c.toNat = c.val.toNat := rfl
  rw [← Char.toNat_inj]
  fun_cases String.utf8EncodeChar c <;>
    simp only [List.mem_cons, List.not_mem_nil, or_false, ← UInt8.toNat_inj, UInt8.toNat_ofNat'] <;>
    omega

theorem lineFeed_mem_utf8EncodeChar_iff {c : Char} :
    lineFeed ∈ String.utf8EncodeChar c ↔ c = '\n' :=
  mem_utf8EncodeChar_iff (a := '\n') (by decide)

theorem carriageReturn_mem_utf8EncodeChar_iff {c : Char} :
    carriageReturn ∈ String.utf8EncodeChar c ↔ c = '\r' :=
  mem_utf8EncodeChar_iff (a := '\r') (by decide)

/-! ### Cutting at line feeds -/

theorem exists_splitOn_eq_append {α : Type} [BEq α] (a : α) (xs : List α) :
    ∃ pieces last, xs.splitOn a = pieces ++ [last] :=
  ⟨_, _, (List.dropLast_append_getLast (List.splitOn_ne_nil a xs)).symm⟩

theorem splitOn_append_of_not_mem {α : Type} [BEq α] [LawfulBEq α] {a : α} {xs : List α}
    (h : a ∉ xs) (ys : List α) : (xs ++ ys).splitOn a = (ys.splitOn a).modifyHead (xs ++ ·) := by
  induction xs with
  | nil =>
    rw [List.nil_append]
    cases ys.splitOn a <;> rfl
  | cons x xs ih =>
    rw [List.mem_cons, not_or] at h
    rw [List.cons_append, List.splitOn_cons_eq_if_modifyHead, if_neg, ih h.2,
      List.modifyHead_modifyHead]
    · rfl
    · rw [beq_iff_eq]
      exact Ne.symm h.1

/-- The pieces have no separator. -/
theorem notMem_of_mem_splitOn {α : Type} [BEq α] [LawfulBEq α] {a : α} {xs piece : List α}
    (h : piece ∈ xs.splitOn a) : a ∉ piece := by
  induction xs generalizing piece with
  | nil =>
    rw [List.splitOn_nil, List.mem_singleton] at h
    exact h ▸ List.not_mem_nil
  | cons x xs ih =>
    rw [List.splitOn_cons_eq_if_modifyHead] at h
    split at h
    · rcases List.mem_cons.1 h with rfl | h
      · exact List.not_mem_nil
      · exact ih h
    · next hx =>
      rw [beq_iff_eq] at hx
      obtain ⟨first, rest, hsplit⟩ := List.exists_cons_of_ne_nil (List.splitOn_ne_nil a xs)
      rw [hsplit] at h ih
      rcases List.mem_cons.1 h with rfl | h
      · exact List.not_mem_cons_of_ne_of_not_mem (Ne.symm hx) (ih List.mem_cons_self)
      · exact ih (List.mem_cons_of_mem first h)

/-- Bytes and characters are cut into the same pieces. -/
theorem splitOn_encode (cs : List Char) :
    (encode cs).splitOn lineFeed = (cs.splitOn '\n').map encode := by
  induction cs with
  | nil => rfl
  | cons c cs ih =>
    have hcons : encode (c :: cs) = String.utf8EncodeChar c ++ encode cs := List.flatMap_cons
    by_cases hc : c = '\n'
    · subst hc
      exact congrArg ([] :: ·) ih
    · have hmem : lineFeed ∉ String.utf8EncodeChar c := fun h =>
        hc (lineFeed_mem_utf8EncodeChar_iff.1 h)
      rw [hcons, splitOn_append_of_not_mem hmem, ih, List.splitOn_cons_eq_if_modifyHead,
        if_neg (by simpa using hc)]
      cases cs.splitOn '\n' with
      | nil => rfl
      | cons piece pieces => simp [encode]

/-- Items that end with a line feed each are cut at the line feeds in them. -/
theorem splitOn_flatMap (items : List (List Char)) :
    (items.flatMap (· ++ ['\n'])).splitOn '\n' = items.flatMap (·.splitOn '\n') ++ [[]] := by
  induction items with
  | nil => rfl
  | cons item items ih =>
    rw [List.flatMap_cons, List.append_assoc, List.singleton_append,
      List.splitOn_append_cons_self, ih, List.flatMap_cons, List.append_assoc]

/-- The bytes of a line that stood before a line feed. -/
def lineBytes (line : List Char) : List UInt8 :=
  dropReturn (encode line)

theorem encode_eq_nil_iff {cs : List Char} : encode cs = [] ↔ cs = [] := by
  cases cs with
  | nil => exact iff_of_true rfl rfl
  | cons c cs =>
    refine iff_of_false (fun h => ?_) (List.cons_ne_nil c cs)
    exact String.utf8EncodeChar_ne_nil (List.append_eq_nil_iff.1 h).1

/-- The last piece keeps its carriage return, and is no line if it is empty. -/
theorem lines_of_splitOn {bytes : ByteArray} {pieces : List (List UInt8)} {last : List UInt8}
    (h : bytes.data.toList.splitOn lineFeed = pieces ++ [last]) :
    lines bytes = pieces.map dropReturn ++ if last = [] then [] else [last] := by
  simp only [lines, h, List.getLast?_concat, List.dropLast_concat]
  split
  · next hnil => rw [if_pos (Option.some.inj hnil), List.append_nil]
  · next hnone => exact absurd hnone nofun
  · next bytes hbytes hlast =>
    obtain rfl := Option.some.inj hlast
    rw [if_neg hbytes]

theorem lines_toUTF8_of_splitOn {s : String} {pieces : List (List Char)} {last : List Char}
    (h : s.toList.splitOn '\n' = pieces ++ [last]) :
    lines s.toUTF8 = pieces.map lineBytes ++ if last = [] then [] else [encode last] := by
  have hpieces : s.toUTF8.data.toList.splitOn lineFeed = pieces.map encode ++ [encode last] := by
    rw [toList_toUTF8, splitOn_encode, h, List.map_append]
    rfl
  rw [lines_of_splitOn hpieces, List.map_map]
  simp only [encode_eq_nil_iff]
  rfl

/-- The lines of items that end with a line feed each. -/
theorem lines_toUTF8 {s : String} {items : List (List Char)}
    (h : s.toList = items.flatMap (· ++ ['\n'])) :
    lines s.toUTF8 = (items.flatMap (·.splitOn '\n')).map lineBytes := by
  have hsplit : s.toList.splitOn '\n' = items.flatMap (·.splitOn '\n') ++ [[]] := by
    rw [h, splitOn_flatMap]
  rw [lines_toUTF8_of_splitOn hsplit, if_pos rfl, List.append_nil]

/-! ### Carriage returns -/

/-- A line is a text, and at most one carriage return at its end is missing. -/
theorem lineText?_lineBytes (line : List Char) :
    lineText? (lineBytes line) = some (String.ofList line) ∨
      ∃ rest, line = rest ++ ['\r'] ∧ lineText? (lineBytes line) = some (String.ofList rest) := by
  rw [lineBytes, dropReturn]
  split
  · next h =>
    rcases List.eq_nil_or_concat line with rfl | ⟨rest, c, rfl⟩
    · exact .inl (lineText?_encode [])
    · rw [List.concat_eq_append] at h ⊢
      have hsingle : encode [c] = String.utf8EncodeChar c := List.flatMap_singleton ..
      rw [encode_append, hsingle, beq_iff_eq, List.getLast?_append,
        List.getLast?_eq_some_getLast String.utf8EncodeChar_ne_nil, Option.some_or] at h
      -- Only a carriage return has that byte.
      obtain rfl : c = '\r' :=
        carriageReturn_mem_utf8EncodeChar_iff.1 (Option.some.inj h ▸ List.getLast_mem _)
      refine .inr ⟨rest, rfl, ?_⟩
      have hbytes : (encode (rest ++ ['\r'])).dropLast = encode rest := by
        rw [encode_append]
        exact List.dropLast_concat
      rw [hbytes, lineText?_encode]
  · exact .inl (lineText?_encode line)

/-- To read a text line by line is to read the pieces between its line feeds, if
    nothing is read from an empty line and a carriage return at the end of a line
    makes no difference. -/
theorem exists_lineTexts {α : Type} {read : String → Option α} (hnil : read "" = none)
    (hreturn : ∀ cs, read (String.ofList (cs ++ ['\r'])) = read (String.ofList cs)) (s : String) :
    ∃ texts, List.Forall₂ (fun line text => lineText? line = some text) (lines s.toUTF8) texts ∧
      texts.filterMap read =
        (s.toList.splitOn '\n').filterMap fun piece => read (String.ofList piece) := by
  have hline : ∀ piece, ∃ text, lineText? (lineBytes piece) = some text ∧
      read text = read (String.ofList piece) := by
    intro piece
    rcases lineText?_lineBytes piece with htext | ⟨rest, rfl, htext⟩
    · exact ⟨_, htext, rfl⟩
    · exact ⟨_, htext, (hreturn rest).symm⟩
  choose text htext hread using hline
  obtain ⟨pieces, last, hsplit⟩ := exists_splitOn_eq_append '\n' s.toList
  have hforall : List.Forall₂ (fun line text => lineText? line = some text)
      (pieces.map lineBytes) (pieces.map text) := by
    rw [List.forall₂_map_left_iff, List.forall₂_map_right_iff]
    exact List.forall₂_same.2 fun piece _ => htext piece
  have hpieces : (pieces.map text).filterMap read =
      pieces.filterMap fun piece => read (String.ofList piece) := by
    rw [List.filterMap_map]
    exact List.filterMap_congr fun piece _ => hread piece
  rw [lines_toUTF8_of_splitOn hsplit, hsplit, List.filterMap_append]
  by_cases hlast : last = []
  · refine ⟨pieces.map text, ?_, ?_⟩
    · rw [if_pos hlast, List.append_nil]
      exact hforall
    · have hempty : [last].filterMap (fun piece => read (String.ofList piece)) = [] :=
        List.filterMap_cons_none (hlast ▸ hnil)
      rw [hpieces, hempty, List.append_nil]
  · refine ⟨pieces.map text ++ [String.ofList last], ?_, ?_⟩
    · rw [if_neg hlast]
      exact List.rel_append hforall (.cons (lineText?_encode last) .nil)
    · rw [List.filterMap_append, hpieces]
      rfl

/-! ### What lines are -/

/-- The bytes fall into these lines: a line feed ends a line, a carriage return right
    before it is taken off, and what follows the last line feed is a line unless it is
    empty. -/
inductive FallsInto : List UInt8 → List (List UInt8) → Prop
  | nil : FallsInto [] []
  | last {line : List UInt8} : line ≠ [] → lineFeed ∉ line → FallsInto line [line]
  | feed {line rest : List UInt8} {lines : List (List UInt8)} : lineFeed ∉ line →
      line.getLast? ≠ some carriageReturn → FallsInto rest lines →
      FallsInto (line ++ lineFeed :: rest) (line :: lines)
  | returnFeed {line rest : List UInt8} {lines : List (List UInt8)} : lineFeed ∉ line →
      FallsInto rest lines →
      FallsInto (line ++ carriageReturn :: lineFeed :: rest) (line :: lines)

theorem dropReturn_append_return (line : List UInt8) :
    dropReturn (line ++ [carriageReturn]) = line := by
  rw [dropReturn, List.getLast?_concat, if_pos (by decide), List.dropLast_concat]

theorem lines_append_feed {line : List UInt8} (h : lineFeed ∉ line) (rest : List UInt8) :
    lines ⟨(line ++ lineFeed :: rest).toArray⟩ = dropReturn line :: lines ⟨rest.toArray⟩ := by
  obtain ⟨pieces, last, hsplit⟩ := exists_splitOn_eq_append lineFeed rest
  have hcons : (line ++ lineFeed :: rest).splitOn lineFeed = (line :: pieces) ++ [last] := by
    rw [List.splitOn_append_cons_self_of_not_mem h, hsplit, List.cons_append]
  rw [@lines_of_splitOn ⟨(line ++ lineFeed :: rest).toArray⟩ _ _ hcons,
    @lines_of_splitOn ⟨rest.toArray⟩ _ _ hsplit, List.map_cons, List.cons_append]

theorem FallsInto.lines_eq {bytes : List UInt8} {ls : List (List UInt8)} (h : FallsInto bytes ls) :
    lines ⟨bytes.toArray⟩ = ls := by
  induction h with
  | nil => rfl
  | @last line hne hfeed =>
    rw [@lines_of_splitOn ⟨line.toArray⟩ [] line (List.splitOn_eq_singleton hfeed), if_neg hne]
    rfl
  | feed hfeed hreturn _ ih =>
    rw [lines_append_feed hfeed, ih, dropReturn, if_neg (by simpa using hreturn)]
  | @returnFeed line rest _ hfeed _ ih =>
    have hline : lineFeed ∉ line ++ [carriageReturn] := by
      simpa [hfeed] using (by decide : lineFeed ≠ carriageReturn)
    rw [List.append_cons, lines_append_feed hline, ih, dropReturn_append_return]

theorem exists_fallsInto (bytes : List UInt8) : ∃ ls, FallsInto bytes ls := by
  by_cases hmem : lineFeed ∈ bytes
  · obtain ⟨line, rest, hbytes, hfeed⟩ := List.eq_append_cons_of_mem hmem
    have hlength : rest.length < bytes.length := by
      rw [hbytes, List.length_append, List.length_cons]
      omega
    obtain ⟨ls, hls⟩ := exists_fallsInto rest
    rw [hbytes]
    by_cases hreturn : line.getLast? = some carriageReturn
    · obtain ⟨line, rfl⟩ := List.getLast?_eq_some_iff.1 hreturn
      rw [← List.append_cons]
      exact ⟨_, .returnFeed (fun h => hfeed (List.mem_append_left _ h)) hls⟩
    · exact ⟨_, .feed hfeed hreturn hls⟩
  · by_cases hnil : bytes = []
    · exact ⟨[], hnil ▸ .nil⟩
    · exact ⟨[bytes], .last hnil hmem⟩
termination_by bytes.length

theorem lines_eq_iff {bytes : ByteArray} {ls : List (List UInt8)} :
    lines bytes = ls ↔ FallsInto bytes.data.toList ls := by
  refine ⟨?_, FallsInto.lines_eq⟩
  rintro rfl
  obtain ⟨ls, hls⟩ := exists_fallsInto bytes.data.toList
  have hlines : lines bytes = ls := hls.lines_eq
  rwa [hlines]

end GridSat.Text
