import Mathlib.Data.List.DropRight
import GridSat.Text

/-!
# Words and numerals

A blank separates the words before it from those after it (`words_append_blank`).
So a word in front of a blank is the first word of its line, words with spaces
between them are read back as they are (`words_intercalate`), and blanks at the
ends of a line make no difference.

More blanks between words make no difference either: the words of a line are those that
it has with any blanks between them and around them (`Spaced`, `words_eq_iff`).
Trimming takes away what stands around them (`words_trim`).

A numeral is digits after a sign or not (`IsNumeral`), and it is read exactly if its
integer is in the range (`int32?_eq_some_iff`). So reading a numeral gives back the
number that it was written for (`int32?_repr`, `int32?_neg_repr`). A number of 64 bits
has no minus sign, and is read alike (`nat64?_eq_some_iff`).
-/

namespace GridSat.Text

/-! ### Words -/

/-- The text is a word: it has characters, and none of them is a blank. -/
structure IsWord (w : String) : Prop where
  ne_nil : w.toList ≠ []
  isBlank_eq : ∀ c ∈ w.toList, isBlank c = false

theorem isWord_of_toList_eq {w : String} {c : Char} (h : w.toList = [c]) (hc : isBlank c = false) :
    IsWord w where
  ne_nil := h ▸ List.cons_ne_nil c []
  isBlank_eq := h ▸ List.forall_mem_singleton.2 hc

theorem IsWord.notMem {w : String} (h : IsWord w) {c : Char} (hc : isBlank c = true) :
    c ∉ w.toList := fun hmem =>
  Bool.eq_false_iff.1 (h.isBlank_eq c hmem) hc

theorem words_append_blank {c : Char} (hc : isBlank c = true) (cs ds : List Char) :
    words (String.ofList (cs ++ c :: ds)) = words (String.ofList cs) ++ words (String.ofList ds) := by
  simp only [words, String.toList_ofList]
  rw [List.splitOnP_append_cons cs ds hc, List.filter_append, List.map_append]

theorem words_append_blank_nil {c : Char} (hc : isBlank c = true) (cs : List Char) :
    words (String.ofList (cs ++ [c])) = words (String.ofList cs) := by
  rw [words_append_blank hc]
  exact List.append_nil _

theorem IsWord.words_eq {w : String} (h : IsWord w) : words w = [w] := by
  rw [words, List.splitOnP_eq_singleton h.isBlank_eq]
  simp [h.ne_nil]

theorem words_cons_word {w : String} (h : IsWord w) {c : Char} (hc : isBlank c = true)
    (cs : List Char) : words (String.ofList (w.toList ++ c :: cs)) = w :: words (String.ofList cs) := by
  rw [words_append_blank hc, String.ofList_toList, h.words_eq]
  rfl

/-- Words with spaces between them are the words of the text. -/
theorem words_intercalate {ws : List String} (h : ∀ w ∈ ws, IsWord w) :
    words (String.intercalate " " ws) = ws := by
  induction ws with
  | nil => rfl
  | cons w ws ih =>
    obtain ⟨hw, hws⟩ := List.forall_mem_cons.1 h
    cases ws with
    | nil => exact hw.words_eq
    | cons w' ws =>
      have htext : String.intercalate " " (w :: w' :: ws) =
          String.ofList (w.toList ++ ' ' :: (String.intercalate " " (w' :: ws)).toList) := by
        rw [← String.toList_inj, String.intercalate_cons_cons]
        simp
      rw [htext, words_cons_word hw (by decide), String.ofList_toList, ih hws]

/-- A line of words with spaces between them is a single line. -/
theorem lineFeed_notMem_intercalate {ws : List String} (h : ∀ w ∈ ws, IsWord w) :
    '\n' ∉ (String.intercalate " " ws).toList := by
  induction ws with
  | nil => exact List.not_mem_nil
  | cons w ws ih =>
    obtain ⟨hw, hws⟩ := List.forall_mem_cons.1 h
    have hword : '\n' ∉ w.toList := hw.notMem (by decide)
    cases ws with
    | nil => exact hword
    | cons w' ws =>
      have hspace : '\n' ∉ " ".toList := by decide
      rw [String.intercalate_cons_cons, String.toList_append, String.toList_append, List.mem_append,
        List.mem_append, not_or, not_or]
      exact ⟨⟨hword, hspace⟩, ih hws⟩

/-! ### Blanks between words -/

/-- All of the characters are blanks. -/
def AllBlank (cs : List Char) : Prop :=
  ∀ c ∈ cs, isBlank c = true

/-- The characters are these words, with blanks between them and around them. -/
inductive Spaced : List String → List Char → Prop
  | nil : Spaced [] []
  | blank {c : Char} {ws : List String} {cs : List Char} :
      isBlank c = true → Spaced ws cs → Spaced ws (c :: cs)
  | word {w : String} {ws : List String} {cs : List Char} :
      IsWord w → (∀ c ∈ cs.head?, isBlank c = true) → Spaced ws cs →
      Spaced (w :: ws) (w.toList ++ cs)

theorem words_cons_blank {c : Char} (hc : isBlank c = true) (cs : List Char) :
    words (String.ofList (c :: cs)) = words (String.ofList cs) :=
  words_append_blank hc [] cs

theorem Spaced.words_eq {ws : List String} {cs : List Char} (h : Spaced ws cs) :
    words (String.ofList cs) = ws := by
  induction h with
  | nil => rfl
  | blank hc _ ih => rw [words_cons_blank hc, ih]
  | @word w ws cs hw hhead _ ih =>
    cases cs with
    | nil =>
      rw [List.append_nil, String.ofList_toList, hw.words_eq, ← ih]
      rfl
    | cons c cs =>
      have hc : isBlank c = true := hhead c rfl
      rw [words_cons_word hw hc, ← words_cons_blank hc, ih]

theorem Spaced.cons_word {c : Char} {ds cs : List Char} {ws : List String} (h : Spaced ws cs)
    (hds : ∀ d ∈ c :: ds, isBlank d = false) (hhead : ∀ c ∈ cs.head?, isBlank c = true) :
    Spaced (String.ofList (c :: ds) :: ws) (c :: ds ++ cs) := by
  have hword : IsWord (String.ofList (c :: ds)) := by
    refine ⟨by simp, ?_⟩
    rwa [String.toList_ofList]
  have hspaced := Spaced.word hword hhead h
  rwa [String.toList_ofList] at hspaced

/-- Any characters are words with blanks between them: a character belongs to the word
    right behind it, or is a word of its own. -/
theorem exists_spaced (cs : List Char) : ∃ ws, Spaced ws cs := by
  induction cs with
  | nil => exact ⟨[], .nil⟩
  | cons c cs ih =>
    obtain ⟨ws, hws⟩ := ih
    by_cases hc : isBlank c = true
    · exact ⟨ws, .blank hc hws⟩
    rw [Bool.not_eq_true] at hc
    cases hws with
    | nil => exact ⟨_, Spaced.nil.cons_word (List.forall_mem_singleton.2 hc) (by simp)⟩
    | blank hd hcs =>
      exact ⟨_, (hcs.blank hd).cons_word (List.forall_mem_singleton.2 hc) (by simpa using hd)⟩
    | word hw hhead hcs =>
      exact ⟨_, hcs.cons_word (List.forall_mem_cons.2 ⟨hc, hw.isBlank_eq⟩) hhead⟩

theorem words_eq_iff {ws : List String} {cs : List Char} :
    words (String.ofList cs) = ws ↔ Spaced ws cs := by
  refine ⟨?_, Spaced.words_eq⟩
  rintro rfl
  obtain ⟨ws, hws⟩ := exists_spaced cs
  rwa [hws.words_eq]

instance {ws : List String} {cs : List Char} : Decidable (Spaced ws cs) :=
  decidable_of_iff _ words_eq_iff

/-- Only blanks stand before the first word, and the other words come after it. -/
theorem Spaced.exists_append {w : String} {ws : List String} {cs : List Char}
    (h : Spaced (w :: ws) cs) :
    IsWord w ∧ ∃ before rest, AllBlank before ∧ Spaced ws rest ∧
      cs = before ++ (w.toList ++ rest) := by
  generalize hall : w :: ws = all at h
  induction h with
  | nil => exact absurd hall nofun
  | @blank c _ _ hc _ ih =>
    obtain ⟨hw, before, rest, hbefore, hrest, rfl⟩ := ih hall
    exact ⟨hw, c :: before, rest, List.forall_mem_cons.2 ⟨hc, hbefore⟩, hrest, rfl⟩
  | @word _ _ cs hw _ hrest _ =>
    obtain ⟨rfl, rfl⟩ := List.cons.inj hall
    exact ⟨hw, [], cs, nofun, hrest, rfl⟩

/-- Characters without a word are blanks. -/
theorem Spaced.allBlank {cs : List Char} (h : Spaced [] cs) : AllBlank cs := by
  generalize hnil : ([] : List String) = ws at h
  induction h with
  | nil => exact nofun
  | blank hc _ ih => exact List.forall_mem_cons.2 ⟨hc, ih hnil⟩
  | word => exact absurd hnil nofun

section Blanks

variable {before after cs : List Char} {c : Char}

theorem words_append_of_allBlank (h : AllBlank before) (cs : List Char) :
    words (String.ofList (before ++ cs)) = words (String.ofList cs) := by
  induction before with
  | nil => rfl
  | cons c before ih =>
    obtain ⟨hc, hbefore⟩ := List.forall_mem_cons.1 h
    rw [List.cons_append, words_cons_blank hc, ih hbefore]

theorem words_of_append_allBlank (h : AllBlank after) (cs : List Char) :
    words (String.ofList (cs ++ after)) = words (String.ofList cs) := by
  induction after generalizing cs with
  | nil => rw [List.append_nil]
  | cons c after ih =>
    obtain ⟨hc, hafter⟩ := List.forall_mem_cons.1 h
    rw [List.append_cons, ih hafter, words_append_blank_nil hc]

/-! ### Trimming -/

theorem trim_append_of_allBlank (h : AllBlank before) (cs : List Char) :
    trim (before ++ cs) = trim cs := by
  rw [trim, List.dropWhile_append_of_pos h, trim]

theorem trim_of_append_allBlank (h : AllBlank after) (cs : List Char) :
    trim (cs ++ after) = trim cs := by
  have hreverse : ∀ c ∈ after.reverse, isBlank c = true := fun c hc => h c (List.mem_reverse.1 hc)
  rw [trim, trim, List.dropWhile_append]
  split
  · next hnil =>
    rw [List.isEmpty_iff] at hnil
    rw [hnil, List.dropWhile_eq_nil_iff.2 h]
  · rw [List.reverse_append, List.dropWhile_append_of_pos hreverse]

theorem trim_of_allBlank (h : AllBlank cs) : trim cs = [] := by
  rw [trim, List.dropWhile_eq_nil_iff.2 h]
  rfl

/-- A text without blanks stays as it is. -/
theorem trim_eq_self (h : ∀ c ∈ cs, isBlank c = false) : trim cs = cs := by
  have hself : ∀ ds : List Char, (∀ c ∈ ds, isBlank c = false) → ds.dropWhile isBlank = ds := by
    intro ds hds
    cases ds with
    | nil => rfl
    | cons d ds => exact List.dropWhile_cons_of_neg (by simp [hds d List.mem_cons_self])
  rw [trim, hself cs h, hself _ fun c hc => h c (List.mem_reverse.1 hc), List.reverse_reverse]

/-- A character that is no blank stays in front. -/
theorem exists_trim_cons (hc : isBlank c = false) (cs : List Char) :
    ∃ rest, trim (c :: cs) = c :: rest := by
  have hne : ¬isBlank c = true := Bool.eq_false_iff.1 hc
  rw [trim, List.dropWhile_cons_of_neg hne, List.reverse_cons, List.dropWhile_append]
  split
  · exact ⟨[], by rw [List.dropWhile_cons_of_neg hne, List.reverse_singleton]⟩
  · exact ⟨_, by rw [List.reverse_append, List.reverse_singleton, List.singleton_append]⟩

theorem words_trim (cs : List Char) :
    words (String.ofList (trim cs)) = words (String.ofList cs) := by
  have hbefore : AllBlank (cs.takeWhile isBlank) := fun c hc => List.mem_takeWhile_imp hc
  have hafter : AllBlank ((cs.dropWhile isBlank).rtakeWhile isBlank) := fun c hc =>
    List.mem_rtakeWhile_imp hc
  calc words (String.ofList (trim cs))
    _ = words (String.ofList (trim cs ++ (cs.dropWhile isBlank).rtakeWhile isBlank)) :=
      (words_of_append_allBlank hafter _).symm
    _ = words (String.ofList (cs.dropWhile isBlank)) :=
      congrArg (fun ds => words (String.ofList ds)) List.rdropWhile_append_rtakeWhile
    _ = words (String.ofList cs) := by
      rw [← words_append_of_allBlank hbefore, List.takeWhile_append_dropWhile]

end Blanks

/-! ### Numerals -/

theorem isBlank_of_isDigit {c : Char} (h : c.isDigit = true) : isBlank c = false := by
  have hrange : 48 ≤ c.toNat ∧ c.toNat ≤ 57 := by
    simpa [Char.isDigit, UInt32.le_iff_toNat_le] using h
  simp only [isBlank, blankRanges, List.any_eq_false, List.mem_cons, List.not_mem_nil, or_false]
  rintro _ (rfl | rfl | rfl | rfl | rfl | rfl | rfl | rfl | rfl | rfl) <;> simp <;> omega

theorem foldlM_digits {cs : List Char} (h : ∀ c ∈ cs, c.isDigit = true) (n : Nat) :
    cs.foldlM (fun n c => if c.isDigit then some (10 * n + (c.toNat - '0'.toNat)) else none) n =
      some (Nat.ofDigitChars 10 cs n) := by
  induction cs generalizing n with
  | nil => rfl
  | cons c cs ih =>
    obtain ⟨hc, hcs⟩ := List.forall_mem_cons.1 h
    rw [List.foldlM_cons, if_pos hc, Nat.ofDigitChars_cons]
    exact ih hcs _

theorem isDigit_of_foldlM_eq_some {cs : List Char} {n m : Nat}
    (h : cs.foldlM (fun n c => if c.isDigit then some (10 * n + (c.toNat - '0'.toNat)) else none)
      n = some m) : ∀ c ∈ cs, c.isDigit = true := by
  induction cs generalizing n with
  | nil => exact fun _ hc => absurd hc List.not_mem_nil
  | cons c cs ih =>
    rw [List.foldlM_cons] at h
    split at h
    · next hc => exact List.forall_mem_cons.2 ⟨hc, ih h⟩
    · exact absurd h nofun

theorem natural?_eq_some_iff {cs : List Char} {n : Nat} : natural? cs = some n ↔
    cs ≠ [] ∧ (∀ c ∈ cs, c.isDigit = true) ∧ Nat.ofDigitChars 10 cs 0 = n := by
  rw [natural?]
  split
  · next hnil => exact iff_of_false nofun fun h => h.1 (List.isEmpty_iff.1 hnil)
  · next hne =>
    rw [List.isEmpty_iff] at hne
    constructor
    · intro h
      have hdigits := isDigit_of_foldlM_eq_some h
      rw [foldlM_digits hdigits] at h
      exact ⟨hne, hdigits, Option.some.inj h⟩
    · rintro ⟨-, hdigits, rfl⟩
      exact foldlM_digits hdigits 0

theorem isDigit_of_mem_toDigits {n : Nat} {c : Char} (h : c ∈ Nat.toDigits 10 n) :
    c.isDigit = true :=
  Nat.isDigit_of_mem_toDigits (by decide) (by decide) h

theorem isWord_repr (n : Nat) : IsWord n.repr where
  ne_nil := by
    rw [Nat.toList_repr]
    exact Nat.toDigits_ne_nil
  isBlank_eq c hc := by
    rw [Nat.toList_repr] at hc
    exact isBlank_of_isDigit (isDigit_of_mem_toDigits hc)

/-- The text is a numeral of the integer: digits, after a sign or not. -/
inductive IsNumeral : String → Int → Prop
  | plain {ds : List Char} : ds ≠ [] → (∀ c ∈ ds, c.isDigit = true) →
      IsNumeral (String.ofList ds) (Nat.ofDigitChars 10 ds 0)
  | plus {ds : List Char} : ds ≠ [] → (∀ c ∈ ds, c.isDigit = true) →
      IsNumeral (String.ofList ('+' :: ds)) (Nat.ofDigitChars 10 ds 0)
  | minus {ds : List Char} : ds ≠ [] → (∀ c ∈ ds, c.isDigit = true) →
      IsNumeral (String.ofList ('-' :: ds)) (-(Nat.ofDigitChars 10 ds 0 : Int))

/-- The text is a numeral of an integer of 32 bits. -/
def IsInt32 (w : String) (k : Int) : Prop :=
  IsNumeral w k ∧ -2147483648 ≤ k ∧ k < 2147483648

section Integers

variable {w : String} {k : Int}

theorem int32?_eq_some_iff : int32? w = some k ↔ IsInt32 w k := by
  have hrange : (decide (-(bound31 : Int) ≤ k) && decide (k < (bound31 : Int))) = true ↔
      -2147483648 ≤ k ∧ k < 2147483648 := by
    rw [Bool.and_eq_true, decide_eq_true_iff, decide_eq_true_iff, bound31]
    exact Iff.rfl
  rw [int32?, Option.filter_eq_some_iff, hrange, IsInt32]
  refine and_congr_left fun _ => ⟨fun h => ?_, fun h => ?_⟩
  · obtain ⟨ds, rfl⟩ : ∃ ds, w = String.ofList ds := ⟨w.toList, String.ofList_toList.symm⟩
    rw [String.toList_ofList] at h
    split at h <;> obtain ⟨n, hn, rfl⟩ := Option.map_eq_some_iff.1 h <;>
      obtain ⟨hne, hds, rfl⟩ := natural?_eq_some_iff.1 hn
    · exact .plus hne hds
    · exact .minus hne hds
    · exact .plain hne hds
  · cases h with
    | plus hne hds => simp [natural?_eq_some_iff.2 ⟨hne, hds, rfl⟩]
    | minus hne hds => simp [natural?_eq_some_iff.2 ⟨hne, hds, rfl⟩]
    | plain hne hds =>
      rw [String.toList_ofList]
      -- A digit is no sign.
      split
      · exact absurd (hds _ List.mem_cons_self) (by decide)
      · exact absurd (hds _ List.mem_cons_self) (by decide)
      · exact Option.map_eq_some_iff.2 ⟨_, natural?_eq_some_iff.2 ⟨hne, hds, rfl⟩, rfl⟩

end Integers

/-- The text is a numeral of a number of 64 bits: digits, after a plus sign or not. -/
inductive IsNat64 : String → Nat → Prop
  | plain {ds : List Char} : ds ≠ [] → (∀ c ∈ ds, c.isDigit = true) →
      Nat.ofDigitChars 10 ds 0 < 18446744073709551616 →
      IsNat64 (String.ofList ds) (Nat.ofDigitChars 10 ds 0)
  | plus {ds : List Char} : ds ≠ [] → (∀ c ∈ ds, c.isDigit = true) →
      Nat.ofDigitChars 10 ds 0 < 18446744073709551616 →
      IsNat64 (String.ofList ('+' :: ds)) (Nat.ofDigitChars 10 ds 0)

theorem nat64?_eq_some_iff {w : String} {n : Nat} : nat64? w = some n ↔ IsNat64 w n := by
  rw [nat64?, Option.filter_eq_some_iff, decide_eq_true_iff, bound64]
  constructor
  · rintro ⟨h, hlt⟩
    obtain ⟨ds, rfl⟩ : ∃ ds, w = String.ofList ds := ⟨w.toList, String.ofList_toList.symm⟩
    rw [String.toList_ofList] at h
    split at h <;> obtain ⟨hne, hds, rfl⟩ := natural?_eq_some_iff.1 h
    · exact .plus hne hds hlt
    · exact .plain hne hds hlt
  · intro h
    cases h with
    | plus hne hds hlt => exact ⟨by simp [natural?_eq_some_iff.2 ⟨hne, hds, rfl⟩], hlt⟩
    | plain hne hds hlt =>
      refine ⟨?_, hlt⟩
      rw [String.toList_ofList]
      split
      · exact absurd (hds _ List.mem_cons_self) (by decide)
      · exact natural?_eq_some_iff.2 ⟨hne, hds, rfl⟩

section Written

variable {n : Nat}

theorem isNumeral_repr (n : Nat) : IsNumeral n.repr n := by
  have h : IsNumeral (String.ofList (Nat.toDigits 10 n))
      (Nat.ofDigitChars 10 (Nat.toDigits 10 n) 0) :=
    .plain Nat.toDigits_ne_nil fun _ => isDigit_of_mem_toDigits
  rwa [Nat.ofDigitChars_ten_toDigits, ← Nat.toList_repr, String.ofList_toList] at h

theorem isNumeral_neg_repr (n : Nat) : IsNumeral ("-" ++ n.repr) (-n) := by
  have hlist : "-" ++ n.repr = String.ofList ('-' :: Nat.toDigits 10 n) := by
    rw [← String.toList_inj, String.toList_append, Nat.toList_repr, String.toList_ofList,
      String.toList_ofList, List.singleton_append]
  have h : IsNumeral (String.ofList ('-' :: Nat.toDigits 10 n))
      (-(Nat.ofDigitChars 10 (Nat.toDigits 10 n) 0 : Int)) :=
    .minus Nat.toDigits_ne_nil fun _ => isDigit_of_mem_toDigits
  rwa [Nat.ofDigitChars_ten_toDigits, ← hlist] at h

theorem int32?_repr (h : n < bound31) : int32? n.repr = some (n : Int) := by
  rw [bound31] at h
  exact int32?_eq_some_iff.2 ⟨isNumeral_repr n, by omega, by omega⟩

theorem int32?_neg_repr (h : n < bound31) : int32? ("-" ++ n.repr) = some (-(n : Int)) := by
  rw [bound31] at h
  exact int32?_eq_some_iff.2 ⟨isNumeral_neg_repr n, by omega, by omega⟩

end Written

end GridSat.Text
