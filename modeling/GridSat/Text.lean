/-!
# Texts

How a stream of bytes comes to be lines, words and numbers.

It is cut into *lines* at each line feed. The line feed belongs to no line, and
neither does a carriage return right before it; what follows the last line feed
is a line only if it is not empty, and keeps its carriage returns. A line is a
text only if its bytes are UTF-8, which is checked line by line (`lineText?`),
since a reader may stop before it reaches a bad one.

A text falls into *words* at its blanks, the twenty-five code points with the
Unicode property *White_Space*, and *trimming* takes the blanks off both ends.

A *numeral* is a run of the ten digits, of any length and with any number of
zeros in front, after an optional sign. A sign alone is no numeral, and neither
is a number outside the range that is asked for.
-/

namespace GridSat.Text

/-! ### Lines -/

/-- The byte that ends a line. -/
def lineFeed : UInt8 := 10

/-- The byte that may stand before the end of a line. -/
def carriageReturn : UInt8 := 13

/-- A line without one carriage return at its end. -/
def dropReturn (line : List UInt8) : List UInt8 :=
  if line.getLast? == some carriageReturn then line.dropLast else line

/-- The lines of a stream of bytes. -/
def lines (bytes : ByteArray) : List (List UInt8) :=
  let pieces := bytes.data.toList.splitOn lineFeed
  let ended := pieces.dropLast.map dropReturn
  match pieces.getLast? with
  | some [] | none => ended
  | some last => ended ++ [last]

/-- The text of a line, if its bytes are UTF-8. -/
def lineText? (line : List UInt8) : Option String :=
  String.fromUTF8? ⟨line.toArray⟩

/-! ### Words -/

/-- The ranges of code points with the property *White_Space*, ends included. -/
def blankRanges : List (Nat × Nat) :=
  [(0x09, 0x0D), (0x20, 0x20), (0x85, 0x85), (0xA0, 0xA0), (0x1680, 0x1680), (0x2000, 0x200A),
    (0x2028, 0x2029), (0x202F, 0x202F), (0x205F, 0x205F), (0x3000, 0x3000)]

/-- Whether a character separates words. -/
def isBlank (c : Char) : Bool :=
  blankRanges.any fun (first, last) => first ≤ c.toNat && c.toNat ≤ last

/-- The maximal runs of characters without a blank, in order. -/
def words (s : String) : List String :=
  ((s.toList.splitOnP isBlank).filter fun w => !w.isEmpty).map String.ofList

/-- A list of characters without the blanks at its ends. -/
def trim (cs : List Char) : List Char :=
  ((cs.dropWhile isBlank).reverse.dropWhile isBlank).reverse

/-- The table lists its ranges in order, and they hold twenty-five code points. -/
example : (blankRanges.flatMap fun (first, last) => [first, last]).Pairwise (· ≤ ·) ∧
    (blankRanges.map fun (first, last) => last + 1 - first).sum = 25 := by
  decide

/-! ### Numerals -/

/-- The number a run of digits stands for; `none` for an empty run, or if some
    character is not a digit. -/
def natural? (cs : List Char) : Option Nat :=
  if cs.isEmpty then none
  else cs.foldlM (fun n c => if c.isDigit then some (10 * n + (c.toNat - '0'.toNat)) else none) 0

/-- The number of integers of 31 bits. -/
def bound31 : Nat := 2147483648

/-- The number of integers of 64 bits. -/
def bound64 : Nat := 18446744073709551616

/-- The integer of 32 bits, sign included, that a text stands for. -/
def int32? (s : String) : Option Int :=
  let value := match s.toList with
    | '+' :: cs => (natural? cs).map Int.ofNat
    | '-' :: cs => (natural? cs).map fun n => -Int.ofNat n
    | cs => (natural? cs).map Int.ofNat
  value.filter fun k => -bound31 ≤ k && k < bound31

/-- The number of 64 bits that a text stands for; a plus sign is allowed. -/
def nat64? (s : String) : Option Nat :=
  let value := match s.toList with
    | '+' :: cs => natural? cs
    | cs => natural? cs
  value.filter (· < bound64)

end GridSat.Text
