import GridSat.Files.Disk
import GridSat.Logic.Formula
import GridSat.Text

/-!
# Reading DIMACS

The DIMACS format writes a formula as a stream of integers, where `k` stands for
the variable number `k`, `-k` for its negation, and `0` ends a clause. The
integers are the words of the data lines. A line is blank, a comment (its first
word is `c`), a problem line (`p`) or a data line, and a line whose first word
is `%` ends the input. A clause may go over several lines and lines may hold
several clauses; a last clause without its zero counts if it has a literal.

The variable number `k` gets the numeral of `k` as its name. Clauses and
literals are added in front as they are read, so both come out newest first.
-/

namespace GridSat.Dimacs

/-- Why a text is not DIMACS. -/
inductive Error where
  /-- The input cannot be read. -/
  | input (cause : InputError)
  /-- A word of the data line of this number is not an integer of 32 bits. -/
  | invalidLiteral (line : Nat) (token : String)
deriving DecidableEq

/-- The text of an error. -/
def Error.message : Error → String
  | input cause => cause.message
  | invalidLiteral line token => s!"line {line}: '{token}' is not a literal"

/-- Taking a zero for a literal. -/
structure TerminatorError where
deriving DecidableEq

/-- What is wrong with a zero. -/
def TerminatorError.message (_ : TerminatorError) : String :=
  "0 is a clause terminator, not a literal"

/-- The literal an integer stands for: the variable named by its absolute value,
    negated if it is negative. Zero stands for none. -/
def literal (k : Int) : Except TerminatorError Literal :=
  if k = 0 then .error {} else .ok ⟨decide (0 < k), ⟨toString k.natAbs⟩⟩

/-- A formula in the course of being read. -/
structure Draft where
  /-- The clauses that were ended. -/
  formula : Formula := .empty
  /-- The literals since. -/
  current : Clause := .empty

namespace Draft

/-- Takes an integer: zero ends the clause and anything else is a literal. -/
def take (d : Draft) (k : Int) : Draft :=
  match literal k with
  | .error _ => ⟨d.formula.add d.current, .empty⟩
  | .ok l => ⟨d.formula, d.current.add l⟩

/-- The formula at the end of the input. -/
def finish (d : Draft) : Formula :=
  if d.current.isEmpty then d.formula else d.formula.add d.current

end Draft

/-- What a line is for. -/
inductive LineKind where
  /-- It ends the input. -/
  | stop
  /-- It holds nothing to read. -/
  | skip
  /-- Its words are integers. -/
  | data (tokens : List String)

/-- The kind of the line of the given words. -/
def LineKind.ofWords : List String → LineKind
  | [] => .skip
  | word :: words =>
    if word = "%" then .stop
    else if word = "c" ∨ word = "p" then .skip
    else .data (word :: words)

/-- Takes the integers of the data line of the given number. -/
def readTokens (line : Nat) : List String → Draft → Except Error Draft
  | [], d => .ok d
  | token :: tokens, d =>
    match Text.int32? token with
    | none => .error (.invalidLiteral line token)
    | some k => readTokens line tokens (d.take k)

/-- Takes the lines, the first of which has the given number. -/
def readLines : List (List UInt8) → Nat → Draft → Except Error Formula
  | [], _, d => .ok d.finish
  | line :: lines, number, d =>
    match Text.lineText? line with
    | none => .error (.input .notText)
    | some text =>
      match LineKind.ofWords (Text.words text) with
      | .stop => .ok d.finish
      | .skip => readLines lines (number + 1) d
      | .data tokens =>
        match readTokens number tokens d with
        | .error e => .error e
        | .ok d => readLines lines (number + 1) d

/-- Reads a formula from bytes. -/
def read (bytes : ByteArray) : Except Error Formula :=
  readLines (Text.lines bytes) 1 {}

/-- Reads a formula from a text. -/
def readText (s : String) : Except Error Formula :=
  read s.toUTF8

end GridSat.Dimacs
