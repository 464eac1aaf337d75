/-!
# Reports

What the program prints, line by line. Some lines hold a figure that is
measured while the program runs, a time or an amount of memory; they are kept
apart as lines with a gap, and `Line.render` fills in the figures.

Rows of a table have a bar at either end, the label on the left and the value
on the right. Times have three decimal places, memory has two, and rates have
none.
-/

namespace GridSat.Command

/-- The measured figures. -/
structure Figures where
  /-- The time for reading the problem, in nanoseconds. -/
  parseTime : Nat := 0
  /-- The time for solving it, in nanoseconds. -/
  searchTime : Nat := 0
  /-- The memory in use, in bytes. -/
  allocated : Nat := 0
  /-- The memory held, in bytes. -/
  resident : Nat := 0

/-- Names one of the figures that have a row of their own. -/
inductive Figure where
  | parseTime
  | searchTime
  | allocated
  | resident
deriving DecidableEq

/-- A line of the output. -/
inductive Line where
  /-- A text, which may itself go over several lines. -/
  | text (content : String)
  /-- The time for solving the problem. -/
  | time
  /-- A row with a number. -/
  | count (label : String) (value : Nat)
  /-- A row with a number and how much that is per second. -/
  | rate (label : String) (value : Nat)
  /-- A row with a measured figure. -/
  | figure (label : String) (which : Figure)
deriving DecidableEq

/-- Pads a text with blanks on its right. -/
def padRight (width : Nat) (s : String) : String :=
  s ++ String.ofList (List.replicate (width - s.length) ' ')

/-- Pads a text with blanks on its left. -/
def padLeft (width : Nat) (s : String) : String :=
  String.ofList (List.replicate (width - s.length) ' ') ++ s

/-- A quotient with the given number of decimal places, rounded to the nearest
    such number, and up from halfway. -/
def decimal (places numerator denominator : Nat) : String :=
  let unit := Nat.pow 10 places
  let scaled := (2 * numerator * unit + denominator) / (2 * denominator)
  let whole := toString (scaled / unit)
  let part := toString (scaled % unit)
  if places = 0 then whole
  else whole ++ "." ++ String.ofList (List.replicate (places - part.length) '0') ++ part

/-- Nanoseconds in a second. -/
def second : Nat := 1000000000

/-- Bytes in a mebibyte. -/
def mebibyte : Nat := 1048576

/-- The value of a figure as it stands in its row. -/
def Figure.render (figures : Figures) : Figure → String
  | parseTime => decimal 3 figures.parseTime second
  | searchTime => decimal 3 figures.searchTime second
  | allocated => decimal 2 figures.allocated mebibyte
  | resident => decimal 2 figures.resident mebibyte

/-- So much per second; nothing if no time has passed. -/
def perSecond (value time : Nat) : String :=
  if time = 0 then "0" else decimal 0 (value * second) time

/-- A row of the table. -/
def row (label value : String) : String :=
  s!"|  {padRight 28 label} {padLeft 18 value}  |"

/-- A row of the table with a rate. -/
def rateRow (label value rate : String) : String :=
  s!"|  {padRight 20 label} {padLeft 12 value} ({padLeft 9 rate}/sec)  |"

/-- A line with the figures filled in, and its end. -/
def Line.render (figures : Figures) : Line → String
  | text content => content ++ "\n"
  | time => s!"Time: {decimal 3 figures.searchTime 1000000}ms\n"
  | count label value => row label (toString value) ++ "\n"
  | rate label value =>
    rateRow label (toString value) (perSecond value figures.searchTime) ++ "\n"
  | figure label which => row label (which.render figures) ++ "\n"

/-- All lines with the figures filled in. -/
def renderLines (figures : Figures) (lines : List Line) : String :=
  String.join (lines.map (Line.render figures))

end GridSat.Command
