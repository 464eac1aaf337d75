import GridSat.Command.Arguments

/-!
# Help, version and completions

The texts that tell how to use the program.
-/

namespace GridSat.Command

/-- The name of the program and its version. -/
def versionText : String :=
  "sat-sudoku 0.1.0"

/-- How to use the program. -/
def helpText : String :=
  String.intercalate "\n" [
    "A SAT solver for formulas in conjunctive normal form, and for Sudoku puzzles",
    "",
    "Usage: sat-sudoku [OPTIONS] [PATH] [COMMAND]",
    "",
    "Commands:",
    "  file         Solve a DIMACS file (--path)",
    "  text         Solve a DIMACS text (-i, --input)",
    "  sudoku       Solve a puzzle file (--path), and write its formula (-e, --export-dimacs)",
    "  dir          Solve every .cnf and .sudoku file below a directory (--path)",
    "  completions  Print completions for bash, elvish, fish, powershell or zsh",
    "  help         Print this help",
    "",
    "Options:",
    "  -d, --debug           Print the size of the problem, the solution and the time",
    "  -v, --verify          Verify the solution (always on)",
    "  -s, --stats           Print statistics (always on)",
    "  -p, --print-solution  Print the solution after the statistics",
    "  -h, --help            Print this help",
    "  -V, --version         Print the version"]

/-- A script that completes the names of the subcommands. -/
def completionText (shell : Shell) : String :=
  let words := String.intercalate " " subcommandNames
  match shell with
  | .bash => s!"complete -W \"{words}\" sat-sudoku"
  | .elvish => "set edit:completion:arg-completer[sat-sudoku] = \x7b|@words| put " ++ words ++ " \x7d"
  | .fish => s!"complete -c sat-sudoku -f -a \"{words}\""
  | .powershell =>
    "Register-ArgumentCompleter -Native -CommandName sat-sudoku -ScriptBlock \x7b -split '" ++ words ++
      "' \x7d"
  | .zsh => s!"#compdef sat-sudoku\ncompadd {words}"

end GridSat.Command
