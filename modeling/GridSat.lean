import GridSat.Chain.Basic
import GridSat.Chain.Cells
import GridSat.Chain.Cursor
import GridSat.Command.Arguments
import GridSat.Command.Report
import GridSat.Command.Run
import GridSat.Command.Usage
import GridSat.Dimacs.Reader
import GridSat.Dimacs.Writer
import GridSat.Distinct
import GridSat.Files.Disk
import GridSat.Files.Tree
import GridSat.Logic.Clause
import GridSat.Logic.Environment
import GridSat.Logic.Formula
import GridSat.Logic.Literal
import GridSat.Logic.Valuation
import GridSat.Main
import GridSat.Search.Event
import GridSat.Search.Machine
import GridSat.Search.Move
import GridSat.Search.Solver
import GridSat.Sudoku.Encoding
import GridSat.Sudoku.Puzzle
import GridSat.Sudoku.Fault
import GridSat.Sudoku.Reader
import GridSat.Sudoku.Size
import GridSat.Text
import GridSat.Proofs.Chain.Construction
import GridSat.Proofs.Distinct
import GridSat.Proofs.Dimacs.Comments
import GridSat.Proofs.Dimacs.Grammar
import GridSat.Proofs.Dimacs.Reading
import GridSat.Proofs.Dimacs.Relining
import GridSat.Proofs.Dimacs.RoundTrip
import GridSat.Proofs.Dimacs.Writing
import GridSat.Proofs.Logic.Conditioning
import GridSat.Proofs.Logic.Interning
import GridSat.Proofs.Logic.Renaming
import GridSat.Proofs.Search.Accounting
import GridSat.Proofs.Search.Choice
import GridSat.Proofs.Search.EarlyStop
import GridSat.Proofs.Search.Commutation
import GridSat.Proofs.Search.Invariant
import GridSat.Proofs.Search.Priority
import GridSat.Proofs.Search.Recursion
import GridSat.Proofs.Search.Renaming
import GridSat.Proofs.Search.Safety
import GridSat.Proofs.Search.Satisfiability
import GridSat.Proofs.Search.Termination
import GridSat.Proofs.Sudoku.Confirmation
import GridSat.Proofs.Sudoku.Export
import GridSat.Proofs.Sudoku.Grid
import GridSat.Proofs.Sudoku.Reading
import GridSat.Proofs.Sudoku.Layout
import GridSat.Proofs.Sudoku.Names
import GridSat.Proofs.Sudoku.Rules
import GridSat.Proofs.Sudoku.Decoding
import GridSat.Proofs.Sudoku.Encoding
import GridSat.Proofs.Sudoku.Models
import GridSat.Proofs.Sudoku.Propagation
import GridSat.Proofs.Sudoku.Solving
import GridSat.Proofs.Sudoku.Uniqueness
import GridSat.Proofs.Text.Lines
import GridSat.Proofs.Text.Words
import GridSat.Proofs.Traversal
import GridSat.Proofs.Logic.Connectives
import GridSat.Proofs.Search.Validity
import GridSat.Proofs.Logic.Substitution
import GridSat.Proofs.Command.Outcome
import GridSat.Proofs.Files.Trees
import GridSat.Proofs.Command.Failure
import GridSat.Proofs.Sudoku.Clues
import GridSat.Proofs.Sudoku.Diagnosis
import GridSat.Proofs.Logic.Bindings
import GridSat.Proofs.Logic.Evaluation
import GridSat.Proofs.Sudoku.Occupancy
import GridSat.Proofs.Sudoku.Agreement
