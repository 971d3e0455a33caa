import ChronoSat.Cnf.Distribution
import ChronoSat.Cnf.Reduction
import ChronoSat.FileTree
import ChronoSat.Main
import ChronoSat.Proofs.Assignment.Values
import ChronoSat.Proofs.Formula.Obtainable
import ChronoSat.Proofs.Assignment.Naming
import ChronoSat.Proofs.Clauses.Reduction
import ChronoSat.Proofs.Outcomes
import ChronoSat.Proofs.Registry
import ChronoSat.Proofs.Ledger
import ChronoSat.Proofs.State.Change
import ChronoSat.Proofs.State.Making
import ChronoSat.Proofs.Search.Exploration
import ChronoSat.Proofs.State.Reachable
import ChronoSat.Proofs.Search.Account
import ChronoSat.Proofs.Formula.Evaluation
import ChronoSat.Proofs.Search.Answer
import ChronoSat.Proofs.Search.Refutation
import ChronoSat.Proofs.Branching.Contract
import ChronoSat.Proofs.Search.Soundness
import ChronoSat.Proofs.Branching.Counting
import ChronoSat.Proofs.Branching.BuiltIn
import ChronoSat.Proofs.Search.Totality
import ChronoSat.Proofs.Formula.Reduction
import ChronoSat.Proofs.Search.ByValue
import ChronoSat.Proofs.Search.Refinement
import ChronoSat.Proofs.State.Operation
import ChronoSat.Proofs.State.Session
import ChronoSat.Proofs.Search.Undoing
import ChronoSat.Proofs.Formula.Numbering
import ChronoSat.Proofs.Text.Cutting
import ChronoSat.Proofs.Text.Numeral
import ChronoSat.Proofs.Infix.Grammar
import ChronoSat.Proofs.Infix.Position
import ChronoSat.Proofs.Dimacs.Lines
import ChronoSat.Proofs.Dimacs.LineByLine
import ChronoSat.Proofs.Formula.Names
import ChronoSat.Proofs.Formula.Repetition
import ChronoSat.Proofs.Formula.Gathered
import ChronoSat.Proofs.Infix.RoundTrip
import ChronoSat.Proofs.Formula.Appending
import ChronoSat.Proofs.Text.Bytes
import ChronoSat.Proofs.Text.Joining
import ChronoSat.Proofs.Formula.Renumbering
import ChronoSat.Proofs.Dimacs.RoundTrip
import ChronoSat.Proofs.Dimacs.Unterminated
import ChronoSat.Proofs.Formula.Distribution
import ChronoSat.Proofs.Formula.Editing
import ChronoSat.Proofs.Formula.Residue
import ChronoSat.Proofs.Formula.Sampling
import ChronoSat.Proofs.CommandLine.Reporting
import ChronoSat.Proofs.Instruments
import ChronoSat.Proofs.Assignment.Spelling
import ChronoSat.Proofs.Search.Bookkeeping
import ChronoSat.Proofs.Search.Nesting
import ChronoSat.Proofs.Search.Replay
import ChronoSat.Proofs.Search.Verdict
import ChronoSat.Proofs.Search.Checking
import ChronoSat.Proofs.Search.Wording
import ChronoSat.Proofs.Sweep
import ChronoSat.Proofs.Branching.Renaming
import ChronoSat.Proofs.Search.Renaming
import ChronoSat.Proofs.Assignment.Views
import ChronoSat.Proofs.Clauses.Coding
