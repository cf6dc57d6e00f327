import SmtDialogue.Enumeration.Block
import SmtDialogue.Enumeration.Enumerator
import SmtDialogue.Enumeration.Solve
import SmtDialogue.ErrorKind
import SmtDialogue.Expr.Basic
import SmtDialogue.Expr.Builders
import SmtDialogue.Expr.Combine
import SmtDialogue.Expr.Equality
import SmtDialogue.Expr.Error
import SmtDialogue.Expr.Evaluate
import SmtDialogue.Expr.Graph
import SmtDialogue.Expr.Op
import SmtDialogue.Expr.Operand
import SmtDialogue.Expr.Render
import SmtDialogue.Expr.Value
import SmtDialogue.Naming.Registry
import SmtDialogue.Naming.Variables
import SmtDialogue.Number.Binary64
import SmtDialogue.Number.Shortest
import SmtDialogue.Proofs.Account
import SmtDialogue.Proofs.Answers
import SmtDialogue.Proofs.Availability
import SmtDialogue.Proofs.Blocking
import SmtDialogue.Proofs.Bookkeeping
import SmtDialogue.Proofs.Broadcasting
import SmtDialogue.Proofs.Built
import SmtDialogue.Proofs.Calls
import SmtDialogue.Proofs.Clauses
import SmtDialogue.Proofs.Coherence
import SmtDialogue.Proofs.Commands
import SmtDialogue.Proofs.Composition
import SmtDialogue.Proofs.Constraints
import SmtDialogue.Proofs.Course
import SmtDialogue.Proofs.CurrentModels
import SmtDialogue.Proofs.Deciding
import SmtDialogue.Proofs.Denotation
import SmtDialogue.Proofs.Dialogue
import SmtDialogue.Proofs.Discipline
import SmtDialogue.Proofs.Distinctness
import SmtDialogue.Proofs.EndOfOutput
import SmtDialogue.Proofs.Enumeration
import SmtDialogue.Proofs.Equality
import SmtDialogue.Proofs.Exchange
import SmtDialogue.Proofs.Excluding
import SmtDialogue.Proofs.Flags
import SmtDialogue.Proofs.Flattening
import SmtDialogue.Proofs.Forms
import SmtDialogue.Proofs.Framing
import SmtDialogue.Proofs.Grouping
import SmtDialogue.Proofs.Inference
import SmtDialogue.Proofs.Information
import SmtDialogue.Proofs.Interchange
import SmtDialogue.Proofs.Interleaving
import SmtDialogue.Proofs.Interruption
import SmtDialogue.Proofs.KnownSorts
import SmtDialogue.Proofs.Layout
import SmtDialogue.Proofs.Lifecycle
import SmtDialogue.Proofs.LineFeeds
import SmtDialogue.Proofs.Matching
import SmtDialogue.Proofs.Meaning
import SmtDialogue.Proofs.NormalForm
import SmtDialogue.Proofs.Oracle
import SmtDialogue.Proofs.Order
import SmtDialogue.Proofs.Outcome
import SmtDialogue.Proofs.Pairing
import SmtDialogue.Proofs.Paths
import SmtDialogue.Proofs.Positions
import SmtDialogue.Proofs.Questions
import SmtDialogue.Proofs.Reading
import SmtDialogue.Proofs.Rearrangement
import SmtDialogue.Proofs.Recording
import SmtDialogue.Proofs.Registration
import SmtDialogue.Proofs.Replay
import SmtDialogue.Proofs.Retrieval
import SmtDialogue.Proofs.Scoping
import SmtDialogue.Proofs.Scripts
import SmtDialogue.Proofs.Sorting
import SmtDialogue.Proofs.SoundSolver
import SmtDialogue.Proofs.Standard
import SmtDialogue.Proofs.Statuses
import SmtDialogue.Proofs.Storing
import SmtDialogue.Proofs.Table
import SmtDialogue.Proofs.Transmission
import SmtDialogue.Proofs.Turns
import SmtDialogue.Proofs.Values
import SmtDialogue.Session.Assertion
import SmtDialogue.Session.Basic
import SmtDialogue.Session.Binding
import SmtDialogue.Session.Channel
import SmtDialogue.Session.Error
import SmtDialogue.Session.Event
import SmtDialogue.Session.History
import SmtDialogue.Session.LifeCycle
import SmtDialogue.Session.Model
import SmtDialogue.Session.Process
import SmtDialogue.Session.ScriptedSolver
import SmtDialogue.Sexp.Item
import SmtDialogue.Sexp.Reader
import SmtDialogue.Sexp.Token
import SmtDialogue.Smt.Command
import SmtDialogue.Smt.Error
import SmtDialogue.Smt.Script
import SmtDialogue.Smt.SortTable
import SmtDialogue.Smt.Symbol
import SmtDialogue.Smt.Term
import SmtDialogue.Solver.Answer
import SmtDialogue.Solver.Backend
import SmtDialogue.Solver.Fault
import SmtDialogue.Solver.FileSystem
import SmtDialogue.Solver.Options
import SmtDialogue.Text.Blank
import SmtDialogue.Text.Digit
import SmtDialogue.Text.LineBreak
import SmtDialogue.Text.LineReader
import SmtDialogue.Text.Printable
import SmtDialogue.Text.Quoted
