import SmtDialogue.Expr.Error
import SmtDialogue.Expr.Evaluate
import SmtDialogue.Smt.Error
import SmtDialogue.Solver.Fault

/-!
# Errors of a session

Every error that an operation of a session or of an enumeration can end with.
Faults end the dialogue, except for the limits among them; all others leave the
session as it was.
-/

namespace SmtDialogue

/-- A cause for refusing or giving up an operation. -/
inductive SessionError where
  /-- An expression that cannot be built. -/
  | build (cause : BuildError)
  /-- An expression that cannot be written. -/
  | write (cause : WriteError)
  /-- An expression that has no value. -/
  | evaluation (cause : EvaluationError)
  /-- An exchange that cannot go on. -/
  | fault (cause : Fault)
  /-- An executable that is not there. -/
  | executableNotFound (exe : String)
  /-- An executable that cannot be started. -/
  | launchFailed (solver reason : String)
  /-- A model without a satisfiable check before it. -/
  | noModel
  /-- A session that has been opened before. -/
  | alreadyOpened (phase : String)
  /-- An operation on a session that is not running. -/
  | notRunning (operation solver phase : String)
  /-- A scope closed that has not been opened. -/
  | noScope
  /-- A model asked for something that is no variable. -/
  | modelOfNonVariable (name : String)
  /-- A decision variable that is no variable. -/
  | decisionOnNonVariable (name : String)
  /-- An undecided check after some solutions. -/
  | undecided (found : Nat)
  /-- A model without a value for a variable. -/
  | valueMissing (name : String)
  /-- A limit below zero. -/
  | negativeLimit (limit : Int)
deriving Repr

namespace SessionError

/-- The kind of each cause. -/
def kind : SessionError → ErrorKind
  | build cause => cause.kind
  | write cause => cause.kind
  | evaluation cause => cause.kind
  | fault cause => cause.kind
  | executableNotFound _ | launchFailed .. => .solverUnavailable
  | noModel => .noModelAvailable
  | alreadyOpened _ | notRunning .. | noScope => .sessionState
  | modelOfNonVariable _ | decisionOnNonVariable _ => .typeMismatch
  | undecided _ => .solverIndeterminate
  | valueMissing _ => .missingKey
  | negativeLimit _ => .wrongValue

/-- The response that an error is about, for the kinds of error that have
one. -/
def response? : SessionError → Option String
  | fault cause => cause.response?
  | _ => none

/-- The wording of each cause. -/
def message : SessionError → String
  | build cause => cause.message
  | write cause => cause.message
  | evaluation cause => cause.message
  | fault cause => cause.message
  | executableNotFound exe => s!"Solver executable not found: {exe}"
  | launchFailed solver reason => s!"Failed to start {solver}: {reason}"
  | noModel => "No model available: the last check-sat was not sat"
  | alreadyOpened phase => s!"Cannot open a session in state {phase}"
  | notRunning operation solver phase => s!"Cannot {operation}: {solver} session is {phase}"
  | noScope => "pop without a matching push"
  | modelOfNonVariable name =>
    s!"Model values can only be requested for variables, not '{name}'"
  | decisionOnNonVariable name => s!"Decision variables must be variables, not '{name}'"
  | undecided found => s!"Solver returned unknown after {found} solutions"
  | valueMissing name => s!"No value for '{name}'"
  | negativeLimit limit => s!"limit must be non-negative, got {limit}"

end SessionError

end SmtDialogue
