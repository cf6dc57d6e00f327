import SmtDialogue.ErrorKind
import SmtDialogue.Sexp.Reader
import SmtDialogue.Solver.Options

/-!
# Faults

A fault is what ends a dialogue: the solver's output cannot be interpreted, the
solver takes no more input, has gone, or has not answered in time. Faults of
interpretation keep the response that they are about, so that a caller can look
at it.

Two faults are limits on this side, on the length of numerals and on deadlines.
They say nothing about the solver, and the dialogue can go on after them.
-/

namespace SmtDialogue

/-- A cause for giving up an exchange. -/
inductive Fault where
  /-- A text that ends too early. -/
  | unfinished (what : Unfinished)
  /-- A text with a closing parenthesis too many. -/
  | unbalanced (response : String)
  /-- An item that is no value. -/
  | unsupportedValue (item : Item)
  /-- An answer to a check that is no status. -/
  | unexpectedStatus (response : String)
  /-- An error that the solver reports. -/
  | reported (solver : String) (message : Item) (response : String)
  /-- An answer to a request for values that is no single list. -/
  | malformedAnswer (response : String)
  /-- An entry of such an answer that is no pair of a name and a value. -/
  | malformedEntry (entry : Item) (response : String)
  /-- Names for which such an answer has no entry. -/
  | missingValues (names : List String) (response : String)
  /-- A command that the solver does not take. -/
  | inputRefused (solver reason : String)
  /-- The end of the output in place of an answer; what has been read of it, and
  what the solver has said on its error channel. -/
  | exited (solver : String) (detail : String) (read : String)
  /-- An assertion that an in-process solver rejects. -/
  | assertionRejected (reason command : String)
  /-- No answer before the deadline. -/
  | timeout (solver : String) (deadline : Option Seconds)
  /-- A numeral with too many digits to be read. -/
  | numeralTooLong (digits : Nat)
  /-- A deadline that no clock can keep. -/
  | deadlineUnusable (deadline : Seconds)
deriving Repr

namespace Fault

/-- The kind of each cause. -/
def kind : Fault → ErrorKind
  | unfinished _ => .incompleteInput
  | timeout .. => .solverTimeout
  | numeralTooLong _ => .wrongValue
  | deadlineUnusable deadline => if deadline.isNumber then .outOfRange else .wrongValue
  | _ => .protocolError

/-- Whether the dialogue cannot go on after a fault. -/
def endsDialogue : Fault → Bool
  | numeralTooLong _ | deadlineUnusable _ => false
  | _ => true

/-- The response that a fault is about. -/
def response? : Fault → Option String
  | unbalanced response | unexpectedStatus response | reported _ _ response
  | malformedAnswer response | malformedEntry _ response | missingValues _ response =>
    some response
  | assertionRejected _ command => some command
  | exited _ _ read => if read.isEmpty then none else some read
  | unfinished _ | unsupportedValue _ | inputRefused .. | timeout .. | numeralTooLong _
  | deadlineUnusable _ => none

/-- The wording of what a text leaves unfinished. -/
def unfinishedText : Unfinished → String
  | .quotedSymbol => "unterminated quoted symbol"
  | .stringLiteral => "unterminated string literal"
  | .list => "unbalanced '(' in solver response"

/-- The wording of each cause. -/
def message : Fault → String
  | unfinished what => unfinishedText what
  | unbalanced _ => "unbalanced ')' in solver response"
  | unsupportedValue item => "Unsupported value in solver response: " ++ item.display
  | unexpectedStatus response =>
    "Unexpected check-sat response: " ++ Text.quoted (Text.trim response)
  | reported solver message _ => s!"{solver} reported an error: {message.plain}"
  | malformedAnswer _ => "Malformed get-value response"
  | malformedEntry entry _ => "Malformed get-value entry: " ++ entry.display
  | missingValues names _ => "get-value response is missing " ++ ", ".intercalate names
  | inputRefused solver reason => s!"{solver} is not accepting input: {reason}"
  | exited solver detail _ =>
    s!"{solver} exited unexpectedly" ++ (if detail.isEmpty then "" else ": " ++ detail)
  | assertionRejected reason _ => s!"z3 rejected assertion: {reason}"
  | timeout solver deadline =>
    let limit := match deadline with
      | some d => d.text
      | none => "None"
    s!"{solver} did not answer within {limit} seconds"
  | numeralTooLong digits => s!"Numeral of {digits} digits in solver response"
  | deadlineUnusable deadline => s!"Cannot wait for {deadline.text} seconds"

/-- The fault of a response that cannot be read. -/
def ofReadError (response : String) : ReadError → Fault
  | .unbalanced => unbalanced response
  | .unfinished what => unfinished what

end Fault

end SmtDialogue
