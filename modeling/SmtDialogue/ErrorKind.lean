/-!
# Kinds of errors

Every error of the library is a cause, a constructor of the type of errors of
its layer. Causes fall into kinds: what a caller can be expected to tell apart.
The first ten kinds are conditions of the library's own and come with a
message; the others are misuse of a call.
-/

namespace SmtDialogue

/-- The kind of an error. -/
inductive ErrorKind where
  /-- An operand has the wrong sort, or is no operand at all. -/
  | typeMismatch
  /-- The wrong number of operands, or lengths that do not fit together. -/
  | arityMismatch
  /-- A variable name is used again although that is forbidden. -/
  | duplicateName
  /-- A solver could not be started. -/
  | solverUnavailable
  /-- A solver's output could not be interpreted. -/
  | protocolError
  /-- A solver's output ends too early. -/
  | incompleteInput
  /-- A model was asked for although the last check was not satisfiable. -/
  | noModelAvailable
  /-- A solver did not answer in time. -/
  | solverTimeout
  /-- A solver could not decide. -/
  | solverIndeterminate
  /-- The session's state does not allow the operation. -/
  | sessionState
  /-- A call with an argument of a type that it cannot use. -/
  | wrongType
  /-- A call with an argument whose value it cannot use. -/
  | wrongValue
  /-- A look-up of a name that is not there. -/
  | missingKey
  /-- A use of a part that the argument does not have. -/
  | missingPart
  /-- A number too large to be computed with. -/
  | outOfRange
deriving DecidableEq, Repr

/-- Whether an error of this kind is a condition of the library's own. -/
def ErrorKind.isOwn : ErrorKind → Bool
  | wrongType | wrongValue | missingKey | missingPart | outOfRange => false
  | _ => true

end SmtDialogue
