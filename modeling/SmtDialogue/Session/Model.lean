import SmtDialogue.Expr.Combine
import SmtDialogue.Session.Basic

/-!
# Models

After a satisfiable check the values of variables can be asked for. They are
asked for in requests of limited size, and the answers are put together. Only
declared constants are asked for: a variable that no assertion uses can have
any value, and gets a default one.
-/

namespace SmtDialogue.Session

/-- The most constants of one request for values. -/
def requestSize : Nat := 50

/-- A list cut into parts of a given size, the last of which may be smaller;
`part` is the part begun, last member first, and `room` what still fits. -/
def cutParts {α : Type} (size : Nat) (room : Nat) (part : List α) : List α → List (List α)
  | [] => if part.isEmpty then [] else [part.reverse]
  | x :: xs =>
    match room with
    | 0 => part.reverse :: cutParts size (size - 1) [x] xs
    | room + 1 => cutParts size room (x :: part) xs

/-- The requests for the values of some constants. -/
def requests (names : List String) : List (List String) :=
  cutParts requestSize requestSize [] names

/-- The value reported for a variable that no assertion uses. -/
def defaultValue (e : Expr) : Value :=
  if e.sort == some .int then .int 0 else .bool false

/-- The declared ones of some variables, by name and with repetitions, and
default values for the others. -/
def partitionVariables (declared : SortTable) :
    List Expr → Except SessionError (List String × Model)
  | [] => .ok ([], [])
  | e :: es =>
    if e.isVariable then do
      let (names, defaults) ← partitionVariables declared es
      if declared.contains e.name then return (e.name :: names, defaults)
      else return (names, (Model.set [] e.name (defaultValue e)).update defaults)
    else .error (.modelOfNonVariable e.name)

/-- Asks for the values of some constants, request by request, on top of the
values found before. -/
def askValues (found : Model) : List (List String) → SessionM Model
  | [] => pure found
  | names :: rest => do
    let s ← get
    let _ ← written (Smt.getValueOf names)
    let response ← exchange (Channel.askValues s.options.deadline s.declared names)
    let values ← interpret (Answer.values s.name response names)
    askValues (found.update values) rest

/-- The values of some variables in the current model, or of all declared
constants when no variables are given. A variable that no assertion uses has a
default value. -/
def model (vars : Option Operand) : SessionM Model := do
  requireRunning "get a model"
  let s ← get
  unless s.status == some .sat do
    throw .noModel
  let (names, defaults) ← match vars with
    | none => pure (s.declared.names, [])
    | some operand => do
      let es ← built (Expr.collect operand)
      match partitionVariables s.declared es with
      | .ok parts => pure parts
      | .error e => throw e
  let found ← askValues [] (requests names)
  return found.update defaults

end SmtDialogue.Session
