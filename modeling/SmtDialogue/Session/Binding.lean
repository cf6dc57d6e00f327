import SmtDialogue.Session.History
import SmtDialogue.Solver.Answer

/-!
# In-process solvers

A solver in the same process takes the same commands as text. Declarations are
kept on this side, as the table of constants that assertions may use, with one
mark per open scope so that closing the scope forgets what was declared in it.
Everything else is a call on the solver, whose behaviour is given by functions
of the calls made before.
-/

namespace SmtDialogue

/-- What an in-process solver says to a check. -/
inductive Verdict where
  /-- Satisfiable. -/
  | sat
  /-- Unsatisfiable. -/
  | unsat
  /-- Not decided, for a reason. -/
  | unknown (reason : String)
deriving DecidableEq, Repr

/-- The value of a constant in the model of an in-process solver. -/
inductive ModelValue where
  /-- A value of one of the two sorts. -/
  | plain (value : Value)
  /-- Any other value, as it is written. -/
  | other (text : String)
deriving DecidableEq, Repr

/-- The text of a value. -/
def ModelValue.text : ModelValue → String
  | plain value => Smt.literalText value
  | other text => text

/-- What an in-process solver does, by the calls made on it. -/
structure Binding where
  /-- What it says to a check. -/
  verdict : History → Verdict
  /-- The value of a constant of a sort in its model. -/
  value : History → String → SmtSort → ModelValue
  /-- Why it rejects an assertion, if it does. -/
  rejection : History → String → Option String

/-- An in-process solver. Constants, declared names and marks are kept in
order of declaration; the mark of the innermost scope comes first. -/
structure InProcess where
  /-- How the solver behaves. -/
  binding : Binding
  /-- The deadline of each check. -/
  deadline : Option Seconds
  /-- The constants that assertions may use. -/
  constants : SortTable := []
  /-- The declared names. -/
  declared : List String := []
  /-- For each open scope, how many names had been declared when it was
  opened. -/
  marks : List Nat := []
  /-- The calls made on the solver. -/
  history : History := .empty

namespace InProcess

/-- The name of the in-process solver in messages about answers. -/
def solverName : String := "z3"

/-- A call on the solver that always succeeds. -/
def call (events : List Event) (b : InProcess) : Reply InProcess Unit :=
  { outcome := .ok (), state := { b with history := b.history.addAll events }, events }

/-- Hands the deadline to the solver, if there is one. It must be a number of
milliseconds. -/
def setDeadline (b : InProcess) : Reply InProcess Unit :=
  match b.deadline with
  | none => b.call []
  | some d =>
    match d.milliseconds? with
    | some ms => b.call [.deadlineSet ms]
    | none => { outcome := .error (.deadlineUnusable d), state := b }

/-- A new solver. -/
def start (binding : Binding) (deadline : Option Seconds) : Reply InProcess Unit :=
  (call [.solverMade] { binding, deadline }).andThen fun _ => setDeadline

/-- The table with the sort of a constant set, at its place if it is there and
else at the end. -/
def setConstant (t : SortTable) (name : String) (sort : SmtSort) : SortTable :=
  if t.contains name then
    t.map fun entry => if entry.1 == name then (name, sort) else entry
  else t ++ [(name, sort)]

/-- Reads a declaration and keeps its constant. -/
def declare (command : String) (b : InProcess) : Reply InProcess Unit :=
  match Item.parse command with
  | .error e => { outcome := .error (.ofReadError command e), state := b }
  | .ok (.list [_, name, sort] :: _) =>
    let name := name.plain
    let sort : SmtSort := if sort.hasText SmtSort.int.name then .int else .bool
    { outcome := .ok ()
      state := { b with
        constants := setConstant b.constants name sort
        declared := b.declared ++ [name] } }
  | .ok _ => { outcome := .error (.malformedAnswer command), state := b }

/-- Opens a scope. -/
def push (b : InProcess) : Reply InProcess Unit :=
  call [.pushed] { b with marks := b.declared.length :: b.marks }

/-- Closes the innermost scope and forgets the constants declared in it. -/
def pop (b : InProcess) : Reply InProcess Unit :=
  let mark := b.marks.headD b.declared.length
  let gone := b.declared.drop mark
  call [.popped] { b with
    constants := b.constants.filter fun entry => !gone.contains entry.1
    declared := b.declared.take mark
    marks := b.marks.drop 1 }

/-- The logic that a command sets. -/
def logicOf (command : String) : String :=
  Text.trim (String.ofList (command.toList.drop "(set-logic ".length).dropLast)

/-- Takes one command. Options and the end of the dialogue need no call. -/
def send (command : String) (b : InProcess) : Reply InProcess Unit :=
  if Smt.startsWith command "(declare-const " then b.declare command
  else if Smt.startsWith command "(assert " then
    match b.binding.rejection b.history command with
    | some reason => { outcome := .error (.assertionRejected reason command), state := b }
    | none => b.call [.asserted command b.constants]
  else if Smt.startsWith command "(push" then b.push
  else if Smt.startsWith command "(pop" then b.pop
  else if Smt.startsWith command "(set-logic " then
    (b.call [.solverMadeFor (logicOf command)]).andThen fun _ => setDeadline
  else b.call []

/-- Asks for satisfiability. A check that was cut short at the deadline is a
fault; any other undecided one is an answer. -/
def check (b : InProcess) : Reply InProcess String :=
  (b.call [.checked]).andThen fun _ after =>
    match b.binding.verdict b.history with
    | .sat => { outcome := .ok "sat", state := after }
    | .unsat => { outcome := .ok "unsat", state := after }
    | .unknown reason =>
      if b.deadline.isSome && (reason == "timeout" || reason == "canceled") then
        { outcome := .error (.timeout solverName b.deadline), state := after }
      else { outcome := .ok "unknown", state := after }

/-- The entry of one constant in the answer to a request for values. A constant
that has not been declared counts as a truth value. -/
def entryText (b : InProcess) (sorts : SortTable) (name : String) : String :=
  let value := b.binding.value b.history name ((sorts.sortOf? name).getD .bool)
  s!"({Smt.symbolText name} {value.text})"

/-- The answer to a request for the values of some constants. -/
def valuesText (b : InProcess) (sorts : SortTable) (names : List String) : String :=
  "(" ++ " ".intercalate (names.map (b.entryText sorts)) ++ ")"

end InProcess

end SmtDialogue
