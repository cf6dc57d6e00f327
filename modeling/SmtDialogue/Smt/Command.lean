import SmtDialogue.Smt.SortTable
import SmtDialogue.Smt.Term

/-!
# Commands

What is said to a solver. An assertion is written together with the
declarations of those of its variables that have not been declared before, and
the table of declared variables grows by them; an assertion that is refused
leaves the table as it was.
-/

namespace SmtDialogue.Smt

/-- A command. -/
inductive Command where
  /-- Asks for models to be produced. -/
  | produceModels
  /-- Sets the logic. -/
  | setLogic (logic : String)
  /-- Declares a constant. -/
  | declare (name : String) (sort : SmtSort)
  /-- Asserts a term. -/
  | assert (term : Term)
  /-- Asks whether the assertions are satisfiable. -/
  | checkSat
  /-- Asks for the values of constants. -/
  | getValue (names : List String)
  /-- Opens a scope. -/
  | push
  /-- Closes the innermost scope. -/
  | pop
  /-- Ends the dialogue. -/
  | exit
deriving Repr

/-- A command as text. -/
def Command.text : Command → String
  | produceModels => "(set-option :produce-models true)"
  | setLogic logic => s!"(set-logic {logic})"
  | declare name sort => s!"(declare-const {symbolText name} {sort.name})"
  | assert term => s!"(assert {term.text})"
  | checkSat => "(check-sat)"
  | getValue names => "(get-value (" ++ " ".intercalate (names.map symbolText) ++ "))"
  | push => "(push 1)"
  | pop => "(pop 1)"
  | exit => "(exit)"

/-- Whether the text of a command starts with a given one. -/
def startsWith (command lead : String) : Bool :=
  lead.toList.isPrefixOf command.toList

/-- Whether a command, by its text, asks for an answer. -/
def isQuestion (command : String) : Bool :=
  startsWith command "(check-sat" || startsWith command "(get-value"

/-- Refuses the first of some names that cannot be written. -/
def checkWritable (names : List String) : Except WriteError Unit :=
  names.forM fun name => if isWritable name then .ok () else .error (.unwritable name)

/-- The variables of an asserted expression that have not been declared, with
their sorts. -/
def newDeclarations (declared : SortTable) (e : Expr) : Except WriteError SortTable := do
  let found ← inferSorts declared e
  let new := found.newIn declared
  checkWritable new.names
  return new

/-- The declarations of some variables. -/
def declareAll (new : SortTable) : List Command :=
  new.map fun (name, sort) => .declare name sort

/-- The commands that assert an expression, declarations first, and the table of
declared variables after them. -/
def assertion (declared : SortTable) (e : Expr) : Except WriteError (List Command × SortTable) := do
  let term ← Term.ofExpr e
  let new ← newDeclarations declared e
  return (declareAll new ++ [.assert term], declared ++ new)

/-- Commands as text, one below the other. -/
def textOf (commands : List Command) : String :=
  "\n".intercalate (commands.map Command.text)

/-- The command that asks for the values of some constants. -/
def getValueOf (names : List String) : Except WriteError Command := do
  checkWritable names
  return .getValue names

end SmtDialogue.Smt
