import SmtDialogue.Expr.Builders
import SmtDialogue.Session.Error
import SmtDialogue.Solver.Answer

/-!
# Blocking clauses

A clause that holds of every assignment but one. For each variable it has the
literal that the assignment makes false: a truth value contributes the variable
or its negation, an integer an inequality. Values may be any operands, so that a
value that no variable can have is refused like any other mistaken operand.
-/

namespace SmtDialogue.Enumeration

/-- The literal that a value of a variable makes false. -/
def differing (v : Expr) : Operand → Except BuildError Expr
  | .bool true => Expr.combine .not [.expr v]
  | .bool false => .ok v
  | value => Expr.combine .ne [.expr v, value]

/-- The literal for one variable, by the values of names. -/
def literalFor (values : List (String × Operand)) (v : Expr) : Except SessionError Expr :=
  match values.lookup v.name with
  | none => .error (.valueMissing v.name)
  | some value =>
    match differing v value with
    | .ok literal => .ok literal
    | .error cause => .error (.build cause)

/-- The clause that excludes the given values of some variables. -/
def blockVariables (values : List (String × Operand)) (decisions : List Expr) :
    Except SessionError Expr := do
  let literals ← decisions.mapM (literalFor values)
  match Expr.combineAll .or [.list (literals.map .expr)] with
  | .ok clause => return clause
  | .error cause => throw (.build cause)

/-- The clause that excludes the given values of a collection of variables. -/
def block (values : List (String × Operand)) (decisions : Operand) : Except SessionError Expr :=
  match Expr.collect decisions with
  | .ok es => blockVariables values es
  | .error cause => .error (.build cause)

/-- The clause that excludes a model for some variables. -/
def blockModel (model : Model) (decisions : List Expr) : Except SessionError Expr :=
  blockVariables (model.map fun (name, value) => (name, Operand.ofValue value)) decisions

end SmtDialogue.Enumeration
