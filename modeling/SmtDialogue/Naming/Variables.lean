import SmtDialogue.Expr.Combine
import SmtDialogue.Expr.Render
import SmtDialogue.Naming.Registry

/-!
# Making variables

A variable is made by its name, and an array of variables by its dimensions and
a name to which the indices are appended, counted from one and separated by
underscores. Every name goes through a registry, element by element in the order
of the indices, so that a refusal in the middle of an array leaves the names of
the elements before it in use. What is given as the name of an array is written
out for its elements, and only there: an array without elements takes any name.
-/

namespace SmtDialogue

/-- A computation that takes names into use and may be refused. What has been
taken into use stays so when a later name is refused. -/
abbrev Naming := ExceptT BuildError (StateM Registry)

namespace Naming

/-- Takes one name into use. -/
def register (name : String) : Naming Bool :=
  fun r => Registry.register name r

/-- A variable of the given name and sort. Only a non-empty text is a name. -/
def variableNamed (name : Operand) (sort : Option SmtSort) : Naming Operand :=
  if name.isName then do
    let _ ← register name.plain
    return .expr (Expr.var name.plain sort)
  else throw (.showing name (.invalidName name))

/-- A dimension as a natural number. -/
def dimension? : Operand → Option Nat
  | .int n => if 0 ≤ n then some n.toNat else none
  | _ => none

/-- The name of an element: the index after an underscore. -/
def elementName (name : Operand) (index : Nat) : Except BuildError Operand := do
  return .text ((← name.runningText) ++ "_" ++ toString index)

/-- An array of variables with the given dimensions; without any dimension, the
variable itself. -/
def arrayNamed (name : Operand) (sort : Option SmtSort) : List Operand → Naming Operand
  | [] => variableNamed name sort
  | d :: dims =>
    match dimension? d with
    | none => throw (.showing d (.dimension d))
    | some n => do
      let elements ← (List.range n).mapM fun i => do
        arrayNamed (← elementName name (i + 1)) sort dims
      return .list elements

/-- An array of variables, from its dimensions followed by its name. The first
argument is the name of the constructor, for the message when there is no
name. -/
def arrayOf (constructor : String) (sort : Option SmtSort) (arguments : List Operand) :
    Naming Operand :=
  match arguments.getLast? with
  | none => throw (.nameMissing constructor)
  | some name => arrayNamed name sort arguments.dropLast

/-- Truth-valued variables: a name, or dimensions and a name. -/
def bools (arguments : List Operand) : Naming Operand :=
  arrayOf "Bool" (some .bool) arguments

/-- Integer variables: a name, or dimensions and a name. -/
def ints (arguments : List Operand) : Naming Operand :=
  arrayOf "Int" (some .int) arguments

/-- One variable whose sort is settled by its use. What is given after the name
would be a registry, which no operand is; nothing stands for the registry at
hand. -/
def untyped (arguments : List Operand) : Naming Operand :=
  match arguments with
  | [name] | [name, .absent] => variableNamed name none
  | [name, other] =>
    if name.isName then throw (.notARegistry other)
    else throw (.showing name (.invalidName name))
  | _ => throw .argumentCount

end Naming

end SmtDialogue
