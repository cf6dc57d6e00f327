import SmtDialogue.ErrorKind
import SmtDialogue.Expr.Basic
import SmtDialogue.Text.Quoted

/-!
# Errors of writing

Why an expression cannot be written for a solver: a name that has no written
form, sorts that conflict, or a node that no builder makes.
-/

namespace SmtDialogue

/-- Where the known sort of a variable comes from. -/
inductive SortSource where
  /-- From the node. -/
  | declared
  /-- From an earlier assertion. -/
  | session
  /-- From another use in the same assertion. -/
  | use
deriving DecidableEq, Repr

/-- The word for a source. -/
def SortSource.word : SortSource → String
  | declared => "declared"
  | session => "session"
  | use => "use"

/-- A cause for not writing an expression. -/
inductive WriteError where
  /-- A name with a bar or a backslash. -/
  | unwritable (name : String)
  /-- A variable used at a sort other than its known one. -/
  | variableSort (name : String) (used : SmtSort) (source : SortSource) (known : SmtSort)
  /-- A constant where the other sort is expected. -/
  | constantSort (name : String) (actual expected : SmtSort)
  /-- A compound node where the other sort is expected. -/
  | resultSort (name : String) (actual expected : SmtSort)
  /-- A constant without a sort. -/
  | unsortedConstant (name : String)
  /-- A constant without a value. -/
  | emptyConstant (name : String)
  /-- A choice that has not exactly three children. -/
  | malformedChoice (name : String)
deriving DecidableEq, Repr

namespace WriteError

/-- The kind of each cause. -/
def kind : WriteError → ErrorKind
  | unwritable _ | variableSort .. | constantSort .. | resultSort .. => .typeMismatch
  | unsortedConstant _ => .missingPart
  | emptyConstant _ => .wrongType
  | malformedChoice _ => .wrongValue

/-- The wording of each cause. -/
def message : WriteError → String
  | unwritable name =>
    "Variable name " ++ Text.quoted name ++ " cannot be written as an SMT-LIB symbol"
  | variableSort name used source known =>
    s!"Variable '{name}' is used as {used.name} but its {source.word} sort is {known.name}"
  | constantSort name actual expected =>
    s!"Constant {name} is {actual.name} where {expected.name} is expected"
  | resultSort name actual expected =>
    s!"'{name}' is {actual.name} where {expected.name} is expected"
  | unsortedConstant name => s!"Constant {name} has no sort"
  | emptyConstant name => s!"Constant {name} has no value"
  | malformedChoice name => s!"'{name}' has not three children"

end WriteError

end SmtDialogue
