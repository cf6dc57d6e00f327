import SmtDialogue.Smt.Error

/-!
# The sorts of variables

The sort of every variable of an asserted expression follows from its uses: the
expression itself is a truth value, every operator fixes the sorts of its
operands, and a choice hands the sort expected of it to both branches. One pass
from the root collects the sort of each name at its first occurrence and checks
every other occurrence, the sort recorded at the node, and the sort declared by
earlier assertions against it.
-/

namespace SmtDialogue

/-- Names with their sorts, in the order in which they were entered. -/
abbrev SortTable := List (String × SmtSort)

namespace SortTable

/-- The names of a table, in order. -/
def names (t : SortTable) : List String :=
  t.map Prod.fst

/-- The sort of a name. -/
def sortOf? (t : SortTable) (name : String) : Option SmtSort :=
  t.lookup name

/-- Whether a name is in the table. -/
def contains (t : SortTable) (name : String) : Bool :=
  (t.sortOf? name).isSome

/-- The table with a name entered at the end, unless it is there already. -/
def enter (t : SortTable) (name : String) (sort : SmtSort) : SortTable :=
  if t.contains name then t else t ++ [(name, sort)]

/-- The entries of a table whose names another table does not have. -/
def newIn (t declared : SortTable) : SortTable :=
  t.filter fun entry => !declared.contains entry.1

end SortTable

namespace Smt

/-- The check of one use of a variable: a known sort from any source must be the
one at which the variable is used. -/
def checkUse (name : String) (used : SmtSort) :
    List (SortSource × Option SmtSort) → Except WriteError Unit
  | [] => .ok ()
  | (source, known) :: rest =>
    match known with
    | some sort =>
      if sort == used then checkUse name used rest
      else .error (.variableSort name used source sort)
    | none => checkUse name used rest

mutual

/-- Enters the sorts of the variables of an expression of which a sort is
expected, on top of those found before. -/
def infer (declared : SortTable) : Expr → SmtSort → SortTable → Except WriteError SortTable
  | .node l cs, expected, found =>
    match l.op with
    | .identity => do
      checkUse l.name expected
        [(.declared, l.sort), (.session, declared.sortOf? l.name), (.use, found.sortOf? l.name)]
      return found.enter l.name expected
    | .const =>
      match l.sort with
      | none => .error (.unsortedConstant l.name)
      | some actual =>
        if actual == expected then .ok found
        else .error (.constantSort l.name actual expected)
    | .ite =>
      match cs with
      | [condition, thenBranch, elseBranch] => do
        let found ← infer declared condition .bool found
        let found ← infer declared thenBranch expected found
        infer declared elseBranch expected found
      | _ => .error (.malformedChoice l.name)
    | op =>
      let produced := op.resultSort?.getD .bool
      let operand := op.operandSort?.getD .bool
      if produced == expected then inferAll declared cs operand found
      else .error (.resultSort l.name produced expected)

/-- The same for several expressions of which one sort is expected. -/
def inferAll (declared : SortTable) :
    List Expr → SmtSort → SortTable → Except WriteError SortTable
  | [], _, found => .ok found
  | e :: es, expected, found => do
    let found ← infer declared e expected found
    inferAll declared es expected found

end

/-- The sorts of the variables of an asserted expression, in the order of their
first occurrence. -/
def inferSorts (declared : SortTable) (e : Expr) : Except WriteError SortTable :=
  infer declared e .bool []

end Smt

end SmtDialogue
