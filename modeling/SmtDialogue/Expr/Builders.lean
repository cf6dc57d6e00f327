import SmtDialogue.Expr.Combine

/-!
# Builders

The functions from which constraints are written. Those over any number of
operands take nested collections and see them flattened; those with a fixed
number of operands take expressions and literals only.

A `Builder` is the name of one of these functions, so that it can be passed to
`broadcast`, which applies it elementwise. An `Operator` is the name of an infix
form; between a literal and an expression a comparison is turned round so that
the expression comes first.
-/

namespace SmtDialogue

/-- The name of a builder. -/
inductive Builder where
  /-- Negation. -/
  | not
  /-- Conjunction. -/
  | and
  /-- Disjunction. -/
  | or
  /-- Whether an odd number hold. -/
  | xor
  /-- Equivalence. -/
  | iff
  /-- Implication. -/
  | implies
  /-- Choice by a condition. -/
  | ite
  /-- Equality. -/
  | eq
  /-- Inequality. -/
  | ne
  /-- At most. -/
  | le
  /-- Less than. -/
  | lt
  /-- At least. -/
  | ge
  /-- Greater than. -/
  | gt
  /-- Sum. -/
  | add
  /-- Difference. -/
  | sub
  /-- Pairwise difference. -/
  | distinct
deriving DecidableEq, Repr

namespace Expr

/-- An operator over all expressions of some collections. -/
def combineAll (op : Op) (operands : List Operand) : Except BuildError Expr := do
  combine op ((← collectAll operands).map .expr)

/-- All pairs of members of a list, each with its first member earlier. -/
def pairs : List Expr → List (Expr × Expr)
  | [] => []
  | e :: es => es.map (e, ·) ++ pairs es

/-- The conjunction of all pairwise inequalities of at least two terms. -/
def distinct (operands : List Operand) : Except BuildError Expr := do
  let terms ← collectAll operands
  if terms.length < 2 then throw (.tooFewDistinct terms.length)
  let inequalities ← (pairs terms).mapM fun (a, b) => combine .ne [.expr a, .expr b]
  combineAll .and [.list (inequalities.map .expr)]

/-- The longest length among some lists. -/
def longest (columns : List (List Expr)) : Nat :=
  (columns.map List.length).foldl max 0

/-- The arguments at one place: a column of one is repeated everywhere. -/
def argumentsAt (columns : List (List Expr)) (i : Nat) : List Operand :=
  columns.filterMap fun column =>
    (if column.length == 1 then column.head? else column[i]?).map .expr

/-- Elementwise application. All collections of more than one element must have
one length, and single expressions are repeated against them. -/
def broadcast {α : Type} (apply : List Operand → Except BuildError α) (operands : List Operand) :
    Except BuildError (List α) := do
  let columns ← operands.mapM collect
  if columns.isEmpty then throw .nothingToBroadcast
  let n := longest columns
  columns.forM fun column =>
    if column.length == 1 || column.length == n then .ok ()
    else .error (.lengthsDiffer column.length n)
  (List.range n).mapM fun i => apply (argumentsAt columns i)

end Expr

/-- The negation of an expression. A literal is no expression, and of its number
`n` the complement `-n - 1` is taken. -/
def Operand.complement : Operand → Except BuildError Operand
  | .expr e => do return .expr (← Expr.combine .not [.expr e])
  | .bool b => .ok (.int (-(Value.bool b).toInt - 1))
  | .int n => .ok (.int (-n - 1))
  | other => .error (.notComplementable other)

namespace Builder

/-- The operator of a builder that makes one node from a fixed number of
operands, and that number. -/
def fixed? : Builder → Option (Op × Nat)
  | not => some (.not, 1)
  | iff => some (.iff, 2)
  | implies => some (.implies, 2)
  | ite => some (.ite, 3)
  | eq => some (.eq, 2)
  | ne => some (.ne, 2)
  | le => some (.le, 2)
  | lt => some (.lt, 2)
  | ge => some (.ge, 2)
  | gt => some (.gt, 2)
  | and | or | xor | add | sub | distinct => none

/-- The expression that a builder makes of its operands. -/
def build (b : Builder) (operands : List Operand) : Except BuildError Expr :=
  match b with
  | and => Expr.combineAll .and operands
  | or => Expr.combineAll .or operands
  | xor => Expr.combineAll .xor operands
  | add => Expr.combineAll .add operands
  | sub => Expr.combineAll .sub operands
  | distinct => Expr.distinct operands
  | other =>
    match other.fixed? with
    | some (op, n) =>
      if operands.length == n then Expr.combine op operands else .error .argumentCount
    | none => .error .argumentCount

end Builder

/-- The name of an infix form. -/
inductive Operator where
  /-- Conjunction. -/
  | and
  /-- Disjunction. -/
  | or
  /-- Exclusive disjunction. -/
  | xor
  /-- Less than. -/
  | lt
  /-- At most. -/
  | le
  /-- Greater than. -/
  | gt
  /-- At least. -/
  | ge
  /-- Sum. -/
  | add
  /-- Difference. -/
  | sub
deriving DecidableEq, Repr

namespace Operator

/-- The operator of the node. -/
def op : Operator → Op
  | and => .and
  | or => .or
  | xor => .xor
  | lt => .lt
  | le => .le
  | gt => .gt
  | ge => .ge
  | add => .add
  | sub => .sub

/-- The comparison that says the same of the operands in the other order; none
for an infix form that is no comparison. -/
def turned? : Operator → Option Op
  | lt => some .gt
  | le => some .ge
  | gt => some .lt
  | ge => some .le
  | and | or | xor | add | sub => none

/-- The expression of an infix form. One operand at least is an expression; a
comparison whose left operand is none is turned round. -/
def apply (o : Operator) (left right : Operand) : Except BuildError Expr :=
  match left, right, o.turned? with
  | .expr _, _, _ => Expr.combine o.op [left, right]
  | _, .expr _, some turned => Expr.combine turned [right, left]
  | _, .expr _, none => Expr.combine o.op [left, right]
  | _, _, _ => .error .argumentCount

end Operator

end SmtDialogue
