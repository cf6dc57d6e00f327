import SmtDialogue.Smt.Symbol

/-!
# Terms

The SMT-LIB term of an expression. A sum, conjunction, disjunction or exclusive
disjunction of one operand is that operand; every other operator is applied
under its SMT-LIB name, where equivalence and equality share one. Terms are
trees of their own, and their text is written in one way: a symbol, a literal,
or an application in parentheses with single spaces.
-/

namespace SmtDialogue.Smt

/-- A term. -/
inductive Term where
  /-- A variable. -/
  | symbol (name : String)
  /-- A literal. -/
  | literal (value : Value)
  /-- An operator applied to terms. -/
  | app (head : String) (args : List Term)
deriving Repr, Inhabited

/-- The SMT-LIB name of an operator; leaves have none. -/
def headOf : Op → String
  | .identity | .const => ""
  | .not => "not"
  | .and => "and"
  | .or => "or"
  | .xor => "xor"
  | .iff => "="
  | .implies => "=>"
  | .ite => "ite"
  | .eq => "="
  | .ne => "distinct"
  | .le => "<="
  | .lt => "<"
  | .ge => ">="
  | .gt => ">"
  | .add => "+"
  | .sub => "-"

/-- Whether one operand of an operator stands for its application. -/
def unwrapsSingle (op : Op) : Bool :=
  op.isFlattening

namespace Term

mutual

/-- The term as text. -/
def text : Term → String
  | symbol name => symbolText name
  | literal value => literalText value
  | app head args => "(" ++ head ++ " " ++ " ".intercalate (textAll args) ++ ")"

/-- The texts of several terms. -/
def textAll : List Term → List String
  | [] => []
  | t :: ts => t.text :: textAll ts

end

/-- An application, except that one operand may stand for it. -/
def apply (op : Op) (args : List Term) : Term :=
  match args with
  | [arg] => if unwrapsSingle op then arg else app (headOf op) args
  | _ => app (headOf op) args

mutual

/-- The term of an expression, unless a name has no written form. -/
def ofExpr : Expr → Except WriteError Term
  | .node l cs =>
    match l.op with
    | .identity => if isWritable l.name then .ok (symbol l.name) else .error (.unwritable l.name)
    | .const =>
      match l.value with
      | some value => .ok (literal value)
      | none => .error (.emptyConstant l.name)
    | op => do return apply op (← ofExprs cs)

/-- The terms of several expressions. -/
def ofExprs : List Expr → Except WriteError (List Term)
  | [] => .ok []
  | e :: es => do
    let t ← ofExpr e
    let ts ← ofExprs es
    return t :: ts

end

@[simp] theorem textAll_eq_map (ts : List Term) : textAll ts = ts.map text := by
  induction ts with
  | nil => rfl
  | cons t ts ih => simp [textAll, ih]

end Term

end SmtDialogue.Smt
