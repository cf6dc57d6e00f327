import SmtDialogue.Expr.Error

/-!
# Operator nodes

The one way in which compound expressions are built. Literals become constants,
the number of operands and their known sorts are checked, an operand of a
flattening operator that has the same operator is replaced by its own operands,
and the new node gets a name derived from the names of its children.

A constant is named by its value written out, so an integer with more digits than
can be written makes no constant (`literal`), wherever it is given.

The checks look at the operands as given, before flattening. Sorts that are not
known yet pass; they are settled when the expression is written for a solver.
-/

namespace SmtDialogue.Expr

/-- A constant. -/
def constant : Value → Expr
  | .bool b => node ⟨.const, if b then "true" else "false", some .bool, some (.bool b), none⟩ []
  | .int n => node ⟨.const, toString n, some .int, some (.int n), none⟩ []

/-- A variable; without a sort, its sort is settled by its use. -/
def var (name : String) (sort : Option SmtSort) : Expr :=
  node ⟨.identity, name, sort, none, none⟩ []

/-- The constant of a value that is short enough to be written. -/
def literal (v : Value) : Except BuildError Expr :=
  if v.isWritable then .ok (constant v) else .error .valueTooLong

/-- An expression as it is, and a literal as a constant. -/
def lift : Operand → Except BuildError Expr
  | .expr e => .ok e
  | .bool b => literal (.bool b)
  | .int n => literal (.int n)
  | other => .error (.showing other (.notAnOperand other))

/-- A literal as a constant; an expression is none. -/
def ofLiteral : Operand → Except BuildError Expr
  | .expr e => .error (.notAnOperand (.expr e))
  | other => lift other

mutual

/-- The expressions of a collection nested to any depth, from left to right. A
single expression or literal is a collection of one. -/
def collect : Operand → Except BuildError (List Expr)
  | .expr e => .ok [e]
  | .bool b => do return [← literal (.bool b)]
  | .int n => do return [← literal (.int n)]
  | .text s => .error (.textGiven s)
  | .list items => collectAll items
  | .tuple items => collectAll items
  | .record [] => .ok []
  | .record ((key, _) :: _) => .error (.textGiven key)
  | .real x => .error (.notACollection (.real x))
  | .absent => .error (.notACollection .absent)

/-- The expressions of several collections. -/
def collectAll : List Operand → Except BuildError (List Expr)
  | [] => .ok []
  | item :: items => do
    let first ← collect item
    let rest ← collectAll items
    return first ++ rest

end

/-- The name derived for a compound expression: the operator's tag and the
names of the children, sorted where the order does not matter. -/
def derivedName (op : Op) (children : List Expr) : String :=
  let names := children.map name
  let names := if op.isCommutative then names.mergeSort (fun a b => decide (a ≤ b)) else names
  op.tag ++ "_" ++ "_".intercalate names

/-- An operand of a known sort other than the expected one is refused. -/
def checkSort (op : Op) (expected : SmtSort) (operand : Expr) : Except BuildError Unit :=
  match operand.resultSort with
  | none => .ok ()
  | some actual =>
    if actual == expected then .ok () else .error (.operandSort op expected operand.name actual)

/-- The sort of a choice: the known sort of its branches, which must not
differ. -/
def branchSort (thenBranch elseBranch : Expr) : Except BuildError (Option SmtSort) :=
  match thenBranch.resultSort, elseBranch.resultSort with
  | some s, some t =>
    if s == t then .ok (some s)
    else .error (.branchSorts thenBranch.name s elseBranch.name t)
  | some s, none => .ok (some s)
  | none, t => .ok t

/-- The checks on the sorts of the operands; the result is the sort to record
at the node, which is known only for a choice. -/
def checkSorts (op : Op) (operands : List Expr) : Except BuildError (Option SmtSort) :=
  match op.operandSort? with
  | some expected => do
    operands.forM (checkSort op expected)
    return none
  | none =>
    match operands with
    | [condition, thenBranch, elseBranch] => do
      checkSort op .bool condition
      branchSort thenBranch elseBranch
    | _ => .ok none

/-- The children of a node with the given operands: operands with the same
flattening operator give way to their own children. -/
def flatten (op : Op) (operands : List Expr) : List Expr :=
  if op.isFlattening then
    operands.flatMap fun e => if e.op == op then e.children else [e]
  else operands

/-- An operator node over expressions. -/
def combineExprs (op : Op) (operands : List Expr) : Except BuildError Expr := do
  unless op.accepts operands.length do
    throw (.operandCount op operands.length)
  let sort ← checkSorts op operands
  let children := flatten op operands
  return node ⟨op, derivedName op children, sort, none, none⟩ children

/-- An operator node over expressions and literals. -/
def combine (op : Op) (operands : List Operand) : Except BuildError Expr :=
  if op.isLeaf then .error (.leafOperator op)
  else do combineExprs op (← operands.mapM lift)

/-- An operator node over the members of a collection. -/
def combineMembers (op : Op) (collection : Operand) : Except BuildError Expr :=
  if op.isLeaf then .error (.leafOperator op)
  else
    match collection.members? with
    | some operands => combine op operands
    | none => .error (.notACollection collection)

/-- A constant has the sort of its value. -/
@[simp] theorem resultSort_constant (v : Value) : (constant v).resultSort = some v.sort := by
  cases v <;> rfl

/-- A value makes a constant exactly when it can be written. -/
theorem literal_eq_ok_iff {v : Value} {e : Expr} :
    literal v = .ok e ↔ v.isWritable = true ∧ e = constant v := by
  unfold literal
  cases v.isWritable with
  | true => simp [eq_comm]
  | false => simp

/-- What can be lifted is an expression, or a literal that can be written. -/
theorem lift_eq_ok_iff {operand : Operand} {e : Expr} :
    lift operand = .ok e ↔ operand = .expr e ∨
      ∃ v : Value, operand = .ofValue v ∧ v.isWritable = true ∧ e = constant v := by
  constructor
  · intro lifted
    cases operand with
    | expr c => cases lifted; exact .inl rfl
    | bool b => exact .inr ⟨.bool b, rfl, literal_eq_ok_iff.1 lifted⟩
    | int n => exact .inr ⟨.int n, rfl, literal_eq_ok_iff.1 lifted⟩
    | _ => cases lifted
  · rintro (rfl | ⟨v, rfl, made⟩)
    · rfl
    · cases v <;> exact literal_eq_ok_iff.2 made

theorem ofLiteral_eq_ok_iff {operand : Operand} {e : Expr} :
    ofLiteral operand = .ok e ↔
      ∃ v : Value, operand = .ofValue v ∧ v.isWritable = true ∧ e = constant v := by
  cases operand with
  | expr c =>
    refine ⟨nofun, ?_⟩
    rintro ⟨_ | _, same, -⟩ <;> cases same
  | _ => simp [ofLiteral, lift_eq_ok_iff]

@[simp] theorem resultSort_var (name : String) (sort : Option SmtSort) :
    (var name sort).resultSort = sort := rfl

end SmtDialogue.Expr
