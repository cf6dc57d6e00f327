import SmtDialogue.Expr.Value

/-!
# Operators

The operators of expressions, with everything that is fixed for each of them:
its tag, how many operands it takes, of which sort they are and of which sort
the result is, whether their order matters, and whether an operand with the
same operator is merged into the node.
-/

namespace SmtDialogue

/-- The operator of a node. -/
inductive Op where
  /-- A variable. -/
  | identity
  /-- A constant. -/
  | const
  /-- Negation. -/
  | not
  /-- Conjunction of any number of operands. -/
  | and
  /-- Disjunction of any number of operands. -/
  | or
  /-- Whether an odd number of operands hold. -/
  | xor
  /-- Equivalence. -/
  | iff
  /-- Implication. -/
  | implies
  /-- Choice between two branches by a condition. -/
  | ite
  /-- Equality of integers. -/
  | eq
  /-- Inequality of integers. -/
  | ne
  /-- At most. -/
  | le
  /-- Less than. -/
  | lt
  /-- At least. -/
  | ge
  /-- Greater than. -/
  | gt
  /-- Sum of any number of operands. -/
  | add
  /-- The first operand less all the others. -/
  | sub
deriving DecidableEq, Repr

namespace Op

/-- The tag of an operator, as derived names and messages write it. -/
def tag : Op → String
  | identity => "identity"
  | const => "const"
  | not => "not"
  | and => "and"
  | or => "or"
  | xor => "xor"
  | iff => "iff"
  | implies => "implies"
  | ite => "ite"
  | eq => "eq"
  | ne => "ne"
  | le => "le"
  | lt => "lt"
  | ge => "ge"
  | gt => "gt"
  | add => "add"
  | sub => "sub"

/-- All operators. -/
def all : List Op :=
  [identity, const, not, and, or, xor, iff, implies, ite, eq, ne, le, lt, ge, gt, add, sub]

/-- The operator with the given tag. -/
def ofTag? (s : String) : Option Op :=
  all.find? fun op => op.tag == s

/-- Variables and constants: the operators without operands. -/
def isLeaf (op : Op) : Bool :=
  op matches identity | const

/-- From truth values to a truth value. -/
def isLogic (op : Op) : Bool :=
  op matches not | and | or | xor | iff | implies

/-- From two integers to a truth value. -/
def isComparison (op : Op) : Bool :=
  op matches eq | ne | le | lt | ge | gt

/-- From integers to an integer. -/
def isArithmetic (op : Op) : Bool :=
  op matches add | sub

/-- The order of the operands does not matter, and derived names sort them. -/
def isCommutative (op : Op) : Bool :=
  op matches and | or | xor | iff | eq | ne | add

/-- An operand with the same operator is replaced by its own operands. -/
def isFlattening (op : Op) : Bool :=
  op matches and | or | xor | add

/-- The least and the greatest number of operands; none where there is no
greatest. -/
def arity : Op → Nat × Option Nat
  | identity | const => (0, some 0)
  | not => (1, some 1)
  | and | or | xor | add => (1, none)
  | sub => (2, none)
  | iff | implies | eq | ne | le | lt | ge | gt => (2, some 2)
  | ite => (3, some 3)

/-- Whether an operator takes that many operands. -/
def accepts (op : Op) (n : Nat) : Bool :=
  op.arity.1 ≤ n && op.arity.2.all (n ≤ ·)

/-- The sort that an operator asks of its operands; a choice asks no single
one, and leaves have none. -/
def operandSort? (op : Op) : Option SmtSort :=
  if op.isLogic then some .bool
  else if op.isComparison || op.isArithmetic then some .int
  else none

/-- The sort of the result, for the operators that fix it. -/
def resultSort? (op : Op) : Option SmtSort :=
  if op.isLogic || op.isComparison then some .bool
  else if op.isArithmetic then some .int
  else none

/-- Tags tell operators apart. -/
theorem ofTag?_tag (op : Op) : ofTag? op.tag = some op := by cases op <;> decide

/-- An operator takes the numbers of operands between its two bounds. -/
theorem accepts_iff {op : Op} {n : Nat} :
    op.accepts n = true ↔ op.arity.1 ≤ n ∧ ∀ hi ∈ op.arity.2, n ≤ hi := by
  rw [accepts, Bool.and_eq_true, decide_eq_true_iff, Option.all_eq_true]
  simp only [decide_eq_true_iff, Option.mem_def]

/-- Whatever is no variable and no literal is a compound node. -/
theorem isLeaf_eq_false_iff {op : Op} : op.isLeaf = false ↔ op ≠ .identity ∧ op ≠ .const := by
  cases op <;> decide

/-- Whatever asks a sort of its operands is a compound node. -/
theorem isLeaf_of_operandSort? {op : Op} {operand : SmtSort}
    (takes : op.operandSort? = some operand) : op.isLeaf = false := by
  cases op <;> first | rfl | cases takes

/-- Every operator that flattens is commutative. -/
theorem isCommutative_of_isFlattening {op : Op} (h : op.isFlattening = true) :
    op.isCommutative = true := by
  revert h
  cases op <;> decide

end Op

end SmtDialogue
