import SmtDialogue.ErrorKind
import SmtDialogue.Expr.Operand

/-!
# Errors of construction

Why an expression cannot be built, or a use of one is refused. Each cause keeps
what its message needs; the wording is in one place, `BuildError.message`. A message
that shows an operand exists only for an operand that can be written
(`BuildError.showing`).
-/

namespace SmtDialogue

/-- A cause for refusing a construction. -/
inductive BuildError where
  /-- An operand that is neither an expression nor a literal. -/
  | notAnOperand (given : Operand)
  /-- A text where expressions are expected. -/
  | textGiven (text : String)
  /-- Something that has no members where a collection is expected. -/
  | notACollection (given : Operand)
  /-- An operand that is neither an expression nor a whole number or truth value
  where a complement is taken. -/
  | notComplementable (given : Operand)
  /-- An operand whose known sort is not the one that the operator asks. -/
  | operandSort (op : Op) (expected : SmtSort) (name : String) (actual : SmtSort)
  /-- Two branches of a choice whose known sorts differ. -/
  | branchSorts (thenName : String) (thenSort : SmtSort) (elseName : String) (elseSort : SmtSort)
  /-- A leaf operator given operands. -/
  | leafOperator (op : Op)
  /-- A number of operands that the operator does not take. -/
  | operandCount (op : Op) (given : Nat)
  /-- Fewer than two terms to be pairwise different. -/
  | tooFewDistinct (given : Nat)
  /-- Collections whose lengths cannot be matched. -/
  | lengthsDiffer (given longest : Nat)
  /-- An elementwise application to no argument at all. -/
  | nothingToBroadcast
  /-- A call with a number of arguments that the constructor does not have. -/
  | argumentCount
  /-- A variable constructor without a name. -/
  | nameMissing (constructor : String)
  /-- An array dimension that is no natural number. -/
  | dimension (given : Operand)
  /-- A variable name that is no non-empty text. -/
  | invalidName (given : Operand)
  /-- A name registered before, where that is forbidden. -/
  | duplicateName (name : String)
  /-- A structural comparison of an expression with a literal. -/
  | literalComparison (name : String) (literal : Operand)
  /-- An expression used as a condition. -/
  | truthValue (name : String)
  /-- A literal or collection used where only an expression has the part. -/
  | notAnExpression
  /-- A literal or collection given as the registry of a variable. -/
  | notARegistry (given : Operand)
  /-- A stored value with too many digits to be written. -/
  | valueTooLong
  /-- A tag that no operator has. -/
  | unknownOperator (tag : String)
  /-- A name that no sort has. -/
  | unknownSort (name : String)
deriving Repr

namespace BuildError

/-- The kind of each cause. -/
def kind : BuildError → ErrorKind
  | notAnOperand _ | textGiven _ | operandSort .. | branchSorts .. | invalidName _
  | literalComparison .. | truthValue _ => .typeMismatch
  | leafOperator _ | operandCount .. | tooFewDistinct _ | lengthsDiffer .. | nameMissing _
  | dimension _ => .arityMismatch
  | duplicateName _ => .duplicateName
  | notACollection _ | notComplementable _ | argumentCount => .wrongType
  | nothingToBroadcast | valueTooLong | unknownOperator _ | unknownSort _ => .wrongValue
  | notAnExpression | notARegistry _ => .missingPart

/-- How many operands an operator takes, in words. -/
def arityText (op : Op) : String :=
  match op.arity with
  | (lo, none) => s!"at least {lo}"
  | (lo, some hi) => if lo == hi then s!"exactly {lo}" else s!"{lo} to {hi}"

/-- The wording of each cause. -/
def message : BuildError → String
  | notAnOperand given =>
    s!"Cannot use {given.kindName} value {given.display} in an expression"
  | textGiven text => "Expected expressions, got string " ++ Text.quoted text
  | notACollection given => s!"{given.kindName} value is no collection"
  | notComplementable given => s!"{given.kindName} value has no complement"
  | operandSort op expected name actual =>
    s!"Operator '{op.tag}' expects {expected.name} operands, but '{name}' is {actual.name}"
  | branchSorts thenName thenSort elseName elseSort =>
    s!"Branches of 'ite' disagree: '{thenName}' is {thenSort.name}, '{elseName}' is {elseSort.name}"
  | leafOperator op => s!"Operator '{op.tag}' is a leaf and takes no children"
  | operandCount op given =>
    s!"Operator '{op.tag}' expects {arityText op} children, got {given}"
  | tooFewDistinct given => s!"distinct expects at least 2 terms, got {given}"
  | lengthsDiffer given longest =>
    s!"Cannot broadcast operands of length {given} and {longest}"
  | nothingToBroadcast => "No operands to broadcast"
  | argumentCount => "Wrong number of arguments"
  | nameMissing constructor => s!"{constructor}() requires a name"
  | dimension given =>
    s!"Array dimension must be a non-negative integer, got {given.display}"
  | invalidName given =>
    s!"Variable name must be a non-empty string, got {given.display}"
  | duplicateName name => s!"Duplicate variable name {name}"
  | literalComparison name literal =>
    s!"'{name} == {literal.display}' compares structure and cannot build a constraint; " ++
      "use .eq() or .ne()"
  | truthValue name =>
    s!"Expression '{name}' has no truth value; combine expressions with and_/or_ " ++
      "instead of Python 'and'/'or' or chained comparisons"
  | notAnExpression => "Not an expression"
  | notARegistry given => s!"{given.kindName} value is no registry"
  | valueTooLong => s!"A value has more than {Text.longestNumeral} digits"
  | unknownOperator tag => s!"No operator has the tag '{tag}'"
  | unknownSort name => s!"No sort has the name '{name}'"

/-- The error of a cause whose message shows an operand: an operand that cannot
be written has no such message, and this is the error then. -/
def showing (given : Operand) (cause : BuildError) : BuildError :=
  if given.isDisplayable then cause else .valueTooLong

end BuildError

/-- The operator with the given tag. -/
def Op.ofTag (tag : String) : Except BuildError Op :=
  match ofTag? tag with
  | some op => .ok op
  | none => .error (.unknownOperator tag)

/-- The sort with the given name. -/
def SmtSort.ofName (name : String) : Except BuildError SmtSort :=
  match [SmtSort.bool, .int].find? fun sort => sort.name == name with
  | some sort => .ok sort
  | none => .error (.unknownSort name)

/-- Every operator is read back from its tag. -/
@[simp] theorem Op.ofTag_tag (op : Op) : ofTag op.tag = .ok op := by
  simp [ofTag, ofTag?_tag]

/-- Every sort is read back from its name. -/
@[simp] theorem SmtSort.ofName_name (sort : SmtSort) : ofName sort.name = .ok sort := by
  cases sort <;> rfl

end SmtDialogue
