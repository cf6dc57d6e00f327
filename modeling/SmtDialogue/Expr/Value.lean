import SmtDialogue.Text.Digit

/-!
# Sorts and values

Terms have one of two sorts, and values are truth values or integers of any
size. A truth value can be taken as a number and a number as a condition, as in
evaluation, but the two are never the same value.
-/

namespace SmtDialogue

/-- The sort of a term. -/
inductive SmtSort where
  /-- Truth values. -/
  | bool
  /-- Unbounded integers. -/
  | int
deriving DecidableEq, Repr

/-- The name of a sort. -/
def SmtSort.name : SmtSort → String
  | bool => "Bool"
  | int => "Int"

/-- A value of an expression. -/
inductive Value where
  /-- A truth value. -/
  | bool (b : Bool)
  /-- An integer. -/
  | int (n : Int)
deriving DecidableEq, Repr

namespace Value

/-- The sort of a value. -/
def sort : Value → SmtSort
  | bool _ => .bool
  | int _ => .int

/-- The value as a number: true counts as one. -/
def toInt : Value → Int
  | bool b => if b then 1 else 0
  | int n => n

/-- The value as a condition: every number but zero holds. -/
def holds (v : Value) : Bool :=
  v.toInt != 0

/-- Whether the value is short enough to be written: an integer has no more digits
than can be read. -/
def isWritable : Value → Bool
  | bool _ => true
  | int n => n.natAbs.repr.length ≤ Text.longestNumeral

/-- The value as text. -/
def text : Value → String
  | bool b => if b then "True" else "False"
  | int n => toString n

@[simp] theorem holds_bool (b : Bool) : (bool b).holds = b := by cases b <;> rfl

@[simp] theorem holds_int (n : Int) : (int n).holds = (n != 0) := rfl

theorem isWritable_int_iff {n : Int} :
    (int n).isWritable = true ↔ n.natAbs.repr.length ≤ Text.longestNumeral :=
  decide_eq_true_iff

theorem isWritable_int_eq_false_iff {n : Int} :
    (int n).isWritable = false ↔ Text.longestNumeral < n.natAbs.repr.length := by
  rw [← Bool.not_eq_true, isWritable_int_iff, Nat.not_le]

end Value

end SmtDialogue
