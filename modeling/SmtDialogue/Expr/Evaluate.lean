import SmtDialogue.ErrorKind
import SmtDialogue.Expr.Basic

/-!
# Evaluation

The value of an expression is computed from the values of its leaves. A leaf
without a value makes the result unknown, unless the other operands decide it:
one false conjunct decides a conjunction, one true disjunct a disjunction, and a
choice between two equal values needs no condition. Everything else needs all
its operands.

Values are not checked against sorts. Conjunction, disjunction and implication
look for truth values only and see nothing in a number; the other operators
take a number as a condition, or a truth value as a number, as needed.

A node need not have as many children as its operator asks. Where the rule of an
operator does not extend to such a node, there is no value, not even an unknown
one, and evaluation ends in an error: at once for implication and choice, and
for the operators that need all their operands as soon as these are known.
-/

namespace SmtDialogue

/-- A cause for an expression to have no value, known or unknown. -/
inductive EvaluationError where
  /-- An operator applied to a number of operands for which it has no rule. -/
  | operandCount (op : Op) (given : Nat)
deriving DecidableEq, Repr

namespace EvaluationError

/-- The kind of each cause. Implication and choice refuse a row of values of the
wrong length, all others a call with the wrong number of arguments. -/
def kind : EvaluationError → ErrorKind
  | operandCount .implies _ | operandCount .ite _ => .wrongValue
  | operandCount _ _ => .wrongType

/-- The wording of each cause. -/
def message : EvaluationError → String
  | operandCount op given => s!"Operator '{op.tag}' has no value on {given} operands"

end EvaluationError

namespace Value

/-- Conjunction: false as soon as one operand is, true when all are. -/
def conj (vs : List (Option Value)) : Option Value :=
  if vs.any (· == some (bool false)) then some (bool false)
  else if vs.all (· == some (bool true)) then some (bool true)
  else none

/-- Disjunction: true as soon as one operand is, false when all are. -/
def disj (vs : List (Option Value)) : Option Value :=
  if vs.any (· == some (bool true)) then some (bool true)
  else if vs.all (· == some (bool false)) then some (bool false)
  else none

/-- Implication: true when the premise is false or the conclusion true, false
when both fail to be so. -/
def implies (a b : Option Value) : Option Value :=
  if a == some (bool false) || b == some (bool true) then some (bool true)
  else if a == some (bool true) && b == some (bool false) then some (bool false)
  else none

/-- Whether two values are the same number. -/
def sameNumber (a b : Value) : Bool :=
  a.toInt == b.toInt

/-- The branch that the condition chooses. Without a condition two branches
of one number still have a result. -/
def choose (condition thenValue elseValue : Option Value) : Option Value :=
  match condition with
  | some c => if c.holds then thenValue else elseValue
  | none =>
    match thenValue, elseValue with
    | some a, some b => if a.sameNumber b then some a else none
    | _, _ => none

/-- The sum of some values. -/
def sum (vs : List Value) : Int :=
  vs.foldl (fun acc v => acc + v.toInt) 0

/-- An operator that needs all its operands, applied to their values. -/
def strict : Op → List Value → Except EvaluationError Value
  | .not, [a] => .ok (bool (!a.holds))
  | .xor, vs => .ok (bool (vs.countP holds % 2 == 1))
  | .iff, [a, b] => .ok (bool (a.holds == b.holds))
  | .eq, [a, b] => .ok (bool (a.sameNumber b))
  | .ne, [a, b] => .ok (bool (!a.sameNumber b))
  | .le, [a, b] => .ok (bool (a.toInt ≤ b.toInt))
  | .lt, [a, b] => .ok (bool (a.toInt < b.toInt))
  | .ge, [a, b] => .ok (bool (b.toInt ≤ a.toInt))
  | .gt, [a, b] => .ok (bool (b.toInt < a.toInt))
  | .add, vs => .ok (int (sum vs))
  | .sub, a :: rest => .ok (int (a.toInt - sum rest))
  | op, vs => .error (.operandCount op vs.length)

/-- The values of some operands, when all are known. -/
def known? : List (Option Value) → Option (List Value)
  | [] => some []
  | none :: _ => none
  | some v :: vs => (known? vs).map (v :: ·)

/-- An operator applied to the values of its operands. -/
def apply (op : Op) (vs : List (Option Value)) : Except EvaluationError (Option Value) :=
  match op, vs with
  | .and, vs => .ok (conj vs)
  | .or, vs => .ok (disj vs)
  | .implies, [a, b] => .ok (implies a b)
  | .ite, [c, a, b] => .ok (choose c a b)
  | .implies, vs => .error (.operandCount .implies vs.length)
  | .ite, vs => .error (.operandCount .ite vs.length)
  | op, vs =>
    match known? vs with
    | none => .ok none
    | some vs => (strict op vs).map some

/-- The known values are as many as the operands. -/
theorem length_of_known? {vs : List (Option Value)} {ws : List Value} (h : known? vs = some ws) :
    ws.length = vs.length := by
  induction vs generalizing ws with
  | nil => cases h; rfl
  | cons v vs ih =>
    cases v with
    | none => cases h
    | some v =>
      obtain ⟨us, hus, rfl⟩ := Option.map_eq_some_iff.1 h
      simp [ih hus]

/-- An operator that needs all its operands has a value on as many as it
takes. -/
theorem exists_strict_of_accepts {op : Op} {vs : List Value} (h : op.accepts vs.length = true)
    (leaf : op.isLeaf = false) (strictly : op ≠ .and ∧ op ≠ .or ∧ op ≠ .implies ∧ op ≠ .ite) :
    ∃ v, strict op vs = .ok v := by
  match vs with
  | [] | [_] | [_, _] | _ :: _ :: _ :: _ =>
    cases op <;> simp_all [strict, Op.accepts, Op.arity, Op.isLeaf]

/-- **An operator has a value, known or unknown, on as many operands as it
takes.** -/
theorem exists_apply_of_accepts {op : Op} {vs : List (Option Value)}
    (h : op.accepts vs.length = true) (leaf : op.isLeaf = false) : ∃ v, apply op vs = .ok v := by
  fun_cases apply op vs with
  | case5 vs wrong =>
    obtain ⟨lo, hi⟩ := Op.accepts_iff.1 h
    have two : vs.length = 2 := Nat.le_antisymm (hi 2 rfl) lo
    match vs, two with
    | [a, b], _ => exact absurd rfl (wrong a b)
  | case6 vs wrong =>
    obtain ⟨lo, hi⟩ := Op.accepts_iff.1 h
    have three : vs.length = 3 := Nat.le_antisymm (hi 3 rfl) lo
    match vs, three with
    | [c, a, b], _ => exact absurd rfl (wrong c a b)
  | case8 op vs _ _ _ _ _ _ ws hws =>
    rw [← length_of_known? hws] at h
    obtain ⟨v, hv⟩ := exists_strict_of_accepts h leaf (by simp_all)
    exact ⟨some v, by rw [hv]; rfl⟩
  | _ => exact ⟨_, rfl⟩

end Value

namespace Expr

mutual

/-- The value of an expression, computed from its leaves; what compound nodes
have stored plays no part. The operands of a node are evaluated from left to
right, and the first error is the result. -/
def evaluate : Expr → Except EvaluationError (Option Value)
  | node l cs =>
    if l.op.isLeaf then .ok l.value
    else do Value.apply l.op (← evaluateAll cs)

/-- The values of several expressions. -/
def evaluateAll : List Expr → Except EvaluationError (List (Option Value))
  | [] => .ok []
  | e :: es => do
    let v ← e.evaluate
    let vs ← evaluateAll es
    return v :: vs

end

@[simp] theorem evaluateAll_eq_mapM (es : List Expr) : evaluateAll es = es.mapM evaluate := by
  induction es with
  | nil => rfl
  | cons e es ih => rw [List.mapM_cons, ← ih]; rfl

theorem evaluate_node (l : Label) (cs : List Expr) :
    (node l cs).evaluate =
      if l.op.isLeaf then .ok l.value else cs.mapM evaluate >>= Value.apply l.op := by
  simp [evaluate]

/-! ## Storing values -/

/-- Values for variables, by name. -/
abbrev Assignment := List (String × Option Value)

/-- A value to be stored in a cell. -/
structure Write where
  /-- The cell. -/
  cell : Nat
  /-- The value, or none to remove the one that is stored. -/
  value : Option Value
deriving DecidableEq, Repr

/-- Storing a value at a node; a node without a cell stores nothing. -/
def writeTo (l : Label) (v : Option Value) : List Write :=
  match l.cell with
  | some cell => [⟨cell, v⟩]
  | none => []

mutual

/-- The value that an expression gets by an assignment, with all that is stored
on the way: the given values at the variables that the assignment names, and its
value at every compound node, after those of its children. What lies below a
leaf is not visited, and what is stored before an error remains. -/
def assign (m : Assignment) : Expr → List Write × Except EvaluationError (Option Value)
  | node l cs =>
    if l.op == .identity then
      match m.lookup l.name with
      | some v => (writeTo l v, .ok v)
      | none => ([], .ok l.value)
    else if l.op == .const then ([], .ok l.value)
    else
      let (writes, operands) := assignAll m cs
      match operands >>= Value.apply l.op with
      | .ok v => (writes ++ writeTo l v, .ok v)
      | .error e => (writes, .error e)

/-- The same for several expressions, from left to right up to the first
error. -/
def assignAll (m : Assignment) :
    List Expr → List Write × Except EvaluationError (List (Option Value))
  | [] => ([], .ok [])
  | e :: es =>
    match e.assign m with
    | (writes, .error cause) => (writes, .error cause)
    | (writes, .ok v) =>
      let (more, rest) := assignAll m es
      (writes ++ more, rest.map (v :: ·))

end

/-- Removing every value from an expression but those of constants. -/
def clear (e : Expr) : List Write :=
  e.nodes.flatMap fun n => if n.op == .const then [] else writeTo n.label none

/-- A step for every member, where two steps agree on each. -/
theorem mapM_congr {α β ε : Type} {f g : α → Except ε β} {xs : List α}
    (same : ∀ x ∈ xs, f x = g x) : xs.mapM f = xs.mapM g := by
  induction xs with
  | nil => rfl
  | cons x xs ih =>
    rw [List.mapM_cons, List.mapM_cons, same x List.mem_cons_self,
      ih fun y hy => same y (List.mem_cons_of_mem _ hy)]

/-- Assigning to several expressions is assigning to each of them up to the first
error. -/
theorem snd_assignAll (m : Assignment) (es : List Expr) :
    (assignAll m es).2 = es.mapM fun e => (e.assign m).2 := by
  induction es with
  | nil => rfl
  | cons e es ih =>
    rw [List.mapM_cons, ← ih, assignAll]
    rcases e.assign m with ⟨writes, _ | v⟩
    · rfl
    · rcases assignAll m es with ⟨more, _ | vs⟩ <;> rfl

end Expr

end SmtDialogue
