import Mathlib.Data.List.Forall2
import SmtDialogue.Proofs.Table
import SmtDialogue.Smt.Term

/-!
# The standard meaning of terms

What a solver understands by a term. The operators are those of the two
theories of truth values and of integers; each is a partial function on values,
since a value of the wrong sort has no place in it. Conjunction, disjunction,
exclusive disjunction, sum and difference associate to the left over two or
more operands, a difference of one operand is its negation, and the others have
a fixed number of operands. Equality and distinctness compare two values of one
sort, whichever it is.

Nothing here refers to expressions, so that the meaning of what is written can
be compared with the value of what was meant.
-/

namespace SmtDialogue

/-- Values for all variables, by name. -/
abbrev Valuation := String → Value

/-- Whether every variable of a table has a value of its sort. -/
def SortTable.Fits (t : SortTable) (ρ : Valuation) : Prop :=
  ∀ name sort, t.sortOf? name = some sort → (ρ name).sort = sort

theorem SortTable.Fits.of_within {t u : SortTable} {ρ : Valuation} (h : u.Fits ρ)
    (within : t.Within u) : t.Fits ρ := fun name sort found => h name sort (within name sort found)

namespace Value

/-- The truth value that a value is. -/
def bool? : Value → Option Bool
  | bool b => some b
  | int _ => none

/-- The integer that a value is. -/
def int? : Value → Option Int
  | bool _ => none
  | int n => some n

/-- A value of the sort of truth values is one. -/
theorem exists_of_sort_bool {v : Value} (h : v.sort = .bool) : ∃ b, v = bool b := by
  cases v with
  | bool b => exact ⟨b, rfl⟩
  | int n => cases h

/-- A value of the sort of integers is one. -/
theorem exists_of_sort_int {v : Value} (h : v.sort = .int) : ∃ n, v = int n := by
  cases v with
  | bool b => cases h
  | int n => exact ⟨n, rfl⟩

/-- Values of the sort of truth values are a row of truth values. -/
theorem exists_map_bool {vs : List Value} (h : ∀ v ∈ vs, v.sort = .bool) :
    ∃ bs : List Bool, vs = bs.map bool := by
  induction vs with
  | nil => exact ⟨[], rfl⟩
  | cons v vs ih =>
    obtain ⟨b, rfl⟩ := exists_of_sort_bool (h v List.mem_cons_self)
    obtain ⟨bs, rfl⟩ := ih fun w hw => h w (List.mem_cons_of_mem _ hw)
    exact ⟨b :: bs, rfl⟩

/-- Values of the sort of integers are a row of integers. -/
theorem exists_map_int {vs : List Value} (h : ∀ v ∈ vs, v.sort = .int) :
    ∃ ns : List Int, vs = ns.map int := by
  induction vs with
  | nil => exact ⟨[], rfl⟩
  | cons v vs ih =>
    obtain ⟨n, rfl⟩ := exists_of_sort_int (h v List.mem_cons_self)
    obtain ⟨ns, rfl⟩ := ih fun w hw => h w (List.mem_cons_of_mem _ hw)
    exact ⟨n :: ns, rfl⟩

end Value

namespace Smt

/-- A function of two operands on two or more, from the left. -/
def leftAssoc {α : Type} (f : α → α → α) : List α → Option α
  | a :: b :: rest => some (rest.foldl f (f a b))
  | _ => none

/-- An operator of truth values, from the left. -/
def onBools (f : Bool → Bool → Bool) (args : List Value) : Option Value :=
  (args.mapM Value.bool? >>= leftAssoc f).map .bool

/-- An operator of integers, from the left. -/
def onInts (f : Int → Int → Int) (args : List Value) : Option Value :=
  (args.mapM Value.int? >>= leftAssoc f).map .int

/-- A comparison of two integers. -/
def onPair (f : Int → Int → Bool) : List Value → Option Value
  | [.int a, .int b] => some (.bool (f a b))
  | _ => none

/-- A comparison of two values of one sort. -/
def onSameSort (f : Value → Value → Bool) : List Value → Option Value
  | [a, b] => if a.sort = b.sort then some (.bool (f a b)) else none
  | _ => none

/-- **The standard meaning of an operator** by its symbol. -/
def meaning : String → List Value → Option Value
  | "not", [.bool a] => some (.bool (!a))
  | "and", args => onBools (· && ·) args
  | "or", args => onBools (· || ·) args
  | "xor", args => onBools (· != ·) args
  | "=>", [.bool a, .bool b] => some (.bool (!a || b))
  | "ite", [.bool c, a, b] => if a.sort = b.sort then some (if c then a else b) else none
  | "=", args => onSameSort (· == ·) args
  | "distinct", args => onSameSort (· != ·) args
  | "<=", args => onPair (· ≤ ·) args
  | "<", args => onPair (· < ·) args
  | ">=", args => onPair (· ≥ ·) args
  | ">", args => onPair (· > ·) args
  | "-", [.int a] => some (.int (-a))
  | "+", args => onInts (· + ·) args
  | "-", args => onInts (· - ·) args
  | _, _ => none

/-- Operands of one sort, of which there must be at least two. -/
def rankMany (sort : SmtSort) (args : List SmtSort) : Option SmtSort :=
  if 2 ≤ args.length ∧ ∀ a ∈ args, a = sort then some sort else none

/-- **The sort of an application** by the operator's symbol and the sorts of the
operands. -/
def rank : String → List SmtSort → Option SmtSort
  | "not", [.bool] => some .bool
  | "and", args | "or", args | "xor", args => rankMany .bool args
  | "=>", [.bool, .bool] => some .bool
  | "ite", [.bool, s, t] => if s = t then some s else none
  | "=", [s, t] | "distinct", [s, t] => if s = t then some .bool else none
  | "<=", [.int, .int] | "<", [.int, .int] | ">=", [.int, .int] | ">", [.int, .int] => some .bool
  | "-", [.int] => some .int
  | "+", args | "-", args => rankMany .int args
  | _, _ => none

namespace Term

mutual

/-- **The value of a term** under values for its variables. -/
def eval (ρ : Valuation) : Term → Option Value
  | symbol name => some (ρ name)
  | literal value => some value
  | app head args => evalAll ρ args >>= meaning head

/-- The values of several terms. -/
def evalAll (ρ : Valuation) : List Term → Option (List Value)
  | [] => some []
  | t :: ts => do
    let v ← t.eval ρ
    let vs ← evalAll ρ ts
    return v :: vs

end

mutual

/-- **The sort of a term** over a table; none when it is not well-sorted. -/
def sort? (table : SortTable) : Term → Option SmtSort
  | symbol name => table.sortOf? name
  | literal value => some value.sort
  | app head args => sortAll? table args >>= rank head

/-- The sorts of several terms. -/
def sortAll? (table : SortTable) : List Term → Option (List SmtSort)
  | [] => some []
  | t :: ts => do
    let s ← t.sort? table
    let ss ← sortAll? table ts
    return s :: ss

end

@[simp] theorem eval_symbol (ρ : Valuation) (name : String) :
    (symbol name).eval ρ = some (ρ name) := by rw [eval]

@[simp] theorem eval_literal (ρ : Valuation) (v : Value) : (literal v).eval ρ = some v := by
  rw [eval]

theorem eval_app (ρ : Valuation) (head : String) (args : List Term) :
    (app head args).eval ρ = evalAll ρ args >>= meaning head := by rw [eval]

theorem sort?_app (table : SortTable) (head : String) (args : List Term) :
    (app head args).sort? table = sortAll? table args >>= rank head := by rw [sort?]

/-- The values of several terms are known when each one's is. -/
theorem evalAll_eq_some_iff {ρ : Valuation} {ts : List Term} {vs : List Value} :
    evalAll ρ ts = some vs ↔ List.Forall₂ (fun t v => t.eval ρ = some v) ts vs := by
  induction ts generalizing vs with
  | nil => simp [evalAll, eq_comm]
  | cons t ts ih =>
    rw [evalAll, List.forall₂_cons_left_iff]
    simp only [bind, Option.bind_eq_some_iff, pure, Option.some.injEq, ih]
    exact ⟨fun ⟨v, hv, vs, hvs, made⟩ => ⟨v, vs, hv, hvs, made.symm⟩,
      fun ⟨v, vs, hv, hvs, made⟩ => ⟨v, hv, vs, hvs, made.symm⟩⟩

/-- The sorts of several terms are known when each one's is. -/
theorem sortAll?_eq_some_iff {table : SortTable} {ts : List Term} {ss : List SmtSort} :
    sortAll? table ts = some ss ↔ List.Forall₂ (fun t s => t.sort? table = some s) ts ss := by
  induction ts generalizing ss with
  | nil => simp [sortAll?, eq_comm]
  | cons t ts ih =>
    rw [sortAll?, List.forall₂_cons_left_iff]
    simp only [bind, Option.bind_eq_some_iff, pure, Option.some.injEq, ih]
    exact ⟨fun ⟨s, hs, ss, hss, made⟩ => ⟨s, ss, hs, hss, made.symm⟩,
      fun ⟨s, ss, hs, hss, made⟩ => ⟨s, hs, ss, hss, made.symm⟩⟩

end Term

end Smt

end SmtDialogue
