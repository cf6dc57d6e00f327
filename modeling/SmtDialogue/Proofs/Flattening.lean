import SmtDialogue.Proofs.Rearrangement
import SmtDialogue.Proofs.Storing

/-!
# Flattening changes no value

An operand that has the operator of the new node gives way to its children, and
evaluation goes through the children of the node: what the operand itself would have
evaluated to plays no part any more. Still the node has the value that its operator
makes of the values of the operands as they were given (`Expr.evaluate_combine`).

The reason is that the four operators that flatten can be applied in parts. What one
of them makes of some values can stand for these among others, whatever they are:
unknown, of the other sort, or known and without effect (`Value.apply_append`).
-/

namespace SmtDialogue

namespace Value

/-! ## Operators applied in parts -/

/-- What a conjunction or a disjunction makes of some operands stands for these in
another one. -/
theorem decideBy_append {x y : Value} (different : x ≠ y) (us vs : List (Option Value)) :
    decideBy x y (us ++ vs) = decideBy x y (decideBy x y us :: vs) := by
  unfold decideBy
  rw [List.any_append, List.all_append, List.any_cons, List.all_cons]
  by_cases decided : us.any (· == some x) = true
  · simp [decided]
  by_cases all : us.all (· == some y) = true
  · simp [decided, all, different.symm]
  · simp [decided, all]

/-- Values are known when those of both parts are. -/
theorem known?_append (us vs : List (Option Value)) :
    known? (us ++ vs) = (known? us).bind fun xs => (known? vs).map (xs ++ ·) := by
  induction us with
  | nil => simp [known?]
  | cons u us ih =>
    cases u with
    | none => rfl
    | some x =>
      rw [List.cons_append, known?, known?, ih]
      cases known? us <;> cases known? vs <;> rfl

/-- A sum goes on from what has been added up before. -/
theorem foldl_toInt (vs : List Value) (n : Int) :
    vs.foldl (fun acc v => acc + v.toInt) n = n + sum vs := by
  induction vs generalizing n with
  | nil => exact (Int.add_zero n).symm
  | cons v vs ih => rw [sum, List.foldl_cons, List.foldl_cons, ih, ih, Int.zero_add, Int.add_assoc]

theorem sum_append (us vs : List Value) : sum (us ++ vs) = sum us + sum vs := by
  rw [sum, List.foldl_append, foldl_toInt]
  rfl

theorem sum_cons (v : Value) (vs : List Value) : sum (v :: vs) = v.toInt + sum vs := by
  rw [sum, List.foldl_cons, foldl_toInt, Int.zero_add]

/-- A flattening operator that needs all its operands has a value on any number of
them, which stands for these among others. -/
theorem strict_append {op : Op} (either : op = .xor ∨ op = .add) (us : List Value) :
    ∃ w, strict op us = .ok w ∧ ∀ vs, strict op (us ++ vs) = strict op (w :: vs) := by
  rcases either with rfl | rfl
  · refine ⟨_, rfl, fun vs => ?_⟩
    have parity (a b : Nat) :
        ((a + b) % 2 == 1) = ((b + if (a % 2 == 1) = true then 1 else 0) % 2 == 1) := by
      rcases Nat.mod_two_eq_zero_or_one a with h | h <;> simp [Nat.add_mod, h, Nat.add_comm]
    rw [strict, strict, List.countP_append, List.countP_cons, holds_bool, parity]
  · refine ⟨_, rfl, fun vs => ?_⟩
    rw [strict, strict, sum_append, sum_cons]
    rfl

/-- **What a flattening operator makes of some values stands for them** before any
others. -/
theorem apply_append {op : Op} (flattens : op.isFlattening = true) (us : List (Option Value)) :
    ∃ w, apply op us = .ok w ∧ ∀ vs, apply op (us ++ vs) = apply op (w :: vs) := by
  have strictly (either : op = .xor ∨ op = .add) :
      ∃ w, apply op us = .ok w ∧ ∀ vs, apply op (us ++ vs) = apply op (w :: vs) := by
    have needsAll : op ≠ .and ∧ op ≠ .or ∧ op ≠ .implies ∧ op ≠ .ite := by
      rcases either with rfl | rfl <;> decide
    simp only [apply_eq_strict needsAll, known?_append]
    cases known? us with
    | none => exact ⟨none, rfl, fun _ => rfl⟩
    | some xs =>
      obtain ⟨w, made, stands⟩ := strict_append either xs
      refine ⟨some w, by rw [Option.elim_some, made]; rfl, fun vs => ?_⟩
      rw [known?, Option.bind_some]
      cases known? vs with
      | none => rfl
      | some ys => simp only [Option.map_some, Option.elim_some, stands]
  cases op with
  | and =>
    refine ⟨_, apply_and us, fun vs => ?_⟩
    rw [apply_and, apply_and, decideBy_append (by decide)]
  | or =>
    refine ⟨_, apply_or us, fun vs => ?_⟩
    rw [apply_or, apply_or, decideBy_append (by decide)]
  | xor => exact strictly (.inl rfl)
  | add => exact strictly (.inr rfl)
  | _ => cases flattens

/-- **It stands for them anywhere.** -/
theorem apply_splice {op : Op} (flattens : op.isFlattening = true) {us : List (Option Value)}
    {w : Option Value} (made : apply op us = .ok w) (before after : List (Option Value)) :
    apply op (before ++ (us ++ after)) = apply op (before ++ w :: after) := by
  have commutes := Op.isCommutative_of_isFlattening flattens
  obtain ⟨w', again, stands⟩ := apply_append flattens us
  cases made.symm.trans again
  calc apply op (before ++ (us ++ after))
      = apply op (us ++ (before ++ after)) := by
        refine apply_perm commutes ?_
        rw [← List.append_assoc, ← List.append_assoc]
        exact List.perm_append_comm.append_right after
    _ = apply op (w :: (before ++ after)) := stands _
    _ = apply op (before ++ w :: after) := apply_perm commutes List.perm_middle.symm

end Value

namespace Expr

variable {op : Op}

/-! ## The value of a flattened node -/

/-- **Children and operands come to the same**: what a flattening operator makes of
the values of the children is what it makes of the values of the operands, also where
one of them has no value. -/
theorem apply_flatten (flattens : op.isFlattening = true) (es : List Expr) :
    (flatten op es).mapM evaluate >>= Value.apply op = es.mapM evaluate >>= Value.apply op := by
  -- the values of the operands that have been gone through come first
  suffices all : ∀ before : List (Option Value),
      ((flatten op es).mapM evaluate >>= fun vs => Value.apply op (before ++ vs)) =
        es.mapM evaluate >>= fun vs => Value.apply op (before ++ vs) from all []
  unfold flatten
  simp only [flattens, if_true]
  induction es with
  | nil => exact fun _ => rfl
  | cons e es ih =>
    intro before
    rw [List.flatMap_cons, List.mapM_append, List.mapM_cons]
    simp only [bind_assoc, pure_bind]
    -- what is left of both sides agrees when one value stands for those of the operand
    have rest (us : List (Option Value)) (w : Option Value)
        (stands : ∀ vs, Value.apply op (before ++ (us ++ vs)) =
          Value.apply op (before ++ w :: vs)) :
        ((es.flatMap fun e => if (e.op == op) = true then e.children else [e]).mapM evaluate >>=
            fun vs => Value.apply op (before ++ (us ++ vs))) =
          es.mapM evaluate >>= fun vs => Value.apply op (before ++ w :: vs) := by
      have next := ih (before ++ [w])
      simp only [List.append_assoc, List.singleton_append] at next
      simp only [stands]
      exact next
    split
    · next same =>
      obtain ⟨l, cs⟩ := e
      obtain rfl : l.op = op := beq_iff_eq.1 same
      have inner : l.op.isLeaf = false := by
        revert flattens
        cases l.op <;> decide
      rw [evaluate_node, inner, children_node]
      cases cs.mapM evaluate with
      | error cause => rfl
      | ok us =>
        obtain ⟨w, made, -⟩ := Value.apply_append flattens us
        simp only [Outcome.bind_ok, Bool.false_eq_true, if_false, made]
        exact rest us w (Value.apply_splice flattens made before)
    · rw [List.mapM_cons, List.mapM_nil]
      cases e.evaluate with
      | error cause => rfl
      | ok v => exact rest [v] v fun _ => rfl

/-- Values that are stored do not change what gives way to its children. -/
theorem map_stored_flatten (writes : List Write) (es : List Expr) :
    (flatten op es).map (stored writes) = flatten op (es.map (stored writes)) := by
  have parts (e : Expr) :
      (if (e.op == op) = true then e.children else [e]).map (stored writes) =
        if ((e.stored writes).op == op) = true then (e.stored writes).children
        else [e.stored writes] := by
    rw [op_stored, children_stored]
    split <;> rfl
  unfold flatten
  split
  · rw [List.map_flatMap, List.flatMap_map]
    simp only [parts]
  · rfl

/-- **Flattening changes no value.** An operator that flattens makes an expression of
operands, and then any values are stored at nodes of it, variables, literals and
compound ones alike. Each operand has a value by itself, the operator has a value on
these, and that is the value of the expression. -/
theorem evaluate_combine (flattens : op.isFlattening = true) {operands : List Operand}
    (built : ∀ c, .expr c ∈ operands → c.Built) {e : Expr} (made : combine op operands = .ok e)
    (writes : List Write) :
    ∃ es vs v, operands.mapM lift = .ok es ∧ (es.map (stored writes)).mapM evaluate = .ok vs ∧
      Value.apply op vs = .ok v ∧ (e.stored writes).evaluate = .ok v := by
  obtain ⟨inner, es, lifted, made⟩ := combine_eq_ok_iff.1 made
  have values : ∀ d ∈ es.map (stored writes), ∃ v, d.evaluate = .ok v := by
    intro d hd
    obtain ⟨c, hc, rfl⟩ := List.mem_map.1 hd
    obtain ⟨o, ho, lifted⟩ := Outcome.exists_of_mem_mapM lifted hc
    have shaped := (Built.of_lift lifted fun c same => built c (same ▸ ho)).shaped
    exact (shaped.stored writes).exists_evaluate
  obtain ⟨vs, row⟩ := Outcome.exists_row values
  have evaluated := Outcome.mapM_eq_ok_iff.2 row
  obtain ⟨v, applied, -⟩ := Value.apply_append flattens vs
  refine ⟨es, vs, v, lifted, evaluated, applied, ?_⟩
  obtain ⟨l, cs⟩ := e
  obtain ⟨-, _, -, rfl, rfl⟩ := combineExprs_eq_ok_iff.1 made
  rw [stored_node, map_stored_flatten, evaluate_node, Label.stored_eq]
  show (if op.isLeaf = true then _ else _) = _
  rw [inner, if_neg Bool.false_ne_true, apply_flatten flattens, evaluated, Outcome.bind_ok, applied]

/-- Two variables that are kept. -/
def keptPair : List Expr :=
  [node ⟨.identity, "x", some .bool, none, some 0⟩ [], node ⟨.identity, "y", none, none, some 1⟩ []]

/-- A number is stored in the place of a truth value, and the conjunction of the
conjunction is neither true nor false. -/
theorem evaluate_combine_keptPair :
    ∃ c e, combine .and (keptPair.map .expr) = .ok c ∧
      combine .and [.expr c, .bool true] = .ok e ∧ e.children.length = 3 ∧
      (e.stored [⟨0, some (.int 1)⟩, ⟨1, some (.bool true)⟩]).evaluate = .ok none := by
  have leaves : ∀ c, Operand.expr c ∈ keptPair.map .expr → c.Built := by
    have each : ∀ c ∈ keptPair, c.Built :=
      List.forall_mem_cons.2 ⟨.var .., List.forall_mem_singleton.2 (.var ..)⟩
    exact fun c hc => each c (by simpa using hc)
  let c := node ⟨.and, derivedName .and keptPair, none, none, none⟩ keptPair
  have made : combine .and (keptPair.map .expr) = .ok c := rfl
  have built : ∀ d, Operand.expr d ∈ [Operand.expr c, .bool true] → d.Built := by
    intro d hd
    obtain rfl : d = c := by simpa using hd
    exact .of_combine made leaves
  have again : combine .and [.expr c, .bool true] = .ok (node
    ⟨.and, derivedName .and (keptPair ++ [constant (.bool true)]), none, none, none⟩
    (keptPair ++ [constant (.bool true)])) := rfl
  obtain ⟨es, vs, v, lifted, evaluated, applied, value⟩ :=
    evaluate_combine rfl built again [⟨0, some (.int 1)⟩, ⟨1, some (.bool true)⟩]
  cases lifted
  cases evaluated
  cases applied
  exact ⟨c, _, made, again, rfl, value⟩

end Expr

end SmtDialogue
