import SmtDialogue.Expr.Evaluate
import SmtDialogue.Proofs.Sorting
import SmtDialogue.Proofs.Standard

/-!
# What is written means what was meant

The value of an expression under values for its variables is what evaluation
makes of the expression with these values stored at its variables. For a
well-sorted expression that builders make it is always known and of the sort of
the expression (`exists_haveValue`), and the term of the expression has the
same value by the standard meaning of its operators, and the same sort.

All three facts are one induction over the expression. At an operator node it
needs that the rule of the operator and the meaning of its symbol agree on
operands of the right sorts, of which there are as many as the operator takes:
`apply_eq_meaning`. That is where the fifteen operators differ; one operand of a
flattening operator is the exception, because there the operand itself is
written.
-/

namespace SmtDialogue

namespace Expr

mutual

/-- The expression with values stored at its variables, by name. -/
def valued (ρ : String → Option Value) : Expr → Expr
  | node l cs =>
    if l.op = .identity then node { l with value := ρ l.name } (valuedAll ρ cs)
    else node l (valuedAll ρ cs)

/-- The same for several expressions. -/
def valuedAll (ρ : String → Option Value) : List Expr → List Expr
  | [] => []
  | e :: es => e.valued ρ :: valuedAll ρ es

end

@[simp] theorem valuedAll_eq_map (ρ : String → Option Value) (es : List Expr) :
    valuedAll ρ es = es.map (valued ρ) := by
  induction es with
  | nil => rfl
  | cons e es ih => rw [valuedAll, ih, List.map_cons]

/-- **The value of an expression under values for its variables**, where a
variable may have none. -/
def valueUnder (ρ : String → Option Value) (e : Expr) : Except EvaluationError (Option Value) :=
  (e.valued ρ).evaluate

theorem valueUnder_identity (ρ : String → Option Value) {l : Label} (cs : List Expr)
    (leaf : l.op = .identity) : (node l cs).valueUnder ρ = .ok (ρ l.name) := by
  rw [valueUnder, valued, if_pos leaf, evaluate_node]
  simp [leaf, Op.isLeaf]

theorem valueUnder_const (ρ : String → Option Value) {l : Label} (cs : List Expr)
    (leaf : l.op = .const) : (node l cs).valueUnder ρ = .ok l.value := by
  rw [valueUnder, valued, if_neg (by rw [leaf]; decide), evaluate_node]
  simp [leaf, Op.isLeaf]

theorem valueUnder_inner (ρ : String → Option Value) {l : Label} (cs : List Expr)
    (inner : l.op.isLeaf = false) :
    (node l cs).valueUnder ρ = cs.mapM (valueUnder ρ) >>= Value.apply l.op := by
  obtain ⟨var, -⟩ := Op.isLeaf_eq_false_iff.1 inner
  rw [valueUnder, valued, if_neg var, evaluate_node, inner, valuedAll_eq_map, List.mapM_map]
  rfl

/-- An operator has a value, known or unknown, on as many operands as it takes, when
each of these has one. -/
theorem exists_bind_apply {op : Op} (inner : op.isLeaf = false) {cs : List Expr}
    (takes : op.accepts cs.length = true) {f : Expr → Except EvaluationError (Option Value)}
    (each : ∀ c ∈ cs, ∃ v, f c = .ok v) : ∃ v, (cs.mapM f >>= Value.apply op) = .ok v := by
  obtain ⟨vs, values⟩ := Outcome.exists_row each
  rw [Outcome.mapM_eq_ok_iff.2 values, Outcome.bind_ok]
  exact Value.exists_apply_of_accepts (values.length_eq ▸ takes) inner

/-- What builders make has a value, known or unknown, whatever the values of the
variables are. -/
theorem Built.exists_valueUnder {e : Expr} (built : e.Built) (ρ : String → Option Value) :
    ∃ v, e.valueUnder ρ = .ok v := by
  induction e using induct with
  | node l cs ih =>
    cases hop : l.op.isLeaf with
    | true =>
      cases hl : l.op <;> simp_all [Op.isLeaf, valueUnder_identity, valueUnder_const]
    | false =>
      rw [valueUnder_inner ρ cs hop]
      exact exists_bind_apply hop (built.accepts hop) fun c hc => ih c hc (built.child hc)

section Assign

variable {m : Assignment} {ρ : String → Option Value}

/-- A variable gets the value that the assignment names, or has its own. -/
theorem assign_identity {l : Label} (var : l.op = .identity) (cs : List Expr) :
    (node l cs).assign m =
      (m.lookup l.name).elim ([], .ok l.value) fun v => (writeTo l v, .ok v) := by
  rw [assign, if_pos (beq_iff_eq.2 var)]
  cases m.lookup l.name <;> rfl

/-- A literal has its own value. -/
theorem assign_const {l : Label} (literal : l.op = .const) (cs : List Expr) :
    (node l cs).assign m = ([], .ok l.value) := by
  rw [assign, if_neg (by rw [literal]; decide), if_pos (beq_iff_eq.2 literal)]

/-- A compound node gets the value of its operator on what its children get. -/
theorem snd_assign_inner {l : Label} (inner : l.op.isLeaf = false) (cs : List Expr) :
    ((node l cs).assign m).2 = (cs.mapM fun c => (c.assign m).2) >>= Value.apply l.op := by
  obtain ⟨var, literal⟩ := Op.isLeaf_eq_false_iff.1 inner
  rw [← snd_assignAll, assign, if_neg (mt beq_iff_eq.1 var), if_neg (mt beq_iff_eq.1 literal)]
  rcases assignAll m cs with ⟨writes, _ | vs⟩
  · rfl
  · simp only [Outcome.bind_ok]
    cases Value.apply l.op vs <;> rfl

/-- An assignment that names every variable of an expression gives it the value
that it has under the assigned values. -/
theorem assign_eq_valueUnder {e : Expr} (given : ∀ x ∈ e.variableNames, m.lookup x = some (ρ x)) :
    (e.assign m).2 = e.valueUnder ρ := by
  induction e using induct with
  | node l cs ih =>
    by_cases var : l.op = .identity
    · have own := given l.name (mem_variableNames_node.2 (.inl ⟨var, rfl⟩))
      rw [valueUnder_identity ρ cs var, assign_identity var, own]
      rfl
    by_cases literal : l.op = .const
    · rw [valueUnder_const ρ cs literal, assign_const literal]
    have inner : l.op.isLeaf = false := Op.isLeaf_eq_false_iff.2 ⟨var, literal⟩
    rw [valueUnder_inner ρ cs inner, snd_assign_inner inner]
    congr 1
    exact mapM_congr fun c hc =>
      ih c hc fun x hx => given x (mem_variableNames_node.2 (.inr ⟨c, hc, hx⟩))

end Assign

end Expr

/-! ## Rules and meanings of operators -/

namespace Value

@[simp] theorem known?_map_some (vs : List Value) : known? (vs.map some) = some vs := by
  induction vs with
  | nil => rfl
  | cons v vs ih => rw [List.map_cons, known?, ih]; rfl

/-- The rule of conjunction and of disjunction: one operand of the first value decides,
and otherwise all must have the second. -/
def decideBy (x y : Value) (vs : List (Option Value)) : Option Value :=
  if vs.any (· == some x) then some x else if vs.all (· == some y) then some y else none

theorem apply_and (vs : List (Option Value)) :
    apply .and vs = .ok (decideBy (bool false) (bool true) vs) := rfl

theorem apply_or (vs : List (Option Value)) :
    apply .or vs = .ok (decideBy (bool true) (bool false) vs) := rfl

/-- Conjunction of truth values. -/
theorem conj_map_bool (bs : List Bool) :
    conj ((bs.map bool).map some) = some (bool (bs.all id)) := by
  unfold conj
  induction bs with
  | nil => rfl
  | cons b bs ih =>
    cases b with
    | false => rfl
    | true => simpa using ih

/-- Disjunction of truth values. -/
theorem disj_map_bool (bs : List Bool) :
    disj ((bs.map bool).map some) = some (bool (bs.any id)) := by
  unfold disj
  induction bs with
  | nil => rfl
  | cons b bs ih =>
    cases b with
    | true => rfl
    | false => simpa using ih

/-- The rule of the operators that need all their operands. -/
theorem apply_eq_strict {op : Op} (needsAll : op ≠ .and ∧ op ≠ .or ∧ op ≠ .implies ∧ op ≠ .ite)
    (vs : List (Option Value)) :
    apply op vs = (known? vs).elim (.ok none) fun us => (strict op us).map some := by
  cases op with
  | and | or | implies | ite => simp at needsAll
  | _ => cases known : known? vs <;> simp only [apply, known, Option.elim]

/-- An operator that needs all its operands, on known ones. -/
theorem apply_map_some {op : Op} (needsAll : op ≠ .and ∧ op ≠ .or ∧ op ≠ .implies ∧ op ≠ .ite)
    (vs : List Value) : apply op (vs.map some) = (strict op vs).map some := by
  rw [apply_eq_strict needsAll, known?_map_some]
  rfl

/-- Known values make up the row. -/
theorem map_some_of_known? {vs : List (Option Value)} {us : List Value}
    (known : known? vs = some us) : us.map some = vs := by
  induction vs generalizing us with
  | nil =>
    cases known
    rfl
  | cons v vs ih =>
    cases v with
    | none => cases known
    | some v =>
      obtain ⟨us', found, rfl⟩ := Option.map_eq_some_iff.1 known
      rw [List.map_cons, ih found]

/-- Such an operator has a known value when all operands are known. -/
theorem apply_eq_ok_some_iff {op : Op}
    (needsAll : op ≠ .and ∧ op ≠ .or ∧ op ≠ .implies ∧ op ≠ .ite) {vs : List (Option Value)}
    {v : Value} : apply op vs = .ok (some v) ↔ ∃ us, us.map some = vs ∧ strict op us = .ok v := by
  constructor
  · intro applied
    rw [apply_eq_strict needsAll] at applied
    cases known : known? vs with
    | none =>
      rw [known] at applied
      cases applied
    | some us =>
      rw [known, Option.elim_some] at applied
      cases made : strict op us with
      | error e =>
        rw [made] at applied
        cases applied
      | ok w =>
        rw [made] at applied
        cases applied
        exact ⟨us, map_some_of_known? known, made⟩
  · rintro ⟨us, rfl, made⟩
    rw [apply_map_some needsAll, made]
    rfl

/-- Implication is of two operands. -/
theorem apply_implies_eq_ok_iff {vs : List (Option Value)} {w : Option Value} :
    apply .implies vs = .ok w ↔ ∃ a b, vs = [a, b] ∧ implies a b = w := by
  constructor
  · intro applied
    rcases vs with _ | ⟨a, _ | ⟨b, _ | ⟨c, vs⟩⟩⟩
    · cases applied
    · cases applied
    · exact ⟨a, b, rfl, Except.ok.inj applied⟩
    · cases applied
  · rintro ⟨a, b, rfl, rfl⟩
    rfl

theorem sum_map_int (ns : List Int) : sum (ns.map int) = ns.foldl (· + ·) 0 := by
  rw [sum, List.foldl_map]
  rfl

end Value

namespace Smt

open Value (bool int)

theorem mapM_bool? (bs : List Bool) : (bs.map bool).mapM Value.bool? = some bs := by
  induction bs with
  | nil => rfl
  | cons b bs ih => rw [List.map_cons, List.mapM_cons, ih]; rfl

theorem mapM_int? (ns : List Int) : (ns.map int).mapM Value.int? = some ns := by
  induction ns with
  | nil => rfl
  | cons n ns ih => rw [List.map_cons, List.mapM_cons, ih]; rfl

/-- An associative function with a neutral element goes through two or more
operands as it goes through all of them from the neutral element. -/
theorem leftAssoc_eq_foldl {α : Type} {f : α → α → α} (unit : α) (neutral : ∀ a, f unit a = a)
    {as : List α} (many : 2 ≤ as.length) : leftAssoc f as = some (as.foldl f unit) := by
  match as, many with
  | a :: b :: rest, _ => rw [leftAssoc, List.foldl_cons, List.foldl_cons, neutral]

theorem foldl_and (bs : List Bool) (b : Bool) : bs.foldl (· && ·) b = (b && bs.all id) := by
  induction bs generalizing b with
  | nil => simp
  | cons c cs ih => rw [List.foldl_cons, ih, List.all_cons, Bool.and_assoc]; rfl

theorem foldl_or (bs : List Bool) (b : Bool) : bs.foldl (· || ·) b = (b || bs.any id) := by
  induction bs generalizing b with
  | nil => simp
  | cons c cs ih => rw [List.foldl_cons, ih, List.any_cons, Bool.or_assoc]; rfl

/-- Exclusive disjunction from the left asks whether an odd number hold. -/
theorem foldl_xor (bs : List Bool) (b : Bool) :
    bs.foldl (· != ·) b = (b != ((bs.map bool).countP Value.holds % 2 == 1)) := by
  induction bs generalizing b with
  | nil => cases b <;> rfl
  | cons c cs ih =>
    rw [List.foldl_cons, ih, List.map_cons, List.countP_cons, Value.holds_bool]
    generalize (cs.map bool).countP Value.holds = k
    have flips : ((k + 1) % 2 == 1) = !(k % 2 == 1) := by
      rcases Nat.mod_two_eq_zero_or_one k with h | h <;> simp [Nat.add_mod, h]
    cases c with
    | false => simp
    | true => rw [if_pos rfl, flips]; cases b <;> simp

/-- A difference takes all operands but the first from the first. -/
theorem foldl_sub (ns : List Int) (m : Int) :
    ns.foldl (· - ·) m = m - ns.foldl (· + ·) 0 := by
  induction ns generalizing m with
  | nil => simp
  | cons n ns ih =>
    have shift : ∀ (ks : List Int) (a : Int), ks.foldl (· + ·) a = a + ks.foldl (· + ·) 0 := by
      intro ks
      induction ks with
      | nil => simp
      | cons k ks ih =>
        intro a
        rw [List.foldl_cons, List.foldl_cons, ih (a + k), ih (0 + k)]
        omega
    rw [List.foldl_cons, List.foldl_cons, ih, shift ns (0 + n)]
    omega

/-- What an operator makes of operands, and what is written for it: the operand
itself when there is one and the operator flattens, or else its symbol with the
operands. -/
def Agrees (op : Op) (vs : List Value) (v : Value) : Prop :=
  (unwrapsSingle op = true ∧ vs = [v]) ∨
    ((unwrapsSingle op = true → 2 ≤ vs.length) ∧ meaning (headOf op) vs = some v)

/-- For the operators that flatten, one operand is its own result and two or
more are taken from the left. -/
theorem agrees_of_isFlattening {op : Op} (h : unwrapsSingle op = true) {vs : List Value}
    {v : Value} (takes : op.accepts vs.length = true) (one : ∀ a, vs = [a] → a = v)
    (many : 2 ≤ vs.length → meaning (headOf op) vs = some v) : Agrees op vs v := by
  rw [Expr.accepts_iff_of_isFlattening h] at takes
  by_cases two : 2 ≤ vs.length
  · exact .inr ⟨fun _ => two, many two⟩
  · obtain ⟨a, rfl⟩ := List.length_eq_one_iff.1 (show vs.length = 1 by omega)
    rw [← one a rfl]
    exact .inl ⟨h, rfl⟩

theorem agrees_and {bs : List Bool} (takes : Op.and.accepts (bs.map bool).length = true) :
    Agrees .and (bs.map bool) (bool (bs.all id)) := by
  refine agrees_of_isFlattening rfl takes ?_ fun two => ?_
  · intro a one
    obtain ⟨b, rfl, rfl⟩ := List.map_eq_singleton_iff.1 one
    simp
  · show onBools _ _ = _
    rw [onBools, mapM_bool?, Option.bind_eq_bind, Option.bind_some,
      leftAssoc_eq_foldl true Bool.true_and (by simpa using two), foldl_and]
    simp

theorem agrees_or {bs : List Bool} (takes : Op.or.accepts (bs.map bool).length = true) :
    Agrees .or (bs.map bool) (bool (bs.any id)) := by
  refine agrees_of_isFlattening rfl takes ?_ fun two => ?_
  · intro a one
    obtain ⟨b, rfl, rfl⟩ := List.map_eq_singleton_iff.1 one
    simp
  · show onBools _ _ = _
    rw [onBools, mapM_bool?, Option.bind_eq_bind, Option.bind_some,
      leftAssoc_eq_foldl false Bool.false_or (by simpa using two), foldl_or]
    simp

theorem agrees_xor {bs : List Bool} (takes : Op.xor.accepts (bs.map bool).length = true) :
    Agrees .xor (bs.map bool) (bool ((bs.map bool).countP Value.holds % 2 == 1)) := by
  refine agrees_of_isFlattening rfl takes ?_ fun two => ?_
  · intro a one
    obtain ⟨b, rfl, rfl⟩ := List.map_eq_singleton_iff.1 one
    cases b <;> rfl
  · show onBools _ _ = _
    rw [onBools, mapM_bool?, Option.bind_eq_bind, Option.bind_some,
      leftAssoc_eq_foldl false (by simp) (by simpa using two), foldl_xor]
    simp

theorem agrees_add {ns : List Int} (takes : Op.add.accepts (ns.map int).length = true) :
    Agrees .add (ns.map int) (int (Value.sum (ns.map int))) := by
  rw [Value.sum_map_int]
  refine agrees_of_isFlattening rfl takes ?_ fun two => ?_
  · intro a one
    obtain ⟨n, rfl, rfl⟩ := List.map_eq_singleton_iff.1 one
    simp
  · show onInts _ _ = _
    rw [onInts, mapM_int?, Option.bind_eq_bind, Option.bind_some,
      leftAssoc_eq_foldl 0 Int.zero_add (by simpa using two)]
    rfl

theorem agrees_sub {n : Int} {ns : List Int} (more : ns ≠ []) :
    Agrees .sub ((n :: ns).map int) (int (n - Value.sum (ns.map int))) := by
  refine .inr ⟨nofun, ?_⟩
  obtain ⟨m, ms, rfl⟩ := List.exists_cons_of_ne_nil more
  rw [Value.sum_map_int, ← foldl_sub]
  show onInts _ ((n :: m :: ms).map int) = _
  rw [onInts, mapM_int?]
  rfl

/-- The number of operands of an operator that takes a fixed number. -/
theorem length_of_accepts {op : Op} {n k : Nat} (fixed : op.arity = (k, some k))
    (h : op.accepts n = true) : n = k := by
  obtain ⟨lo, hi⟩ := Op.accepts_iff.1 h
  rw [fixed] at lo hi
  exact Nat.le_antisymm (hi k rfl) lo

/-- **The rule of an operator and the meaning of its symbol agree**: on as many
operands as it takes, all of the sort it asks, both have one value, of the sort
it gives. -/
theorem apply_eq_meaning {op : Op} {operand result : SmtSort}
    (takes : op.operandSort? = some operand) (gives : op.resultSort? = some result)
    {vs : List Value} (enough : op.accepts vs.length = true)
    (sorts : ∀ v ∈ vs, v.sort = operand) :
    ∃ v, v.sort = result ∧ Value.apply op (vs.map some) = .ok (some v) ∧ Agrees op vs v := by
  have bools (h : operand = .bool) : ∃ bs : List Bool, vs = bs.map bool :=
    Value.exists_map_bool (h ▸ sorts)
  have ints (h : operand = .int) : ∃ ns : List Int, vs = ns.map int :=
    Value.exists_map_int (h ▸ sorts)
  cases op with
  | identity | const | ite => cases takes
  | and =>
    cases takes; cases gives
    obtain ⟨bs, rfl⟩ := bools rfl
    exact ⟨_, rfl, congrArg Except.ok (Value.conj_map_bool bs), agrees_and enough⟩
  | or =>
    cases takes; cases gives
    obtain ⟨bs, rfl⟩ := bools rfl
    exact ⟨_, rfl, congrArg Except.ok (Value.disj_map_bool bs), agrees_or enough⟩
  | xor =>
    cases takes; cases gives
    obtain ⟨bs, rfl⟩ := bools rfl
    exact ⟨_, rfl, Value.apply_map_some (by simp) _, agrees_xor enough⟩
  | add =>
    cases takes; cases gives
    obtain ⟨ns, rfl⟩ := ints rfl
    exact ⟨_, rfl, Value.apply_map_some (by simp) _, agrees_add enough⟩
  | sub =>
    cases takes; cases gives
    obtain ⟨ns, rfl⟩ := ints rfl
    obtain ⟨two, -⟩ := Op.accepts_iff.1 enough
    rw [List.length_map] at two
    -- a difference of one operand would be its negation, but it takes two
    match ns, two with
    | n :: m :: ms, _ =>
      exact ⟨_, rfl, Value.apply_map_some (by simp) _, agrees_sub (List.cons_ne_nil m ms)⟩
  | not =>
    cases takes; cases gives
    obtain ⟨bs, rfl⟩ := bools rfl
    have one := length_of_accepts rfl enough
    obtain ⟨b, rfl⟩ := List.length_eq_one_iff.1 (by simpa using one)
    exact ⟨bool (!b), rfl, by cases b <;> rfl, .inr ⟨nofun, rfl⟩⟩
  | iff | implies =>
    cases takes; cases gives
    obtain ⟨bs, rfl⟩ := bools rfl
    have two := length_of_accepts rfl enough
    obtain ⟨a, b, rfl⟩ := List.length_eq_two.1 (by simpa using two)
    cases a <;> cases b <;> exact ⟨_, rfl, rfl, .inr ⟨nofun, rfl⟩⟩
  | eq | ne =>
    cases takes; cases gives
    obtain ⟨ns, rfl⟩ := ints rfl
    have two := length_of_accepts rfl enough
    obtain ⟨a, b, rfl⟩ := List.length_eq_two.1 (by simpa using two)
    refine ⟨_, rfl, Value.apply_map_some (by simp) _, .inr ⟨nofun, ?_⟩⟩
    by_cases same : a = b <;>
      simp [meaning, headOf, onSameSort, Value.sort, Value.sameNumber, Value.toInt, bne, same]
  | le | lt | ge | gt =>
    cases takes; cases gives
    obtain ⟨ns, rfl⟩ := ints rfl
    have two := length_of_accepts rfl enough
    obtain ⟨a, b, rfl⟩ := List.length_eq_two.1 (by simpa using two)
    exact ⟨_, rfl, Value.apply_map_some (by simp) _, .inr ⟨nofun, rfl⟩⟩

/-- What is written for an operator has the sort that the operator gives. -/
theorem rank_headOf {op : Op} {operand result : SmtSort} (takes : op.operandSort? = some operand)
    (gives : op.resultSort? = some result) {n : Nat} (enough : op.accepts n = true)
    (many : unwrapsSingle op = true → 2 ≤ n) :
    rank (headOf op) (List.replicate n operand) = some result := by
  have ranked (sort : SmtSort) (two : 2 ≤ n) : rankMany sort (List.replicate n sort) = some sort :=
    if_pos ⟨by rwa [List.length_replicate], fun _ h => List.eq_of_mem_replicate h⟩
  cases op with
  | identity | const | ite => cases takes
  | and | or | xor | add =>
    cases takes; cases gives
    exact ranked _ (many rfl)
  | sub =>
    cases takes; cases gives
    obtain ⟨two, -⟩ := Op.accepts_iff.1 enough
    match n, two with
    | n + 2, two => exact ranked .int two
  | not | iff | implies | eq | ne | le | lt | ge | gt =>
    cases takes; cases gives
    rw [length_of_accepts rfl enough]
    rfl

/-! ## The term of an expression -/

namespace Term

theorem ofExprs_eq_mapM (es : List Expr) : ofExprs es = es.mapM ofExpr := by
  induction es with
  | nil => rfl
  | cons e es ih => rw [ofExprs, List.mapM_cons, ih]

theorem ofExpr_identity {l : Label} {cs : List Expr} (leaf : l.op = .identity) {t : Term} :
    ofExpr (.node l cs) = .ok t ↔ isWritable l.name = true ∧ t = symbol l.name := by
  unfold ofExpr
  simp only [leaf]
  by_cases h : isWritable l.name = true
  · simp [h, eq_comm]
  · simp [h]

theorem ofExpr_const {l : Label} {cs : List Expr} (leaf : l.op = .const) {t : Term} :
    ofExpr (.node l cs) = .ok t ↔ ∃ v, l.value = some v ∧ t = literal v := by
  unfold ofExpr
  simp only [leaf]
  cases l.value with
  | none => simp
  | some v => simp [eq_comm]

theorem ofExpr_inner {l : Label} {cs : List Expr} (inner : l.op.isLeaf = false) {t : Term} :
    ofExpr (.node l cs) = .ok t ↔
      ∃ ts, List.Forall₂ (fun c t => ofExpr c = .ok t) cs ts ∧ t = apply l.op ts := by
  have step : ofExpr (.node l cs) = ofExprs cs >>= fun ts => .ok (apply l.op ts) := by
    unfold ofExpr
    cases hop : l.op <;> simp_all [Op.isLeaf] <;> rfl
  rw [step, ofExprs_eq_mapM, Outcome.bind_eq_ok_iff]
  simp only [Outcome.mapM_eq_ok_iff, Except.ok.injEq, eq_comm (a := t)]

/-- The value of what is written for an operator. -/
theorem eval_apply {ρ : Valuation} {op : Op} {ts : List Term} {vs : List Value} {v : Value}
    (parts : List.Forall₂ (fun t v => t.eval ρ = some v) ts vs) (agrees : Agrees op vs v) :
    (apply op ts).eval ρ = some v := by
  have applied (h : meaning (headOf op) vs = some v) : (app (headOf op) ts).eval ρ = some v := by
    rw [eval_app, evalAll_eq_some_iff.2 parts]
    exact h
  rcases agrees with ⟨one, rfl⟩ | ⟨many, means⟩
  · obtain ⟨t, _, ht, none, rfl⟩ := List.forall₂_cons_right_iff.1 parts
    obtain rfl := List.forall₂_nil_right_iff.1 none
    rw [apply, if_pos one]
    exact ht
  · unfold apply
    split
    · next arg =>
      split
      · next one =>
        have two := many one
        rw [← parts.length_eq] at two
        simp at two
      · exact applied means
    · exact applied means

end Term

/-- An expression and its term have a value in common. -/
def HaveValue (ρ : Valuation) (e : Expr) (v : Value) : Prop :=
  e.valueUnder (fun x => some (ρ x)) = .ok (some v) ∧
    ∀ t, Term.ofExpr e = .ok t → t.eval ρ = some v

/-- Expressions and their terms have common values one by one. -/
theorem HaveValue.row {ρ : Valuation} {cs : List Expr} {vs : List Value}
    (h : List.Forall₂ (HaveValue ρ) cs vs) :
    cs.mapM (Expr.valueUnder fun x => some (ρ x)) = .ok (vs.map some) ∧
      ∀ ts, List.Forall₂ (fun c t => Term.ofExpr c = .ok t) cs ts →
        List.Forall₂ (fun t v => Term.eval ρ t = some v) ts vs := by
  induction h with
  | nil => exact ⟨rfl, fun ts h => by cases h; exact .nil⟩
  | cons first _ ih =>
    refine ⟨?_, fun ts h => ?_⟩
    · rw [List.mapM_cons, first.1, ih.1]
      rfl
    · cases h with
      | cons ht hts => exact .cons (first.2 _ ht) (ih.2 _ hts)

/-- An operator node and its term have a value in common when its rule and what
is written for it agree on the values of the children. -/
theorem HaveValue.inner {ρ : Valuation} {l : Label} {cs : List Expr} {vs : List Value} {v : Value}
    (inner : l.op.isLeaf = false) (parts : List.Forall₂ (HaveValue ρ) cs vs)
    (rule : Value.apply l.op (vs.map some) = .ok (some v)) (agrees : Agrees l.op vs v) :
    HaveValue ρ (.node l cs) v := by
  obtain ⟨values, terms⟩ := HaveValue.row parts
  refine ⟨?_, fun t written => ?_⟩
  · rw [Expr.valueUnder_inner _ _ inner, values]
    exact rule
  · obtain ⟨ts, hts, rfl⟩ := (Term.ofExpr_inner inner).1 written
    exact Term.eval_apply (terms ts hts) agrees

/-- **What is written means what was meant.** Under values of the sorts of a
table for its variables, a well-sorted expression that builders make has a known
value of its sort, and its term has that value by the standard meaning. -/
theorem exists_haveValue {table : SortTable} {ρ : Valuation} (fits : table.Fits ρ) {e : Expr}
    {sort : SmtSort} (built : e.Built) (typed : e.HasSort table sort) :
    ∃ v : Value, v.sort = sort ∧ HaveValue ρ e v := by
  induction typed with
  | @var l cs sort leaf known _ =>
    refine ⟨ρ l.name, fits _ _ known, Expr.valueUnder_identity _ _ leaf, fun t written => ?_⟩
    obtain ⟨-, rfl⟩ := (Term.ofExpr_identity leaf).1 written
    exact Term.eval_symbol _ _
  | const leaf own =>
    obtain ⟨v, -, -, sorted, valued⟩ := built.exists_of_const leaf
    refine ⟨v, Option.some.inj (sorted.symm.trans own), ?_, fun t written => ?_⟩
    · rw [Expr.valueUnder_const _ _ leaf, valued]
    · obtain ⟨w, hw, rfl⟩ := (Term.ofExpr_const leaf).1 written
      cases valued.symm.trans hw
      exact Term.eval_literal _ _
  | @ite l condition thenBranch elseBranch sort choice _ _ _ test first second =>
    obtain ⟨c, hc, valueC⟩ := test (built.child (by simp))
    obtain ⟨a, ha, valueA⟩ := first (built.child (by simp))
    obtain ⟨b, hb, valueB⟩ := second (built.child (by simp))
    obtain ⟨c, rfl⟩ := Value.exists_of_sort_bool hc
    have values : List.Forall₂ (HaveValue ρ) [condition, thenBranch, elseBranch] [.bool c, a, b] :=
      .cons valueC (.cons valueA (.cons valueB .nil))
    refine ⟨if c then a else b, by cases c <;> assumption,
      .inner (by rw [choice]; rfl) values ?_ ?_⟩
    · rw [choice]
      cases c <;> rfl
    · rw [choice]
      exact .inr ⟨by simp, if_pos (ha.trans hb.symm)⟩
  | @app l cs operand result takes gives _ parts =>
    have inner : l.op.isLeaf = false := Op.isLeaf_of_operandSort? takes
    obtain ⟨vs, values⟩ := Outcome.exists_row fun c hc => parts c hc (built.child hc)
    have enough : l.op.accepts vs.length = true := by
      rw [← values.length_eq]
      exact built.accepts inner
    have sorts : ∀ v ∈ vs, v.sort = operand := fun v hv => by
      obtain ⟨-, -, sorted, -⟩ := Outcome.exists_of_mem_right values hv
      exact sorted
    obtain ⟨v, sorted, rule, agrees⟩ := apply_eq_meaning takes gives enough sorts
    exact ⟨v, sorted, .inner inner (values.imp fun _ _ h => h.2) rule agrees⟩

/-- **What is written has the sort of what was meant.** -/
theorem sort?_ofExpr {table : SortTable} {e : Expr} {sort : SmtSort} (built : e.Built)
    (typed : e.HasSort table sort) {t : Term} (written : Term.ofExpr e = .ok t) :
    t.sort? table = some sort := by
  induction typed generalizing t with
  | var leaf known _ =>
    obtain ⟨-, rfl⟩ := (Term.ofExpr_identity leaf).1 written
    rw [Term.sort?]
    exact known
  | const leaf own =>
    obtain ⟨v, -, -, sorted, valued⟩ := built.exists_of_const leaf
    obtain ⟨w, hw, rfl⟩ := (Term.ofExpr_const leaf).1 written
    cases valued.symm.trans hw
    rw [Term.sort?, ← sorted, own]
  | ite choice _ _ _ test first second =>
    obtain ⟨ts, parts, rfl⟩ := (Term.ofExpr_inner (by rw [choice]; rfl)).1 written
    obtain ⟨c, _, hc, branches, rfl⟩ := List.forall₂_cons_left_iff.1 parts
    obtain ⟨a, _, ha, last, rfl⟩ := List.forall₂_cons_left_iff.1 branches
    obtain ⟨b, _, hb, none, rfl⟩ := List.forall₂_cons_left_iff.1 last
    obtain rfl := List.forall₂_nil_left_iff.1 none
    rw [choice]
    show (Term.app "ite" [c, a, b]).sort? table = _
    rw [Term.sort?_app, Term.sortAll?_eq_some_iff.2 (.cons (test (built.child (by simp)) hc)
      (.cons (first (built.child (by simp)) ha) (.cons (second (built.child (by simp)) hb) .nil)))]
    exact if_pos rfl
  | @app l cs operand result takes gives _ parts =>
    have inner : l.op.isLeaf = false := Op.isLeaf_of_operandSort? takes
    obtain ⟨ts, terms, rfl⟩ := (Term.ofExpr_inner inner).1 written
    have enough : l.op.accepts ts.length = true := by
      rw [← terms.length_eq]
      exact built.accepts inner
    have sorted : ∀ t ∈ ts, t.sort? table = some operand := fun t ht => by
      obtain ⟨c, hc, written⟩ := Outcome.exists_of_mem_right terms ht
      exact parts c hc (built.child hc) written
    have applied (many : unwrapsSingle l.op = true → 2 ≤ ts.length) :
        (Term.app (headOf l.op) ts).sort? table = some result := by
      have sorts : Term.sortAll? table ts = some (List.replicate ts.length operand) := by
        rw [Term.sortAll?_eq_some_iff, List.forall₂_iff_get]
        exact ⟨by simp, fun i h _ => by simpa using sorted _ (List.getElem_mem h)⟩
      rw [Term.sort?_app, sorts]
      exact rank_headOf takes gives enough many
    unfold Term.apply
    split
    · next arg =>
      split
      · next one =>
        -- the operand stands for the node, and operators that flatten keep the sort
        rw [sorted arg List.mem_cons_self]
        cases hop : l.op <;> rw [hop] at one takes gives <;> cases one <;> cases takes <;>
          cases gives <;> rfl
      · next many => exact applied fun one => absurd one many
    · next many =>
      refine applied fun one => ?_
      rw [Expr.accepts_iff_of_isFlattening one] at enough
      rcases ts with _ | ⟨t, _ | ⟨u, rest⟩⟩
      · cases enough
      · exact absurd rfl (many t)
      · simp

end Smt

end SmtDialogue
