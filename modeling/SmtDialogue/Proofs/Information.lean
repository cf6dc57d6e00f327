import SmtDialogue.Proofs.Inference
import SmtDialogue.Proofs.Meaning

/-!
# What more values cannot change

Under values for some of its variables an expression may have a value already: a
conjunction with one false operand is false, whatever the others are. Such a value is
final. When more variables get values, of the sorts that the expression asks of them,
it remains the value, and so it is the one under every completion
(`Expr.valueUnder_of_decided`).

All operators but the choice are monotone on any values (`Value.apply_within`). A
choice without a condition takes the value of its first branch when the second has the
same number, and a truth value is the same number as an integer; that its branches
have one sort makes them one value there. So the sorts of values have to be followed
through the expression, too (`Expr.HasSort.sort_of_valueUnder`).
-/

namespace SmtDialogue

/-- Whether every variable of a table that has a value has one of its sort. -/
def SortTable.FitsPartly (t : SortTable) (ρ : String → Option Value) : Prop :=
  ∀ name sort, t.sortOf? name = some sort → ∀ v, ρ name = some v → v.sort = sort

theorem SortTable.Fits.partly {t : SortTable} {τ : Valuation} (fits : t.Fits τ) :
    t.FitsPartly fun x => some (τ x) := fun name sort found v same => by
  cases same
  exact fits name sort found

namespace Value

/-- **What is known stays known**: the first value, if there is one, is the second. -/
def Within (a b : Option Value) : Prop :=
  ∀ v, a = some v → b = some v

variable {vs ws : List (Option Value)} {a b c a' b' c' : Option Value}

/-! ## Operators that decide early -/

/-- Values that are all known are not changed by more values. -/
theorem eq_of_within (more : List.Forall₂ Within vs ws) (known : ∀ a ∈ vs, a.isSome) : ws = vs := by
  induction more with
  | nil => rfl
  | @cons a b vs ws first _ ih =>
    obtain ⟨here, others⟩ := List.forall_mem_cons.1 known
    obtain ⟨v, rfl⟩ := Option.isSome_iff_exists.1 here
    rw [first v rfl, ih others]

theorem mem_of_within (more : List.Forall₂ Within vs ws) {v : Value} (h : some v ∈ vs) :
    some v ∈ ws := by
  induction more with
  | nil => cases h
  | @cons a b vs ws first _ ih =>
    rcases List.mem_cons.1 h with rfl | h
    · rw [first v rfl]
      exact List.mem_cons_self
    · exact List.mem_cons_of_mem _ (ih h)

/-- Conjunction and disjunction keep what they have decided. -/
theorem decideBy_within (x y : Value) (more : List.Forall₂ Within vs ws) :
    Within (decideBy x y vs) (decideBy x y ws) := by
  intro v decided
  unfold decideBy at decided ⊢
  simp only [List.any_eq_true, List.all_eq_true, beq_iff_eq, exists_eq_right] at decided ⊢
  split at decided
  · next one => rw [if_pos (mem_of_within more one), decided]
  · next none =>
    split at decided
    · next all =>
      have same : ws = vs := eq_of_within more fun a ha => by rw [all a ha]; rfl
      rw [same, if_neg none, if_pos all, decided]
    · cases decided

/-- An implication keeps what it has decided. -/
theorem implies_within (first : Within a a') (second : Within b b') :
    Within (implies a b) (implies a' b') := by
  intro v decided
  cases a with
  | none =>
    cases b with
    | none => cases decided
    | some b =>
      rw [second b rfl]
      -- without a premise only a true conclusion decides
      have holds : b = bool true := by
        by_contra other
        simp [implies, other] at decided
      rw [← decided, holds]
      simp [implies]
  | some a =>
    rw [first a rfl]
    cases b with
    | none =>
      have fails : a = bool false := by
        by_contra other
        simp [implies, other] at decided
      rw [← decided, fails]
      simp [implies]
    | some b => rw [second b rfl, decided]

/-- **More values do not change what an operator has made of fewer**, unless it is a
choice. -/
theorem apply_within {op : Op} (noChoice : op ≠ .ite) (more : List.Forall₂ Within vs ws)
    {v : Value} (decided : apply op vs = .ok (some v)) : apply op ws = .ok (some v) := by
  have strictly (needsAll : op ≠ .and ∧ op ≠ .or ∧ op ≠ .implies ∧ op ≠ .ite) :
      apply op ws = .ok (some v) := by
    obtain ⟨us, rfl, -⟩ := (apply_eq_ok_some_iff needsAll).1 decided
    have same : ws = us.map some := eq_of_within more (by simp)
    rw [same, decided]
  cases op with
  | and =>
    rw [apply_and] at decided ⊢
    rw [decideBy_within _ _ more v (Except.ok.inj decided)]
  | or =>
    rw [apply_or] at decided ⊢
    rw [decideBy_within _ _ more v (Except.ok.inj decided)]
  | implies =>
    obtain ⟨a, b, rfl, known⟩ := apply_implies_eq_ok_iff.1 decided
    obtain ⟨a', _, first, rest, rfl⟩ := List.forall₂_cons_left_iff.1 more
    obtain ⟨b', _, second, none, rfl⟩ := List.forall₂_cons_left_iff.1 rest
    obtain rfl := List.forall₂_nil_left_iff.1 none
    exact apply_implies_eq_ok_iff.2 ⟨a', b', rfl, implies_within first second v known⟩
  | ite => exact absurd rfl noChoice
  | _ => exact strictly (by decide)

/-! ## The choice -/

/-- Values of one sort that are the same number are one value. -/
theorem eq_of_sameNumber {x y : Value} (sorts : x.sort = y.sort) (same : x.sameNumber y = true) :
    x = y := by
  have number : x.toInt = y.toInt := beq_iff_eq.1 same
  cases x with
  | bool p =>
    cases y with
    | bool q => cases p <;> cases q <;> first | rfl | cases number
    | int n => cases sorts
  | int m =>
    cases y with
    | bool q => cases sorts
    | int n => exact congrArg int number

/-- A choice has the value of one of its branches. -/
theorem eq_or_eq_of_choose {v : Value} (h : choose c a b = some v) : a = some v ∨ b = some v := by
  unfold choose at h
  split at h
  · split at h
    · exact .inl h
    · exact .inr h
  · split at h
    · split at h
      · exact .inl h
      · cases h
    · cases h

/-- **A choice keeps what it has decided**, when its branches end up with values of one
sort. -/
theorem choose_within (test : Within c c') (first : Within a a') (second : Within b b')
    (sorts : ∀ x y, a' = some x → b' = some y → x.sort = y.sort) :
    Within (choose c a b) (choose c' a' b') := by
  intro v decided
  cases c with
  | some c =>
    rw [test c rfl]
    unfold choose at decided ⊢
    dsimp only at decided ⊢
    split at decided
    · next holds => rw [if_pos holds, first v decided]
    · next fails => rw [if_neg fails, second v decided]
  | none =>
    -- both branches are known, and they are one value, so the condition does not matter
    unfold choose at decided
    dsimp only at decided
    split at decided
    · next x y =>
      split at decided
      · next same =>
        obtain rfl : x = y := eq_of_sameNumber (sorts x y (first x rfl) (second y rfl)) same
        rw [first x rfl, second x rfl, ← decided]
        unfold choose
        cases c' <;> simp [same]
      · cases decided
    · cases decided

/-! ## The sorts of values -/

theorem eq_or_eq_of_decideBy {x y v : Value} (h : decideBy x y vs = some v) : v = x ∨ v = y := by
  unfold decideBy at h
  split at h
  · exact .inl (Option.some.inj h).symm
  · split at h
    · exact .inr (Option.some.inj h).symm
    · cases h

theorem sort_of_implies {v : Value} (h : implies a b = some v) : v.sort = .bool := by
  unfold implies at h
  split at h
  · cases h; rfl
  · split at h
    · cases h; rfl
    · cases h

theorem sort_of_strict {op : Op} {result : SmtSort} (gives : op.resultSort? = some result)
    {us : List Value} {v : Value} (h : strict op us = .ok v) : v.sort = result := by
  unfold strict at h
  split at h <;> cases h <;> cases gives <;> rfl

/-- An operator that fixes the sort of its result gives values of that sort only. -/
theorem sort_of_apply {op : Op} {result : SmtSort} (gives : op.resultSort? = some result)
    {v : Value} (h : apply op vs = .ok (some v)) : v.sort = result := by
  have strictly (needsAll : op ≠ .and ∧ op ≠ .or ∧ op ≠ .implies ∧ op ≠ .ite) :
      v.sort = result := by
    obtain ⟨us, -, made⟩ := (apply_eq_ok_some_iff needsAll).1 h
    exact sort_of_strict gives made
  cases op with
  | identity | const | ite => cases gives
  | and | or =>
    cases gives
    rcases eq_or_eq_of_decideBy (Except.ok.inj h) with rfl | rfl <;> rfl
  | implies =>
    cases gives
    obtain ⟨a, b, -, known⟩ := apply_implies_eq_ok_iff.1 h
    exact sort_of_implies known
  | _ => exact strictly (by decide)

end Value

namespace Expr

variable {table : SortTable} {ρ σ : String → Option Value}

/-- The value of a choice. -/
theorem valueUnder_ite {l : Label} (choice : l.op = .ite) {condition thenBranch elseBranch : Expr}
    {v : Option Value} :
    (node l [condition, thenBranch, elseBranch]).valueUnder ρ = .ok v ↔
      ∃ c a b, condition.valueUnder ρ = .ok c ∧ thenBranch.valueUnder ρ = .ok a ∧
        elseBranch.valueUnder ρ = .ok b ∧ Value.choose c a b = v := by
  rw [valueUnder_inner ρ _ (by rw [choice]; rfl), choice, Outcome.bind_eq_ok_iff]
  simp only [Outcome.mapM_eq_ok_iff]
  constructor
  · rintro ⟨_, _ | ⟨test, _ | ⟨first, _ | ⟨second, ⟨⟩⟩⟩⟩, chosen⟩
    exact ⟨_, _, _, test, first, second, Except.ok.inj chosen⟩
  · rintro ⟨c, a, b, test, first, second, rfl⟩
    exact ⟨[c, a, b], .cons test (.cons first (.cons second .nil)), rfl⟩

/-- **A known value has the sort of the expression**, when the variables have values
of the sorts of the table. -/
theorem HasSort.sort_of_valueUnder (fits : table.FitsPartly ρ) {e : Expr} {sort : SmtSort}
    (built : e.Built) (typed : e.HasSort table sort) {v : Value}
    (known : e.valueUnder ρ = .ok (some v)) : v.sort = sort := by
  induction typed generalizing v with
  | @var l cs sort leaf entered _ =>
    rw [valueUnder_identity ρ cs leaf] at known
    exact fits _ _ entered v (Except.ok.inj known)
  | @const l cs sort leaf own =>
    obtain ⟨w, -, -, sorted, valued⟩ := built.exists_of_const leaf
    rw [valueUnder_const ρ cs leaf, valued] at known
    cases known
    exact Option.some.inj (sorted.symm.trans own)
  | ite choice _ _ _ _ first second =>
    obtain ⟨c, a, b, -, thenValue, elseValue, chosen⟩ := (valueUnder_ite choice).1 known
    rcases Value.eq_or_eq_of_choose chosen with rfl | rfl
    · exact first (built.child (by simp)) thenValue
    · exact second (built.child (by simp)) elseValue
  | @app l cs operand result takes gives _ _ =>
    rw [valueUnder_inner ρ cs (Op.isLeaf_of_operandSort? takes)] at known
    obtain ⟨vs, -, applied⟩ := Outcome.bind_eq_ok_iff.1 known
    exact Value.sort_of_apply gives applied

/-- **More values do not change the value of a well-sorted expression.** -/
theorem HasSort.within (fits : table.FitsPartly σ)
    (more : ∀ x ∈ table.names, Value.Within (ρ x) (σ x)) {e : Expr} {sort : SmtSort}
    (built : e.Built) (typed : e.HasSort table sort) {a b : Option Value}
    (before : e.valueUnder ρ = .ok a) (after : e.valueUnder σ = .ok b) : Value.Within a b := by
  induction typed generalizing a b with
  | @var l cs sort leaf entered _ =>
    rw [valueUnder_identity _ cs leaf] at before after
    cases before
    cases after
    exact more _ (SortTable.mem_names_of_sortOf? entered)
  | @const l cs sort leaf own =>
    rw [valueUnder_const _ cs leaf] at before after
    cases before.symm.trans after
    exact fun _ => id
  | @ite l condition thenBranch elseBranch sort choice _ typedA typedB test first second =>
    obtain ⟨c, x, y, tested, thenValue, elseValue, rfl⟩ := (valueUnder_ite choice).1 before
    obtain ⟨c', x', y', tested', thenValue', elseValue', rfl⟩ := (valueUnder_ite choice).1 after
    have builtC := built.child (c := condition) (by simp)
    have builtA := built.child (c := thenBranch) (by simp)
    have builtB := built.child (c := elseBranch) (by simp)
    refine Value.choose_within (test builtC tested tested') (first builtA thenValue thenValue')
      (second builtB elseValue elseValue') ?_
    rintro p q rfl rfl
    exact (typedA.sort_of_valueUnder fits builtA thenValue').trans
      (typedB.sort_of_valueUnder fits builtB elseValue').symm
  | @app l cs operand result takes gives typed ih =>
    have inner := Op.isLeaf_of_operandSort? takes
    rw [valueUnder_inner _ cs inner, Outcome.bind_eq_ok_iff] at before after
    obtain ⟨vs, values, applied⟩ := before
    obtain ⟨ws, values', applied'⟩ := after
    have above : List.Forall₂ (fun c v => ∀ w, c.valueUnder σ = .ok w → Value.Within v w) cs vs :=
      Outcome.row_imp (Outcome.mapM_eq_ok_iff.1 values) fun c hc _ _ value w value' =>
        ih c hc (built.child hc) value value'
    have row : List.Forall₂ Value.Within vs ws :=
      Outcome.row_trans above.flip (Outcome.mapM_eq_ok_iff.1 values') fun _ _ _ w all => all w
    rintro v rfl
    have noChoice : l.op ≠ .ite := by
      rintro choice
      rw [choice] at takes
      cases takes
    exact Except.ok.inj (applied'.symm.trans (Value.apply_within noChoice row applied))

/-- The children of a well-sorted expression are well-sorted. -/
theorem HasSort.child {l : Label} {cs : List Expr} {sort : SmtSort} (built : (node l cs).Built)
    (typed : (node l cs).HasSort table sort) {c : Expr} (hc : c ∈ cs) :
    ∃ s, c.HasSort table s := by
  cases typed with
  | var leaf =>
    rw [built.children_of_identity leaf] at hc
    cases hc
  | const leaf =>
    obtain ⟨-, none, -⟩ := built.exists_of_const leaf
    rw [none] at hc
    cases hc
  | ite _ test first second =>
    simp only [List.mem_cons, List.not_mem_nil, or_false] at hc
    rcases hc with rfl | rfl | rfl
    · exact ⟨_, test⟩
    · exact ⟨_, first⟩
    · exact ⟨_, second⟩
  | app _ _ parts => exact ⟨_, parts c hc⟩

/-- The nodes of a well-sorted expression are well-sorted. -/
theorem HasSort.of_mem_nodes {e : Expr} {sort : SmtSort} (built : e.Built)
    (typed : e.HasSort table sort) {n : Expr} (hn : n ∈ e.nodes) : ∃ s, n.HasSort table s := by
  induction e using induct generalizing sort with
  | node l cs ih =>
    rw [nodes_node] at hn
    rcases List.mem_cons.1 hn with rfl | hn
    · exact ⟨sort, typed⟩
    · obtain ⟨c, hc, hn⟩ := List.mem_flatMap.1 hn
      obtain ⟨s, typed⟩ := HasSort.child built typed hc
      exact ih c hc (built.child hc) typed hn

/-- **A value that is decided early is final.** When sort inference accepts an
expression and one of its nodes has a value under values for some variables, then it
has this value, of the same sort, under all values of the inferred sorts that extend
these, and under every completion in particular. -/
theorem valueUnder_of_decided {declared : SortTable} {e : Expr} (built : e.Built)
    (accepted : Smt.inferSorts declared e = .ok table) {n : Expr} (hn : n ∈ e.nodes) {v : Value}
    (decided : n.valueUnder ρ = .ok (some v)) :
    (∀ σ, table.FitsPartly σ → (∀ x ∈ table.names, Value.Within (ρ x) (σ x)) →
      n.valueUnder σ = .ok (some v)) ∧
    ∀ τ : Valuation, table.Fits τ → (∀ x ∈ table.names, ∀ w, ρ x = some w → τ x = w) →
      n.valueUnder (fun x => some (τ x)) = .ok (some v) := by
  obtain ⟨sort, typed⟩ := (Smt.inferSorts_spec accepted).sorted.of_mem_nodes built hn
  have final (σ : String → Option Value) (fits : table.FitsPartly σ)
      (more : ∀ x ∈ table.names, Value.Within (ρ x) (σ x)) : n.valueUnder σ = .ok (some v) := by
    have builtN := built.of_mem_nodes n hn
    obtain ⟨w, after⟩ := builtN.exists_valueUnder σ
    rw [after, typed.within fits more builtN decided after v rfl]
  refine ⟨final, fun τ fits more => final _ fits.partly fun x hx w known => ?_⟩
  rw [more x hx w known]

/-- A choice between two truth values, of which the second variable has no declared
sort. -/
def chosen : Expr :=
  node ⟨.ite, "ite_c_p_q", some .bool, none, none⟩
    [var "c" none, var "p" (some .bool), var "q" none]

/-- Both branches are true, and so is the choice before the condition is known and
after. -/
theorem valueUnder_of_decided_chosen :
    let ρ (x : String) : Option Value := if x = "c" then none else some (.bool true)
    let σ (x : String) : Option Value := some (.bool (x != "c"))
    chosen.Built ∧
      Smt.inferSorts [] chosen = .ok [("c", .bool), ("p", .bool), ("q", .bool)] ∧
      chosen.valueUnder ρ = .ok (some (.bool true)) ∧
      chosen.valueUnder σ = .ok (some (.bool true)) := by
  intro ρ σ
  have built : chosen.Built :=
    .of_variables .ite [("c", none), ("p", some .bool), ("q", none)] rfl
  have accepted : Smt.inferSorts [] chosen = .ok [("c", .bool), ("p", .bool), ("q", .bool)] := rfl
  have decided : chosen.valueUnder ρ = .ok (some (.bool true)) := rfl
  refine ⟨built, accepted, decided,
    (valueUnder_of_decided built accepted (mem_nodes_self _) decided).1 σ ?_ ?_⟩
  · intro x s found v same
    cases same
    have entry := SortTable.mem_of_sortOf? found
    simp only [List.mem_cons, List.not_mem_nil, or_false, Prod.mk.injEq] at entry
    rcases entry with ⟨-, rfl⟩ | ⟨-, rfl⟩ | ⟨-, rfl⟩ <;> rfl
  · intro x _ v known
    dsimp only [ρ, σ] at known ⊢
    split at known
    · cases known
    · next other => rw [← known, bne_iff_ne.2 other]

end Expr

end SmtDialogue
