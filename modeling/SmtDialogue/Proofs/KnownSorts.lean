import SmtDialogue.Proofs.Inference

/-!
# The two checks of sorts agree

Sorts are checked twice. When a node is made, the sorts that its operands are known
to have are checked from below, and what is not known yet passes; a choice keeps the
sort of its branches. When an expression is asserted, the sorts of all places are
checked from above, by what is expected of each.

The first check is sound for the second: a sort that is known is the only one that an
expression can have (`HasSort.eq_of_resultSort`), so nothing is refused that could
have been given sorts at all. And the second check finds nothing new when there is
nothing left to find: an expression whose variables all carry their sorts has a known
sort, and has it in every table that agrees with its variables
(`Built.exists_hasSort_of_sorted`). Both go by the operands that a node was made of,
which may have given way to their own (`hasSort_flatten`).
-/

namespace SmtDialogue

namespace SortTable

theorem mem_foldl_addName {x : String} {known xs : List String} :
    x ∈ xs.foldl addName known ↔ x ∈ known ∨ x ∈ xs := by
  induction xs generalizing known with
  | nil => simp
  | cons y xs ih =>
    have one : x ∈ addName known y ↔ x ∈ known ∨ x = y := by
      unfold addName
      split
      · next there => exact ⟨.inl, fun h => h.elim id fun same => same ▸ there⟩
      · simp
    rw [List.foldl_cons, ih, one, List.mem_cons, or_assoc]

/-- A table of names with the sorts that some function gives them. -/
theorem sortOf?_map {x : String} {xs : List String} (h : x ∈ xs) (sorts : String → SmtSort) :
    sortOf? (xs.map fun x => (x, sorts x)) x = some (sorts x) := by
  induction xs with
  | nil => cases h
  | cons y xs ih =>
    rw [List.map_cons, sortOf?_cons]
    split
    · next same => rw [same]
    · next other => exact ih ((List.mem_cons.1 h).resolve_left other)

end SortTable

namespace Expr

variable {table : SortTable}

/-- **Flattening does not change sorts**: an operand that gives way to its own has the
sort that is asked exactly when all of these have. -/
theorem hasSort_flatten {op : Op} {operand : SmtSort} (takes : op.operandSort? = some operand)
    (es : List Expr) :
    (∀ c ∈ flatten op es, c.HasSort table operand) ↔ ∀ e ∈ es, e.HasSort table operand := by
  cases flattening : op.isFlattening with
  | false => rw [flatten_of_not_isFlattening flattening]
  | true =>
    -- a flattening operator gives the sort that it takes
    have gives : op.resultSort? = some operand := by
      cases op <;> first | exact takes | cases flattening
    have one (e : Expr) : (∀ c ∈ (if e.op == op then e.children else [e]),
        c.HasSort table operand) ↔ e.HasSort table operand := by
      split
      · next same =>
        obtain ⟨l, cs⟩ := e
        obtain rfl : l.op = op := beq_iff_eq.1 same
        exact ⟨.app takes gives, fun typed => typed.operand takes⟩
      · exact List.forall_mem_singleton
    simp only [flatten, flattening, if_true, List.forall_mem_flatMap, one]

/-- A node is sorted over its operands as it is over its children. -/
theorem hasSort_node_flatten {l : Label} {sort : SmtSort} (es : List Expr) :
    (node l (flatten l.op es)).HasSort table sort ↔ (node l es).HasSort table sort := by
  cases takes : l.op.operandSort? with
  | some operand =>
    have replaced {cs ds : List Expr} (typed : (node l cs).HasSort table sort)
        (parts : ∀ d ∈ ds, d.HasSort table operand) : (node l ds).HasSort table sort := by
      cases typed with
      | var other | const other | ite other =>
        rw [other] at takes
        cases takes
      | app _ gives => exact .app takes gives parts
    exact ⟨fun typed => replaced typed ((hasSort_flatten takes es).1 (typed.operand takes)),
      fun typed => replaced typed ((hasSort_flatten takes es).2 (typed.operand takes))⟩
  | none =>
    have whole : l.op.isFlattening = false := by
      cases hop : l.op <;> rw [hop] at takes <;> first | rfl | cases takes
    rw [flatten_of_not_isFlattening whole]

/-! ## What the checks of operands say -/

/-- An operand passes when no other sort of it is known. -/
theorem checkSort_eq_ok_iff {op : Op} {expected : SmtSort} {e : Expr} :
    checkSort op expected e = .ok () ↔ ∀ actual ∈ e.resultSort, actual = expected := by
  unfold checkSort
  cases e.resultSort with
  | none => simp
  | some actual => simp

/-- An operand that is refused has another sort. -/
theorem exists_of_checkSort {op : Op} {expected : SmtSort} {e : Expr} {cause : BuildError}
    (h : checkSort op expected e = .error cause) :
    ∃ actual, e.resultSort = some actual ∧ actual ≠ expected := by
  by_contra none
  have passes : ∀ actual ∈ e.resultSort, actual = expected := fun actual known => by
    by_contra other
    exact none ⟨actual, known, other⟩
  rw [checkSort_eq_ok_iff.2 passes] at h
  cases h

/-- The sort of a choice is that of a branch, and of both when both are known. -/
theorem branchSort_spec {first second : Expr} {sort : Option SmtSort}
    (h : branchSort first second = .ok sort) :
    (∀ s ∈ first.resultSort, sort = some s) ∧ (∀ s ∈ second.resultSort, sort = some s) ∧
      ∀ s ∈ sort, first.resultSort = some s ∨ second.resultSort = some s := by
  unfold branchSort at h
  cases hf : first.resultSort <;> cases hs : second.resultSort <;> rw [hf, hs] at h <;>
    dsimp only at h
  · cases h
    simp
  · cases h
    simp
  · cases h
    simp
  · split at h
    · next same =>
      cases h
      simp [beq_iff_eq.1 same]
    · cases h

/-- Branches that are refused have different sorts. -/
theorem exists_of_branchSort {first second : Expr} {cause : BuildError}
    (h : branchSort first second = .error cause) :
    ∃ s t, first.resultSort = some s ∧ second.resultSort = some t ∧ s ≠ t := by
  unfold branchSort at h
  cases hf : first.resultSort <;> cases hs : second.resultSort <;> rw [hf, hs] at h <;>
    dsimp only at h
  · cases h
  · cases h
  · cases h
  · split at h
    · cases h
    · next other => exact ⟨_, _, rfl, rfl, fun same => other (beq_iff_eq.2 same)⟩

/-- A choice has been made of its condition and its branches. -/
theorem Built.branchSort {l : Label} {condition thenBranch elseBranch : Expr}
    (built : (node l [condition, thenBranch, elseBranch]).Built) (choice : l.op = .ite) :
    branchSort thenBranch elseBranch = .ok l.sort := by
  obtain ⟨operands, -, -, sorts, kept, -⟩ := built.exists_operands (by rw [choice]; rfl)
  rw [choice] at sorts kept
  rw [flatten_of_not_isFlattening rfl] at kept
  subst kept
  obtain ⟨⟨⟩, -, branches⟩ := Outcome.bind_eq_ok_iff.1 sorts
  exact branches

/-! ## Sorts that are known -/

theorem resultSort_node {l : Label} {cs : List Expr} :
    (node l cs).resultSort = l.op.resultSort?.or l.sort := rfl

/-- **A sort that is known is the only one** that an expression can have. -/
theorem HasSort.eq_of_resultSort {e : Expr} {sort actual : SmtSort} (built : e.Built)
    (typed : e.HasSort table sort) (known : e.resultSort = some actual) : actual = sort := by
  induction typed generalizing actual with
  | @var l cs sort leaf _ own =>
    rw [resultSort_node, leaf] at known
    exact own _ known
  | @const l cs sort leaf own =>
    rw [resultSort_node, leaf] at known
    exact Option.some.inj (known.symm.trans own)
  | @ite l condition thenBranch elseBranch sort choice _ _ _ _ first second =>
    rw [resultSort_node, choice] at known
    obtain known | known := (branchSort_spec (built.branchSort choice)).2.2 actual known
    · exact first (built.child (by simp)) known
    · exact second (built.child (by simp)) known
  | @app l cs operand result takes gives =>
    rw [resultSort_node, gives] at known
    exact (Option.some.inj known).symm

/-! ## Operands that are refused -/

/-- **Operands are only refused for their sorts when no table sorts them.** -/
theorem not_hasSort_of_checkSorts {l : Label} {es : List Expr} {cause : BuildError}
    (inner : l.op.isLeaf = false) (built : ∀ e ∈ es, e.Built)
    (refused : checkSorts l.op es = .error cause) (sort : SmtSort) :
    ¬ (node l es).HasSort table sort := by
  intro typed
  have passes {e : Expr} {expected : SmtSort} (he : e ∈ es) (typed : e.HasSort table expected) :
      checkSort l.op expected e ≠ .error cause := fun refused => by
    obtain ⟨actual, known, other⟩ := exists_of_checkSort refused
    exact other (typed.eq_of_resultSort (built e he) known)
  unfold checkSorts at refused
  cases typed with
  | var leaf | const leaf =>
    rw [leaf] at inner
    cases inner
  | ite choice test first second =>
    rw [choice] at refused passes
    rcases Outcome.bind_eq_error_iff.1 refused with refused | ⟨_, -, refused⟩
    · exact passes (by simp) test refused
    · obtain ⟨s, t, known, known', other⟩ := exists_of_branchSort refused
      have one := first.eq_of_resultSort (built _ (by simp)) known
      have two := second.eq_of_resultSort (built _ (by simp)) known'
      exact other (one.trans two.symm)
  | app takes _ parts =>
    rw [takes] at refused
    rcases Outcome.bind_eq_error_iff.1 refused with refused | ⟨_, -, refused⟩
    · obtain ⟨e, he, refused⟩ := Outcome.exists_of_forM_eq_error refused
      exact passes he (parts e he) refused
    · cases refused

/-- A node that is refused for a sort is made of operands that are, none of which is a
literal that cannot be lifted. -/
theorem checkSorts_of_combine {op : Op} {operands : List Operand} {es : List Expr}
    (lifted : operands.mapM lift = .ok es) {cause : BuildError}
    (refused : combine op operands = .error cause) (sorts : cause.kind = .typeMismatch) :
    op.isLeaf = false ∧ checkSorts op es = .error cause := by
  unfold combine at refused
  cases inner : op.isLeaf with
  | true =>
    rw [inner, if_pos rfl] at refused
    cases refused
    cases sorts
  | false =>
    rw [inner, if_neg Bool.false_ne_true, lifted, Outcome.bind_ok] at refused
    unfold combineExprs at refused
    cases takes : op.accepts es.length with
    | false =>
      simp only [takes] at refused
      cases refused
      cases sorts
    | true =>
      simp only [takes] at refused
      rcases Outcome.bind_eq_error_iff.1 refused with refused | ⟨_, -, refused⟩
      · exact ⟨rfl, refused⟩
      · cases refused

/-! ## Expressions without an open sort -/

/-- Whether every variable of an expression carries a sort, the one that a table gives
it. -/
def Settled (table : SortTable) (e : Expr) : Prop :=
  ∀ n ∈ e.nodes, n.isVariable = true → ∃ s, n.sort = some s ∧ table.sortOf? n.name = some s

/-- The variables of the operands of a node are variables of the node. -/
theorem Settled.operand {l : Label} {es : List Expr} (inner : l.op.isLeaf = false)
    (settled : (node l (flatten l.op es)).Settled table) {e : Expr} (he : e ∈ es) :
    e.Settled table := by
  intro n hn isVar
  refine settled n ?_ isVar
  rw [nodes_node]
  refine List.mem_cons_of_mem _ (List.mem_flatMap.2 ?_)
  unfold flatten
  split
  · by_cases same : e.op = l.op
    · -- the operand is no variable itself, and its children have taken its place
      obtain ⟨l', cs⟩ := e
      rw [nodes_node] at hn
      rcases List.mem_cons.1 hn with rfl | hn
      · rw [isVariable, same, beq_iff_eq] at isVar
        rw [isVar] at inner
        cases inner
      · obtain ⟨c, hc, hn⟩ := List.mem_flatMap.1 hn
        exact ⟨c, List.mem_flatMap.2 ⟨_, he, by rwa [if_pos (beq_iff_eq.2 same)]⟩, hn⟩
    · refine ⟨e, List.mem_flatMap.2 ⟨e, he, ?_⟩, hn⟩
      rw [if_neg (mt beq_iff_eq.1 same)]
      exact List.mem_singleton_self e
  · exact ⟨e, he, hn⟩

/-- **An expression without an open sort** has the sort that is known of it. -/
theorem Built.exists_hasSort {e : Expr} (built : e.Built) (settled : e.Settled table) :
    ∃ sort, e.resultSort = some sort ∧ e.HasSort table sort := by
  induction built with
  | var name sort value cell =>
    obtain ⟨s, own, known⟩ := settled _ (mem_nodes_self _) rfl
    obtain rfl : sort = some s := own
    exact ⟨s, rfl, .var rfl known fun t ht => (Option.some.inj ht).symm⟩
  | const v cell =>
    cases v
    · exact ⟨.bool, rfl, .const rfl rfl⟩
    · exact ⟨.int, rfl, .const rfl rfl⟩
  | @compound op operands l cs made inner parts value cell each =>
    obtain ⟨takes, sort, sorts, rfl, rfl⟩ := combineExprs_eq_ok_iff.1 made
    have each {e : Expr} (he : e ∈ operands) :
        ∃ sort, e.resultSort = some sort ∧ e.HasSort table sort :=
      each e he (settled.operand inner he)
    have passed {e : Expr} {expected : SmtSort} (he : e ∈ operands)
        (passes : checkSort op expected e = .ok ()) : e.HasSort table expected := by
      obtain ⟨s, known, typed⟩ := each he
      rwa [checkSort_eq_ok_iff.1 passes s known] at typed
    rw [resultSort_node]
    rcases op.sorted_cases with rfl | rfl | rfl | ⟨operand, result, asks, gives⟩
    · cases inner
    · cases inner
    · rw [Op.accepts_iff] at takes
      obtain ⟨c, t, f, rfl⟩ := List.length_eq_three.1 (Nat.le_antisymm (takes.2 3 rfl) takes.1)
      obtain ⟨⟨⟩, passes, branches⟩ := Outcome.bind_eq_ok_iff.1 sorts
      obtain ⟨s, first, typed⟩ := each (e := t) (by simp)
      obtain ⟨s', second, typed'⟩ := each (e := f) (by simp)
      have known := (branchSort_spec branches).1 s first
      have known' := (branchSort_spec branches).2.1 s' second
      obtain rfl := Option.some.inj (known.symm.trans known')
      exact ⟨s, known, .ite rfl (passed (by simp) passes) typed typed'⟩
    · unfold checkSorts at sorts
      rw [asks] at sorts
      obtain ⟨⟨⟩, passes, -⟩ := Outcome.bind_eq_ok_iff.1 sorts
      refine ⟨result, by rw [gives]; rfl, .app asks gives ((hasSort_flatten asks operands).2 ?_)⟩
      exact fun e he => passed he (Outcome.forM_eq_ok_iff.1 passes e he)

end Expr

/-! ## Agreement -/

namespace Smt

open SmtDialogue.Expr

/-- An expression that is a truth value by every table that gives its variables the sorts
of a function, with which the declarations made before agree, is asserted at these
sorts. -/
theorem inferSorts_of_sorts {declared : SortTable} {e : Expr} (sorts : String → SmtSort)
    (built : e.Built)
    (typed : ∀ table : SortTable, (∀ x ∈ e.variableNames, table.sortOf? x = some (sorts x)) →
      e.HasSort table .bool)
    (agree : ∀ x ∈ e.variableNames, ∀ s ∈ declared.sortOf? x, s = sorts x) :
    inferSorts declared e = .ok (e.firstNames.map fun x => (x, sorts x)) := by
  obtain ⟨table, within, known⟩ : ∃ table : SortTable, declared.Within table ∧
      ∀ x ∈ e.variableNames, table.sortOf? x = some (sorts x) := by
    refine ⟨declared ++ e.variableNames.map fun x => (x, sorts x),
      SortTable.within_append _ _, fun x hx => ?_⟩
    rw [SortTable.sortOf?_append, SortTable.sortOf?_map hx]
    cases there : declared.sortOf? x with
    | none => rfl
    | some s => rw [agree x hx s there]; rfl
  rw [inferSorts_of_sortedBy built ⟨within, typed table known⟩, SortTable.restrict,
    ← List.filterMap_eq_map]
  refine congrArg Except.ok (List.filterMap_congr fun x hx => ?_)
  rw [firstNames_eq_foldl, SortTable.mem_foldl_addName] at hx
  rw [known x (hx.resolve_left List.not_mem_nil)]
  rfl

/-- An expression whose variables carry the sorts of a function, with which the
declarations made before agree, is asserted at these sorts. -/
theorem inferSorts_of_carried {declared : SortTable} {e : Expr} {sorts : String → SmtSort}
    (built : e.Built) (truth : e.resultSort = some .bool)
    (carried : ∀ n ∈ e.nodes, n.isVariable = true → n.sort = some (sorts n.name))
    (agree : ∀ x ∈ e.variableNames, ∀ s ∈ declared.sortOf? x, s = sorts x) :
    inferSorts declared e = .ok (e.firstNames.map fun x => (x, sorts x)) := by
  refine inferSorts_of_sorts sorts built (fun table known => ?_) agree
  have settled : e.Settled table := fun n hn isVar =>
    ⟨_, carried n hn isVar, known _ (List.mem_map.2 ⟨n, List.mem_filter.2 ⟨hn, isVar⟩, rfl⟩)⟩
  obtain ⟨sort, own, typed⟩ := built.exists_hasSort settled
  obtain rfl := Option.some.inj (truth.symm.trans own)
  exact typed

/-- **The checks of sorts agree.** When an operator refuses expressions that builders
make for their sorts, no table sorts their application, neither to them nor to what
they give way to. When the variables of an expression that builders make all carry a
sort, each name one, and the expression is a truth value by what is known of it, then
it can be asserted, unless a constant has been declared at another sort: the sorts
that are found are those that are carried. -/
theorem sort_checks_agree :
    (∀ (op : Op) (operands : List Operand) (es : List Expr) (cause : BuildError),
      operands.mapM lift = .ok es → (∀ e ∈ es, e.Built) →
      combine op operands = .error cause → cause.kind = .typeMismatch →
      ∀ (l : Label) (table : SortTable) (sort : SmtSort), l.op = op →
        ¬ (node l es).HasSort table sort ∧ ¬ (node l (flatten op es)).HasSort table sort) ∧
    ∀ (declared : SortTable) (e : Expr) (sorts : String → SmtSort),
      e.Built → e.resultSort = some .bool →
      (∀ n ∈ e.nodes, n.isVariable = true → n.sort = some (sorts n.name)) →
      (∀ x ∈ e.variableNames, ∀ s ∈ declared.sortOf? x, s = sorts x) →
      inferSorts declared e = .ok (e.firstNames.map fun x => (x, sorts x)) := by
  constructor
  · rintro op operands es cause lifted built refused kind l table sort rfl
    obtain ⟨inner, refused⟩ := checkSorts_of_combine lifted refused kind
    have never : ¬ (node l es).HasSort table sort :=
      not_hasSort_of_checkSorts inner built refused sort
    exact ⟨never, mt (hasSort_node_flatten es).1 never⟩
  · intro declared e sorts built truth carried agree
    exact inferSorts_of_carried built truth carried agree

/-- A comparison of a choice whose variables all carry their sorts. -/
def choiceAtLeast : Expr :=
  .node ⟨.ge, "ge_ite_c_n_5_m", none, none, none⟩
    [.node ⟨.ite, "ite_c_n_5", some .int, none, none⟩
      [.var "c" (some .bool), .var "n" (some .int), .constant (.int 5)],
     .var "m" (some .int)]

theorem built_choiceAtLeast : choiceAtLeast.Built := by
  have choice : combineExprs .ite
        [.var "c" (some .bool), .var "n" (some .int), .constant (.int 5)] =
      .ok (.node ⟨.ite, "ite_c_n_5", some .int, none, none⟩
        [.var "c" (some .bool), .var "n" (some .int), .constant (.int 5)]) := rfl
  have whole : combineExprs .ge choiceAtLeast.children = .ok choiceAtLeast := rfl
  refine .of_combineExprs whole rfl (List.forall_mem_cons.2 ⟨?_, List.forall_mem_singleton.2 ?_⟩)
  · refine .of_combineExprs choice rfl (List.forall_mem_cons.2 ⟨.var _ _ _ _,
      List.forall_mem_cons.2 ⟨.var _ _ _ _, List.forall_mem_singleton.2 (.const (.int 5) none)⟩⟩)
  · exact .var _ _ _ _

/-- It is no summand, and it can be asserted after one of its constants has been
declared. -/
theorem sort_checks_agree_choiceAtLeast :
    choiceAtLeast.Built ∧
    combine .add [.expr choiceAtLeast, .int 1] =
      .error (.operandSort .add .int "ge_ite_c_n_5_m" .bool) ∧
    (∀ table sort, ¬ (node ⟨.add, "", none, none, none⟩
      [choiceAtLeast, .constant (.int 1)]).HasSort table sort) ∧
    inferSorts [("m", .int)] choiceAtLeast = .ok [("c", .bool), ("n", .int), ("m", .int)] := by
  have operands : ∀ e ∈ [choiceAtLeast, .constant (.int 1)], e.Built :=
    List.forall_mem_cons.2 ⟨built_choiceAtLeast,
      List.forall_mem_singleton.2 (.const (.int 1) none)⟩
  have refused : combine .add [.expr choiceAtLeast, .int 1] =
      .error (.operandSort .add .int "ge_ite_c_n_5_m" .bool) := rfl
  refine ⟨built_choiceAtLeast, refused, fun table sort => ?_, ?_⟩
  · exact (sort_checks_agree.1 .add _ _ _ rfl operands refused rfl _ table sort rfl).1
  · exact sort_checks_agree.2 _ _ (fun x => if x = "c" then .bool else .int)
      built_choiceAtLeast rfl (by decide) (by decide)

end Smt

end SmtDialogue
