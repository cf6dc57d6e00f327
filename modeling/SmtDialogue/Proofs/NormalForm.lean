import SmtDialogue.Proofs.Calls

/-!
# The normal form of expressions

Every expression that comes out of the calls that make expressions, whichever these are and
however many, is in one normal form at each of its nodes (`Expr.normal_of_obtained`).

The checks of a call look at the operands as they are given, and then an operand with the
same flattening operator gives way to its children, which nobody has looked at. That one
level is enough, and that nothing is amiss with the children that come up, is what the
normal form of the operand says: its children have other operators, and no known sorts but
the one that its operator asks for, which is the operator of the new node as well. So one
node is in normal form when its operands are (`Expr.Normal.of_combineExprs`), and the rest
is an induction over all that has been called.
-/

namespace SmtDialogue

/-! ## One node -/

namespace Expr

/-- **A node in normal form**, as far as the node and its children say. -/
structure Normal (e : Expr) : Prop where
  /-- It has as many children as its operator takes. -/
  arity : e.op.arity.1 ≤ e.children.length ∧ ∀ most ∈ e.op.arity.2, e.children.length ≤ most
  /-- A leaf has none. -/
  leaf : e.op.isLeaf = true → e.children = []
  /-- No child has its operator, if this is one that flattens. -/
  apart : e.op.isFlattening = true → ∀ c ∈ e.children, c.op ≠ e.op
  /-- Its name is made of the operator's tag and the names of its children, sorted if their
  order does not matter. -/
  called : e.op.isLeaf = false → ∃ names : List String, names.Perm (e.children.map name) ∧
    (e.op.isCommutative = true → names.Pairwise (· ≤ ·)) ∧
    (e.op.isCommutative = false → names = e.children.map name) ∧
    e.name = e.op.tag ++ "_" ++ "_".intercalate names
  /-- A choice records the sort that is known of a branch, so of both if both are known. -/
  choice : e.op = .ite → ∀ condition first second, e.children = [condition, first, second] →
    ∀ s, e.sort = some s ↔ first.resultSort = some s ∨ second.resultSort = some s
  /-- No child has a known sort but the one that is asked for. -/
  asked : ∀ sort ∈ e.op.operandSort?, ∀ c ∈ e.children, ∀ known ∈ c.resultSort, known = sort
  /-- No condition has a known sort but that of truth values. -/
  condition : e.op = .ite → ∀ c ∈ e.children.head?, ∀ known ∈ c.resultSort, known = .bool

/-- The name that is derived for a node. -/
theorem exists_names (op : Op) (cs : List Expr) : ∃ names : List String,
    names.Perm (cs.map name) ∧ (op.isCommutative = true → names.Pairwise (· ≤ ·)) ∧
      (op.isCommutative = false → names = cs.map name) ∧
      derivedName op cs = op.tag ++ "_" ++ "_".intercalate names := by
  unfold derivedName
  cases commutes : op.isCommutative with
  | true =>
    refine ⟨_, List.mergeSort_perm _ _, fun _ => ?_, nofun, rfl⟩
    exact (Text.pairwise_mergeSort _).imp fun le => of_decide_eq_true le
  | false => exact ⟨_, .refl _, nofun, fun _ => rfl, rfl⟩

namespace Normal

/-- A leaf is in normal form. -/
theorem of_leaf {l : Label} (leaf : l.op.isLeaf = true) : (node l []).Normal where
  arity := by
    refine ⟨?_, fun _ _ => Nat.zero_le _⟩
    show l.op.arity.1 ≤ 0
    revert leaf
    cases l.op <;> decide
  leaf _ := rfl
  apart _ := nofun
  called inner := absurd leaf (ne_true_of_eq_false inner)
  choice _ := nofun
  asked _ _ := nofun
  condition _ := nofun

/-- What is stored at a node does not matter. -/
theorem storing {l : Label} {cs : List Expr} (h : (node l cs).Normal) (value : Option Value)
    (cell : Option Nat) : (node { l with value, cell } cs).Normal :=
  ⟨h.arity, h.leaf, h.apart, h.called, h.choice, h.asked, h.condition⟩

/-- **A node over operands in normal form is in normal form.** Its children have passed the
checks of this call themselves, or those of the call that made the operand whose place they
take. -/
theorem of_combineExprs {op : Op} {operands : List Expr} {e : Expr}
    (made : combineExprs op operands = .ok e) (inner : op.isLeaf = false)
    (parts : ∀ o ∈ operands, o.Normal) : e.Normal := by
  obtain ⟨l, cs⟩ := e
  obtain ⟨takes, sort, sorts, rfl, rfl⟩ := combineExprs_eq_ok_iff.1 made
  constructor
  case arity =>
    refine Op.accepts_iff.1 ?_
    show op.accepts (flatten op operands).length = true
    cases flattens : op.isFlattening with
    | false => rwa [flatten_of_not_isFlattening flattens]
    | true =>
      rw [accepts_iff_of_isFlattening flattens] at takes ⊢
      refine List.length_pos_iff.2 (flatten_ne_nil (List.length_pos_iff.1 takes) fun o ho same => ?_)
      have some := Op.accepts_iff.2 (parts o ho).arity
      rw [same, accepts_iff_of_isFlattening flattens] at some
      exact List.length_pos_iff.1 some
  case leaf => exact fun leaf => absurd leaf (ne_true_of_eq_false inner)
  case apart =>
    intro flattens c hc
    rcases mem_flatten hc with ⟨-, other⟩ | ⟨o, ho, same, hc⟩
    · exact other flattens
    · have apart := (parts o ho).apart (by rw [same]; exact flattens) c hc
      rwa [same] at apart
  case called => exact fun _ => exists_names op _
  case choice =>
    rintro rfl condition first second children s
    have three : operands = [condition, first, second] := children
    subst three
    obtain ⟨⟨⟩, -, branches⟩ := Outcome.bind_eq_ok_iff.1 sorts
    obtain ⟨known, known', either⟩ := branchSort_spec branches
    exact ⟨either s, fun h => h.elim (known s) (known' s)⟩
  case asked =>
    intro sort takes c hc
    have passes := ((checkSorts_eq_ok_iff takes).1 sorts).2
    rcases mem_flatten hc with ⟨hc, -⟩ | ⟨o, ho, same, hc⟩
    · exact checkSort_eq_ok_iff.1 (passes c hc)
    · exact (parts o ho).asked sort (by rw [same]; exact takes) c hc
  case condition =>
    rintro rfl c first
    obtain ⟨l, t, f, rfl⟩ := List.length_eq_three.1
      (Nat.le_antisymm ((Op.accepts_iff.1 takes).2 3 rfl) (Op.accepts_iff.1 takes).1)
    obtain ⟨⟨⟩, passes, -⟩ := Outcome.bind_eq_ok_iff.1 sorts
    cases first
    exact checkSort_eq_ok_iff.1 passes

end Normal

/-- **Expressions that are built are in normal form**, at the root and so at every node. -/
theorem Built.normal {e : Expr} (built : e.Built) : e.Normal := by
  induction built with
  | var name sort value cell => exact .of_leaf rfl
  | const v cell => cases v <;> exact .of_leaf rfl
  | compound made inner _ value cell parts =>
    exact (Normal.of_combineExprs made inner parts).storing value cell

/-! ## Every expression -/

/-- **Builder normal form.** Every node of an expression that callers obtain is in normal
form: it has as many children as its operator takes, and no child of its own flattening
operator; its name is made of those of its children; a choice records the known sort of its
branches; and no operand has another sort than the one that is asked for. -/
theorem normal_of_obtained {e : Expr} (obtained : e.Obtained) : ∀ n ∈ e.nodes, n.Normal :=
  fun n hn => (obtained.toBuilt.of_mem_nodes n hn).normal

/-- A choice between a number and a literal. -/
def capped : Expr :=
  .node ⟨.ite, "ite_c_n_5", some .int, none, none⟩
    [.var "c" none, .var "n" (some .int), .constant (.int 5)]

/-- The sum of a sum and a choice. -/
def summed : Expr :=
  let parts := [.var "n" (some .int), .constant (.int 1), capped]
  .node ⟨.add, derivedName .add parts, none, none, none⟩ parts

theorem obtained_summed : summed.Obtained := by
  let n := var "n" (some .int)
  let c := var "c" none
  let inner := [n, constant (.int 1)]
  let sum := node ⟨.add, derivedName .add inner, none, none, none⟩ inner
  have named : Naming.ints [.text "n"] {} = (.ok (.expr n), { names := ["n"] }) := rfl
  have named' : Naming.untyped [.text "c"] {} = (.ok (.expr c), { names := ["c"] }) := rfl
  have makes : Operator.add.apply (.expr n) (.int 1) = .ok sum := rfl
  have chooses : Builder.ite.build [.expr c, .expr n, .int 5] = .ok capped := rfl
  have joins : Builder.add.build [.list [.expr sum, .expr capped]] = .ok summed := rfl
  have number : n.Obtained := .named (by simp) named (List.mem_singleton_self n)
  have test : c.Obtained := .named (by simp) named' (List.mem_singleton_self c)
  have first : sum.Obtained := .between .add makes (List.forall_mem_singleton.2 number)
  have second : capped.Obtained := .built .ite chooses
    (List.forall_mem_cons.2 ⟨test, List.forall_mem_singleton.2 number⟩)
  exact .built .add joins (List.forall_mem_cons.2 ⟨first, List.forall_mem_singleton.2 second⟩)

/-- The inner sum has given way. -/
theorem normal_of_obtained_summed :
    summed.Obtained ∧ ∀ c ∈ summed.children, c.op ≠ .add := by
  have normal := normal_of_obtained obtained_summed
  exact ⟨obtained_summed, (normal _ (mem_nodes_self _)).apart rfl⟩

end Expr

end SmtDialogue
