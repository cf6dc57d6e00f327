import SmtDialogue.Expr.Builders
import SmtDialogue.Proofs.Outcome

/-!
# Expressions that builders make

An expression written by a caller is a variable, a literal, or an operator
node over expressions written before. `Built` is this closure, and everything
that is proved of a written expression goes through three facts about its
nodes: the children of a built node are built (`Built.child`), an operator node
has as many children as its operator takes, also after operands with the same
operator have given way to their own (`Built.accepts`), and its name is the one
derived from the names of its children (`Built.name_eq`).

Values and cells are left open. A value may be stored at a variable or at an
operator node at any time, and a node may be kept in a graph or not; neither
changes what the constructors have done. The value of a literal is the one it
was made with.
-/

namespace SmtDialogue

namespace Expr

/-- **Expressions made by the constructors**, with any values stored at
variables and operator nodes, and kept in any cells. -/
inductive Built : Expr → Prop
  | var (name : String) (sort : Option SmtSort) (value : Option Value) (cell : Option Nat) :
    Built (node ⟨.identity, name, sort, value, cell⟩ [])
  | const (v : Value) (cell : Option Nat) : Built (node { (constant v).label with cell } [])
  | compound {op : Op} {operands : List Expr} {l : Label} {cs : List Expr}
    (made : combineExprs op operands = .ok (node l cs)) (inner : op.isLeaf = false)
    (parts : ∀ e ∈ operands, Built e) (value : Option Value) (cell : Option Nat) :
    Built (node { l with value, cell } cs)

/-! ## What an operator node is made of -/

/-- An operator node is made when the number of operands and their known sorts
pass the checks, and is then determined by its operands. -/
theorem combineExprs_eq_ok_iff {op : Op} {operands : List Expr} {l : Label} {cs : List Expr} :
    combineExprs op operands = .ok (node l cs) ↔
      op.accepts operands.length = true ∧ ∃ sort, checkSorts op operands = .ok sort ∧
        cs = flatten op operands ∧ l = ⟨op, derivedName op cs, sort, none, none⟩ := by
  unfold combineExprs
  cases h : op.accepts operands.length with
  | false => simp [throw, throwThe, MonadExceptOf.throw]
  | true =>
    show (checkSorts op operands >>= fun sort => _) = _ ↔ _
    rw [Outcome.bind_eq_ok_iff]
    constructor
    · rintro ⟨sort, hs, made⟩
      cases made
      exact ⟨rfl, sort, hs, rfl, rfl⟩
    · rintro ⟨-, sort, hs, rfl, rfl⟩
      exact ⟨sort, hs, rfl⟩

/-- The children of a node are operands, with other operators if its own flattens, or
children of operands with its operator. -/
theorem mem_flatten {op : Op} {operands : List Expr} {c : Expr} (h : c ∈ flatten op operands) :
    c ∈ operands ∧ (op.isFlattening = true → c.op ≠ op) ∨
      ∃ e ∈ operands, e.op = op ∧ c ∈ e.children := by
  unfold flatten at h
  split at h
  · obtain ⟨e, he, hc⟩ := List.mem_flatMap.1 h
    split at hc
    · next same => exact .inr ⟨e, he, beq_iff_eq.1 same, hc⟩
    · next other =>
      obtain rfl := List.mem_singleton.1 hc
      exact .inl ⟨he, fun _ same => other (beq_iff_eq.2 same)⟩
  · next plain => exact .inl ⟨h, fun flattens => absurd flattens plain⟩

/-- Operands leave a child at least, if those with the same operator have any. -/
theorem flatten_ne_nil {op : Op} {operands : List Expr} (any : operands ≠ [])
    (parts : ∀ e ∈ operands, e.op = op → e.children ≠ []) : flatten op operands ≠ [] := by
  obtain ⟨e, he⟩ := List.exists_mem_of_ne_nil operands any
  intro none
  unfold flatten at none
  split at none
  · have gone := List.flatMap_eq_nil_iff.1 none e he
    split at gone
    · next same => exact parts e he (beq_iff_eq.1 same) gone
    · cases gone
  · exact any none

/-- Without operands of the same flattening operator the children are the
operands. -/
theorem flatten_of_not_isFlattening {op : Op} (h : op.isFlattening = false)
    (operands : List Expr) : flatten op operands = operands := by
  simp [flatten, h]

/-- Operands with other operators stay as they are. -/
theorem flatten_of_apart {op : Op} {operands : List Expr} (apart : ∀ e ∈ operands, e.op ≠ op) :
    flatten op operands = operands := by
  unfold flatten
  split
  · induction operands with
    | nil => rfl
    | cons e operands ih =>
      rw [List.flatMap_cons, if_neg (mt beq_iff_eq.1 (apart e List.mem_cons_self)),
        ih fun c hc => apart c (List.mem_cons_of_mem _ hc)]
      rfl
  · rfl

namespace Built

/-- The children of a built expression are built. -/
theorem child {l : Label} {cs : List Expr} (h : Built (node l cs)) {c : Expr} (hc : c ∈ cs) :
    Built c := by
  have all : ∀ e, Built e → ∀ c ∈ e.children, Built c := by
    intro e he
    induction he with
    | var => exact fun _ h => nomatch h
    | const => exact fun _ h => nomatch h
    | compound made _ parts _ _ ih =>
      obtain ⟨-, _, -, rfl, -⟩ := combineExprs_eq_ok_iff.1 made
      intro c hc
      rcases mem_flatten hc with ⟨hc, -⟩ | ⟨e, he, -, hc⟩
      · exact parts c hc
      · exact ih e he c hc
  exact all _ h c hc

/-- A literal carries the value it was made with. -/
theorem exists_of_const {l : Label} {cs : List Expr} (h : Built (node l cs))
    (leaf : l.op = .const) :
    ∃ v : Value, cs = [] ∧ l.name = (constant v).name ∧ l.sort = some v.sort ∧
      l.value = some v := by
  cases h with
  | var => cases leaf
  | const v => cases v <;> exact ⟨_, rfl, rfl, rfl, rfl⟩
  | compound made inner =>
    obtain ⟨-, _, -, -, rfl⟩ := combineExprs_eq_ok_iff.1 made
    simp only at leaf
    simp [leaf, Op.isLeaf] at inner

/-- A variable has no children. -/
theorem children_of_identity {l : Label} {cs : List Expr} (h : Built (node l cs))
    (leaf : l.op = .identity) : cs = [] := by
  cases h with
  | var => rfl
  | const v => cases v <;> cases leaf
  | compound made inner =>
    obtain ⟨-, _, -, -, rfl⟩ := combineExprs_eq_ok_iff.1 made
    simp only at leaf
    simp [leaf, Op.isLeaf] at inner

/-- Every operator node has been made of operands that are built. -/
theorem exists_operands {l : Label} {cs : List Expr} (h : Built (node l cs))
    (inner : l.op.isLeaf = false) :
    ∃ operands, l.op.accepts operands.length = true ∧ (∀ e ∈ operands, Built e) ∧
      checkSorts l.op operands = .ok l.sort ∧ cs = flatten l.op operands ∧
      l.name = derivedName l.op cs := by
  cases h with
  | var => cases inner
  | const v => cases v <;> cases inner
  | compound made _ parts =>
    obtain ⟨takes, _, sorts, rfl, rfl⟩ := combineExprs_eq_ok_iff.1 made
    exact ⟨_, takes, parts, sorts, rfl, rfl⟩

/-- The name of an operator node is derived from those of its children. -/
theorem name_eq {l : Label} {cs : List Expr} (h : Built (node l cs))
    (inner : l.op.isLeaf = false) : l.name = derivedName l.op cs := by
  obtain ⟨_, -, -, -, -, hn⟩ := h.exists_operands inner
  exact hn

/-- The nodes of a built expression are built. -/
theorem of_mem_nodes {e : Expr} (built : e.Built) : ∀ n ∈ e.nodes, n.Built := by
  induction e using induct with
  | node l cs ih =>
    intro n hn
    rw [nodes_node] at hn
    rcases List.mem_cons.1 hn with rfl | hn
    · exact built
    · obtain ⟨c, hc, hn⟩ := List.mem_flatMap.1 hn
      exact ih c hc (built.child hc) n hn

/-- Leaves have no children. -/
theorem children_of_isLeaf {l : Label} {cs : List Expr} (built : (node l cs).Built)
    (leaf : l.op.isLeaf = true) : cs = [] := by
  by_cases var : l.op = .identity
  · exact built.children_of_identity var
  · have literal : l.op = .const := by
      by_contra other
      rw [Op.isLeaf_eq_false_iff.2 ⟨var, other⟩] at leaf
      cases leaf
    obtain ⟨_, none, -⟩ := built.exists_of_const literal
    exact none

end Built

/-- An operator that flattens takes any number of operands but none. -/
theorem accepts_iff_of_isFlattening {op : Op} (h : op.isFlattening = true) (n : Nat) :
    op.accepts n = true ↔ 1 ≤ n := by
  rw [Op.accepts_iff]
  cases op <;> simp_all [Op.isFlattening, Op.arity]

/-- **Flattening keeps the number of children allowed**: a node that gives way
to its children has at least one. -/
theorem Built.accepts {e : Expr} (h : Built e) (inner : e.op.isLeaf = false) :
    e.op.accepts e.children.length = true := by
  induction h with
  | var => cases inner
  | const v => cases v <;> cases inner
  | @compound op operands l cs made _ parts _ _ ih =>
    obtain ⟨takes, _, -, rfl, rfl⟩ := combineExprs_eq_ok_iff.1 made
    show op.accepts (flatten op operands).length = true
    cases hf : op.isFlattening with
    | false => rwa [flatten_of_not_isFlattening hf]
    | true =>
      rw [accepts_iff_of_isFlattening hf] at takes ⊢
      refine List.length_pos_iff.2 (flatten_ne_nil (List.length_pos_iff.1 takes) fun e he same => ?_)
      have some := ih e he (by rw [same]; assumption)
      rw [same, accepts_iff_of_isFlattening hf] at some
      exact List.length_pos_iff.1 some

/-- An expression whose nodes have as many children as their operators take, leaves
none. -/
def Shaped (e : Expr) : Prop :=
  ∀ n ∈ e.nodes, n.op.accepts n.children.length = true

theorem Shaped.child {l : Label} {cs : List Expr} (h : (node l cs).Shaped) {c : Expr}
    (hc : c ∈ cs) : c.Shaped :=
  fun n hn => h n (nodes_subset (mem_nodes_of_mem_children hc) hn)

theorem Shaped.children_of_isLeaf {l : Label} {cs : List Expr} (h : (node l cs).Shaped)
    (leaf : l.op.isLeaf = true) : cs = [] := by
  obtain ⟨-, most⟩ := Op.accepts_iff.1 (h _ (mem_nodes_self _))
  have none : 0 ∈ l.op.arity.2 := by
    revert leaf
    cases l.op <;> decide
  exact List.eq_nil_of_length_eq_zero (Nat.le_zero.1 (most 0 none))

theorem Built.shaped {e : Expr} (built : e.Built) : e.Shaped := by
  intro n hn
  have own := built.of_mem_nodes n hn
  cases leaf : n.op.isLeaf with
  | false => exact own.accepts leaf
  | true =>
    obtain ⟨l, cs⟩ := n
    rw [own.children_of_isLeaf leaf]
    revert leaf
    show l.op.isLeaf = true → l.op.accepts 0 = true
    cases l.op <;> decide

/-! ## What builders make is built -/

/-- A constant is built. -/
theorem Built.of_constant (v : Value) : (constant v).Built := by
  cases v with
  | bool b => exact .const (.bool b) none
  | int n => exact .const (.int n) none

/-- A literal that is lifted is built, and so is an expression that was. -/
theorem Built.of_lift {operand : Operand} {e : Expr} (made : lift operand = .ok e)
    (parts : ∀ c, operand = .expr c → c.Built) : e.Built := by
  rcases lift_eq_ok_iff.1 made with rfl | ⟨v, -, -, rfl⟩
  · exact parts _ rfl
  · exact .of_constant v

/-- An operator node over built expressions is built. -/
theorem Built.of_combineExprs {op : Op} {operands : List Expr} {e : Expr}
    (made : combineExprs op operands = .ok e) (inner : op.isLeaf = false)
    (parts : ∀ c ∈ operands, c.Built) : e.Built := by
  obtain ⟨l, cs⟩ := e
  have built := Built.compound made inner parts none none
  obtain ⟨-, _, -, -, rfl⟩ := combineExprs_eq_ok_iff.1 made
  exact built

/-- An operator node over expressions and literals is one over the expressions that
these are. -/
theorem combine_eq_ok_iff {op : Op} {operands : List Operand} {e : Expr} :
    combine op operands = .ok e ↔ op.isLeaf = false ∧
      ∃ es, operands.mapM lift = .ok es ∧ combineExprs op es = .ok e := by
  unfold combine
  cases op.isLeaf with
  | true => simp
  | false => simp [Outcome.bind_eq_ok_iff]

/-- **An operator node over built expressions and literals is built.** -/
theorem Built.of_combine {op : Op} {operands : List Operand} {e : Expr}
    (made : combine op operands = .ok e) (parts : ∀ c, .expr c ∈ operands → c.Built) :
    e.Built := by
  obtain ⟨inner, es, lifted, made⟩ := combine_eq_ok_iff.1 made
  refine .of_combineExprs made inner fun c hc => ?_
  obtain ⟨o, ho, hoc⟩ := Outcome.exists_of_mem_mapM lifted hc
  exact .of_lift hoc fun d hd => parts d (hd ▸ ho)

/-- An operator node over variables is made by builders. -/
theorem Built.of_variables (op : Op) (xs : List (String × Option SmtSort)) {e : Expr}
    (made : combine op (xs.map fun x => .expr (Expr.var x.1 x.2)) = .ok e) : e.Built := by
  refine .of_combine made fun c hc => ?_
  obtain ⟨x, -, hx⟩ := List.mem_map.1 hc
  cases hx
  exact .var _ _ none none

/-- Expressions are operands as they are. -/
theorem combine_map_expr {op : Op} (inner : op.isLeaf = false) (es : List Expr) :
    combine op (es.map .expr) = combineExprs op es := by
  have lifted : (es.map Operand.expr).mapM lift = .ok es := by
    rw [Outcome.mapM_eq_ok_iff, List.forall₂_map_left_iff]
    exact List.forall₂_same.2 fun _ _ => rfl
  rw [combine, inner, lifted]
  rfl

/-- Expressions are collected as they are. -/
theorem collectAll_map_expr (es : List Expr) : collectAll (es.map .expr) = .ok es := by
  induction es with
  | nil => rfl
  | cons e es ih =>
    rw [List.map_cons, collectAll, ih]
    rfl

/-- An operator over a list of expressions is over these. -/
theorem combineAll_map_expr {op : Op} (inner : op.isLeaf = false) (es : List Expr) :
    combineAll op [.list (es.map .expr)] = combineExprs op es := by
  have collected : collectAll [.list (es.map .expr)] = .ok es := by
    rw [collectAll, collect, collectAll_map_expr]
    simp [collectAll, bind, Except.bind, pure, Except.pure]
  rw [combineAll, collected, Outcome.bind_ok, combine_map_expr inner]

end Expr

end SmtDialogue
