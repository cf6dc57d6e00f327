import Mathlib.Data.List.Permutation
import SmtDialogue.Proofs.Equality
import SmtDialogue.Proofs.Meaning

/-!
# When equal expressions mean the same

Equality looks at the children of a node in any order, and where the order
matters it leaves it to the name of the node to tell two orders apart. Such a
name joins the names of the operands by underscores, and names may hold
underscores themselves: `x < x_x` and `x_x < x` are both named `lt_x_x_x`, so
they are equal and differ in meaning.

This is the only way in which equality goes wrong. A commutative operator does
not see the order (`Value.apply_perm`), and so equality is right about an
expression and its parts exactly when no part can have its operands in another
order, under the name that it has, with another meaning
(`synonymous_of_equals_iff`). For two operands both orders have one name exactly
when the names of both repeat one word (`leavesOpen_swap_iff`).
-/

namespace SmtDialogue

namespace Value

/-- Whether values are known does not depend on their order, nor do these. -/
theorem known?_perm {vs ws : List (Option Value)} (order : vs.Perm ws) :
    Option.Rel List.Perm (known? vs) (known? ws) := by
  induction order with
  | nil => exact .some .nil
  | cons v _ ih =>
    cases v with
    | none => exact .none
    | some v =>
      rw [known?, known?]
      -- both rows are known, or neither is
      revert ih
      generalize known? _ = us, known? _ = us'
      rintro (order | _)
      · exact .some (order.cons v)
      · exact .none
  | swap v w vs =>
    cases v <;> cases w
    case some.some v w =>
      simp only [known?]
      cases known? vs with
      | none => exact .none
      | some us => exact .some (.swap ..)
    all_goals exact .none
  | trans _ _ first second =>
    revert first second
    generalize known? _ = a, known? _ = b, known? _ = c
    rintro (first | _) (second | _)
    · exact .some (first.trans second)
    · exact .none

theorem sum_perm {vs ws : List Value} (order : vs.Perm ws) : sum vs = sum ws :=
  order.foldl_eq' (fun _ _ _ _ _ => by omega) 0

/-- The comparisons that commute are of two operands. -/
theorem strict_of_length_ne {op : Op} (commutes : op.isCommutative = true) (xor : op ≠ .xor)
    (add : op ≠ .add) {vs : List Value} (other : vs.length ≠ 2) :
    strict op vs = .error (.operandCount op vs.length) := by
  cases op with
  | xor => exact absurd rfl xor
  | add => exact absurd rfl add
  | and | or | iff | eq | ne =>
    rcases vs with _ | ⟨a, _ | ⟨b, _ | ⟨c, vs⟩⟩⟩
    · rfl
    · rfl
    · exact absurd rfl other
    · rfl
  | _ => cases commutes

/-- A commutative operator that needs all its operands does not see their
order. -/
theorem strict_perm {op : Op} (commutes : op.isCommutative = true) {vs ws : List Value}
    (order : vs.Perm ws) : strict op vs = strict op ws := by
  by_cases xor : op = .xor
  · subst xor
    rw [strict, strict, order.countP_eq]
  by_cases add : op = .add
  · subst add
    rw [strict, strict, sum_perm order]
  by_cases two : vs.length = 2
  · obtain ⟨a, b, rfl⟩ := List.length_eq_two.1 two
    rcases List.pair_perm.1 order with rfl | rfl
    · rfl
    · cases op <;> simp_all [strict, Op.isCommutative, sameNumber, Bool.beq_comm]
  · rw [strict_of_length_ne commutes xor add two,
      strict_of_length_ne commutes xor add (order.length_eq ▸ two), order.length_eq]

/-- **A commutative operator does not see the order of its operands.** -/
theorem apply_perm {op : Op} (commutes : op.isCommutative = true) {vs ws : List (Option Value)}
    (order : vs.Perm ws) : apply op vs = apply op ws := by
  have any (test : Option Value → Bool) : vs.any test = ws.any test := by
    rw [Bool.eq_iff_iff, List.any_eq_true, List.any_eq_true]
    simp only [order.mem_iff]
  have all (test : Option Value → Bool) : vs.all test = ws.all test := by
    rw [Bool.eq_iff_iff, List.all_eq_true, List.all_eq_true]
    simp only [order.mem_iff]
  cases op with
  | and => simp only [apply, conj, any, all]
  | or => simp only [apply, disj, any, all]
  | xor | iff | eq | ne | add =>
    have known := known?_perm order
    simp only [apply]
    revert known
    generalize known? vs = us, known? ws = us'
    rintro (order | _)
    · simp only [strict_perm commutes order]
    · rfl
  | _ => cases commutes

end Value

namespace Expr

/-! ## Expressions of one meaning -/

/-- **Expressions of one meaning** have the same value whatever the values of the
variables are. -/
def Synonymous (a b : Expr) : Prop :=
  ∀ ρ, a.valueUnder ρ = b.valueUnder ρ

theorem Synonymous.symm {a b : Expr} (h : a.Synonymous b) : b.Synonymous a :=
  fun ρ => (h ρ).symm

theorem Synonymous.trans {a b c : Expr} (h : a.Synonymous b) (k : b.Synonymous c) :
    a.Synonymous c :=
  fun ρ => (h ρ).trans (k ρ)

/-- A node means the same with other operands of the same meanings, one by
one. -/
theorem synonymous_of_row {l m : Label} (op : l.op = m.op) (inner : l.op.isLeaf = false)
    {cs ds : List Expr} (row : List.Forall₂ Synonymous cs ds) :
    (node l cs).Synonymous (node m ds) := by
  intro ρ
  rw [valueUnder_inner ρ cs inner, valueUnder_inner ρ ds (op ▸ inner), op]
  congr 1
  induction row with
  | nil => rfl
  | cons first _ ih => rw [List.mapM_cons, List.mapM_cons, first ρ, ih]

/-- A node of a commutative operator means the same with its operands in any
order. -/
theorem synonymous_of_perm {l m : Label} (op : l.op = m.op) (commutes : l.op.isCommutative = true)
    {cs ds : List Expr} (built : ∀ c ∈ cs, c.Built) (order : cs.Perm ds) :
    (node l cs).Synonymous (node m ds) := by
  intro ρ
  have inner : l.op.isLeaf = false := by
    revert commutes
    cases l.op <;> decide
  obtain ⟨vs, values⟩ := Outcome.exists_row fun c hc => (built c hc).exists_valueUnder ρ
  obtain ⟨ws, values', order'⟩ := List.perm_comp_forall₂ order.symm values
  rw [valueUnder_inner ρ cs inner, valueUnder_inner ρ ds (op ▸ inner), ← op,
    Outcome.mapM_eq_ok_iff.2 values, Outcome.mapM_eq_ok_iff.2 values']
  exact Value.apply_perm commutes order'.symm

/-! ## Orders that a name leaves open -/

/-- **An order of its operands that a node leaves open**: builders have made an
expression with the operator, the value and the name of the node, and with
operands that equal these, one by one. -/
def LeavesOpen (n : Expr) (ds : List Expr) : Prop :=
  ds.Perm n.children ∧ ∃ b : Expr, b.Built ∧ (b.op = n.op ∧ b.value = n.value ∧ b.name = n.name) ∧
    List.Forall₂ (fun d c => d.equals c = true) ds b.children

/-- The name of a node is derived from its operands in each order that it leaves
open. -/
theorem LeavesOpen.derivedName_eq {n : Expr} {ds : List Expr} (h : n.LeavesOpen ds)
    (inner : n.op.isLeaf = false) : derivedName n.op ds = n.name := by
  obtain ⟨-, ⟨l, cs⟩, built, ⟨op, -, name⟩, row⟩ := h
  have names : ds.map Expr.name = cs.map Expr.name :=
    Outcome.map_eq_of_row row fun _ _ same => (equals_iff_alike.1 same).name_eq
  have named : l.name = derivedName l.op cs :=
    built.name_eq ((congrArg Op.isLeaf op).trans inner)
  rw [← name, ← op]
  show derivedName l.op ds = l.name
  rw [named, derivedName, derivedName, names]

/-- An expression without parts that could mean something else in another order
means the same as every expression made by builders that is alike. -/
theorem synonymous_of_alike {n b : Expr}
    (clear : ∀ m ∈ n.nodes, m.op.isCommutative = false → ∀ ds, m.LeavesOpen ds →
      m.Synonymous (node m.label ds))
    (built : b.Built) (alike : Alike n b) : n.Synonymous b := by
  induction n using induct generalizing b with
  | node l cs ih =>
    obtain ⟨op, value, name, parts, order⟩ := alike
    next m ds es =>
    have below {c d : Expr} (hc : c ∈ cs) (hd : d ∈ ds) (same : Alike c d) : c.Synonymous d :=
      ih c hc (fun m hm => clear m (nodes_subset (mem_nodes_of_mem_children hc) hm))
        (built.child hd) same
    by_cases var : l.op = .identity
    · intro ρ
      rw [valueUnder_identity ρ cs var, valueUnder_identity ρ ds (op ▸ var), name]
    by_cases literal : l.op = .const
    · intro ρ
      rw [valueUnder_const ρ cs literal, valueUnder_const ρ ds (op ▸ literal), value]
    have inner : l.op.isLeaf = false := Op.isLeaf_eq_false_iff.2 ⟨var, literal⟩
    cases commutes : l.op.isCommutative with
    | true =>
      have row : List.Forall₂ Synonymous cs es :=
        Outcome.row_imp parts fun c hc e he => below hc (order.subset he)
      exact (synonymous_of_row op inner row).trans
        (synonymous_of_perm rfl (op ▸ commutes) (fun e he => built.child (order.subset he)) order)
    | false =>
      -- first the own operands in another order, which is harmless by assumption, then others
      -- that are alike, which mean the same by induction
      obtain ⟨moved, rearranged, parts'⟩ : (List.Forall₂ Alike |> Relation.Comp List.Perm) cs ds :=
        List.forall₂_comp_perm_eq_perm_comp_forall₂ ▸ ⟨es, parts, order⟩
      have open' : LeavesOpen (node l cs) moved :=
        ⟨rearranged.symm, node m ds, built, ⟨op.symm, value.symm, name.symm⟩,
          parts'.imp fun _ _ => equals_iff_alike.2⟩
      have row : List.Forall₂ Synonymous moved ds :=
        Outcome.row_imp parts' fun c hc d hd => below (rearranged.symm.subset hc) hd
      exact (clear _ (mem_nodes_self _) commutes moved open').trans
        (synonymous_of_row op inner row)

/-- **Equality is right exactly about names that settle the order.** Equality
never identifies an expression or one of its parts with an expression of another
meaning exactly when no part, of an operator to which the order of operands
matters, leaves another order open in which it means something else. -/
theorem synonymous_of_equals_iff {e : Expr} (built : e.Built) :
    (∀ n ∈ e.nodes, ∀ b : Expr, b.Built → n.equals b = true → n.Synonymous b) ↔
      ∀ n ∈ e.nodes, n.op.isCommutative = false → ∀ ds, n.LeavesOpen ds →
        n.Synonymous (node n.label ds) := by
  constructor
  · intro right n hn _ ds ⟨order, b, builtB, ⟨op, value, name⟩, row⟩
    obtain ⟨l, cs⟩ := n
    obtain ⟨m, bs⟩ := b
    have alike : Alike (node l cs) (node m bs) := by
      obtain ⟨es, parts, moved⟩ : (Relation.Comp (List.Forall₂ Alike) List.Perm) cs bs :=
        List.perm_comp_forall₂ order.symm (row.imp fun _ _ => equals_iff_alike.1)
      exact .node op.symm value.symm name.symm parts moved
    have meant := right _ hn _ builtB (equals_iff_alike.2 alike)
    cases inner : l.op.isLeaf with
    | true =>
      rw [(built.of_mem_nodes _ hn).children_of_isLeaf inner] at order ⊢
      rw [order.eq_nil]
      exact fun _ => rfl
    | false =>
      have row' : List.Forall₂ Synonymous ds bs :=
        Outcome.row_imp row fun d hd c hc same =>
          right d (nodes_subset hn (mem_nodes_of_mem_children (order.subset hd))) c
            (builtB.child hc) same
      exact meant.trans (synonymous_of_row op.symm inner row').symm
  · intro clear n hn b builtB same
    exact synonymous_of_alike (fun m hm => clear m (nodes_subset hn hm)) builtB
      (equals_iff_alike.1 same)

/-- The name of an implication between two plainly named variables settles the
order: what equals `x → y` means it. -/
theorem synonymous_of_equals_implies :
    ∃ e : Expr, Builder.implies.build [.expr (var "x" (some .bool)), .expr (var "y" (some .bool))] =
        .ok e ∧ e.Built ∧ ∀ b : Expr, b.Built → e.equals b = true → e.Synonymous b := by
  let x := var "x" (some .bool)
  let y := var "y" (some .bool)
  let e := node ⟨.implies, "implies_x_y", none, none, none⟩ [x, y]
  have built : e.Built := .of_variables .implies [("x", some .bool), ("y", some .bool)] rfl
  refine ⟨e, rfl, built, (synonymous_of_equals_iff built).2 ?_ _ (mem_nodes_self _)⟩
  intro n hn _ ds leaves
  have parts : n = e ∨ n = x ∨ n = y := by simpa [e, x, y, var, nodes] using hn
  rcases parts with rfl | rfl | rfl
  · rcases List.perm_pair.1 leaves.1 with rfl | rfl
    · exact fun _ => rfl
    · exact absurd (leaves.derivedName_eq rfl) (by decide)
  · rw [leaves.1.eq_nil]
    exact fun _ => rfl
  · rw [leaves.1.eq_nil]
    exact fun _ => rfl

end Expr

/-! ## Names that are joined alike in both orders -/

namespace Text

/-- **Words that commute** are repetitions of one word. -/
theorem exists_word_of_append_comm {u v : List Char} (h : u ++ v = v ++ u) :
    ∃ (w : List Char) (j k : Nat),
      u = (List.replicate j w).flatten ∧ v = (List.replicate k w).flatten := by
  induction size : u.length + v.length using Nat.strong_induction_on generalizing u v with
  | _ total ih =>
    wlog short : u.length ≤ v.length generalizing u v
    · obtain ⟨w, k, j, hv, hu⟩ := this h.symm (by omega) (by omega)
      exact ⟨w, j, k, hu, hv⟩
    by_cases empty : u = []
    · exact ⟨v, 0, 1, by simp [empty], by simp⟩
    -- the shorter word begins the longer one, and commutes with what is left of it
    obtain ⟨rest, rfl⟩ : u <+: v :=
      List.prefix_of_prefix_length_le ⟨v, h⟩ (List.prefix_append v u) short
    have left : u ++ rest = rest ++ u := by
      rw [List.append_assoc] at h
      exact List.append_cancel_left h
    have smaller : u.length + rest.length < total := by
      have := List.length_pos_iff.2 empty
      rw [← size, List.length_append]
      omega
    obtain ⟨w, j, k, hu, hrest⟩ := ih _ smaller left rfl
    refine ⟨w, j, j + k, hu, ?_⟩
    rw [← List.replicate_append_replicate, List.flatten_append, ← hu, ← hrest]

/-- A word and its repetitions, joined by underscores. -/
def repeated (w : String) (k : Nat) : String :=
  "_".intercalate (List.replicate (k + 1) w)

/-- A repeated word, closed by an underscore, repeats the word so closed. -/
theorem toList_repeated (w : String) (k : Nat) :
    (repeated w k).toList ++ ['_'] = (List.replicate (k + 1) (w.toList ++ ['_'])).flatten := by
  induction k with
  | zero => simp [repeated]
  | succ k ih =>
    rw [List.replicate_succ, List.flatten_cons, ← ih]
    simp [repeated, List.replicate_succ]

/-- **Two names are joined alike in both orders** exactly when they repeat one
word. -/
theorem joined_comm_iff {u v : String} :
    u ++ "_" ++ v = v ++ "_" ++ u ↔ ∃ w j k, u = repeated w j ∧ v = repeated w k := by
  have closed : u ++ "_" ++ v = v ++ "_" ++ u ↔
      (u.toList ++ ['_']) ++ (v.toList ++ ['_']) = (v.toList ++ ['_']) ++ (u.toList ++ ['_']) := by
    rw [← String.toList_inj, ← List.append_assoc, ← List.append_assoc, List.append_left_inj]
    simp
  rw [closed]
  constructor
  · intro commute
    obtain ⟨z, j, k, hu, hv⟩ := exists_word_of_append_comm commute
    -- both sides end in an underscore, so neither is empty and the word ends in one, too
    have some {xs : List Char} {n : Nat} (h : xs ++ ['_'] = (List.replicate n z).flatten) :
        ∃ m, n = m + 1 := by
      cases n with
      | zero => simp at h
      | succ m => exact ⟨m, rfl⟩
    obtain ⟨j, rfl⟩ := some hu
    obtain ⟨k, rfl⟩ := some hv
    obtain ⟨w, rfl⟩ : ∃ w, z = w ++ ['_'] := by
      rcases List.eq_nil_or_concat z with rfl | ⟨w, c, rfl⟩
      · simp at hu
      · rw [List.concat_eq_append] at hu ⊢
        rw [List.replicate_succ', List.flatten_append, List.flatten_singleton,
          ← List.append_assoc] at hu
        exact ⟨w, by rw [(List.append_inj' hu rfl).2]⟩
    have own {x : String} {n : Nat}
        (h : x.toList ++ ['_'] = (List.replicate (n + 1) (w ++ ['_'])).flatten) :
        x = repeated (String.ofList w) n := by
      rw [← String.toList_inj, ← List.append_left_inj ['_'], toList_repeated, h,
        String.toList_ofList]
    exact ⟨String.ofList w, j, k, own hu, own hv⟩
  · rintro ⟨w, j, k, rfl, rfl⟩
    rw [toList_repeated, toList_repeated, ← List.flatten_append, ← List.flatten_append,
      List.replicate_append_replicate, List.replicate_append_replicate, Nat.add_comm]

end Text

namespace Expr

open Text (repeated)

/-- The checks on two operands do not depend on their order. -/
theorem checkSorts_swap {op : Op} {c d : Expr} {sort : Option SmtSort}
    (checked : checkSorts op [c, d] = .ok sort) : checkSorts op [d, c] = .ok sort := by
  unfold checkSorts at checked ⊢
  revert checked
  cases op.operandSort? with
  | none => exact id
  | some expected =>
    intro checked
    cases first : checkSort op expected c <;> cases second : checkSort op expected d <;>
      simp_all [List.forM, bind, Except.bind, pure, Except.pure]

/-- **Two operands whose order is left open.** A node of two operands, to which
their order matters, leaves the other order open exactly when the names of both
repeat one word. -/
theorem leavesOpen_swap_iff {l : Label} {c d : Expr} (built : (node l [c, d]).Built)
    (ordered : l.op.isCommutative = false) :
    (node l [c, d]).LeavesOpen [d, c] ↔
      ∃ w j k, c.name = repeated w j ∧ d.name = repeated w k := by
  have inner : l.op.isLeaf = false := by
    cases leaf : l.op.isLeaf with
    | true => cases built.children_of_isLeaf leaf
    | false => rfl
  have flattens : l.op.isFlattening = false := by
    cases h : l.op.isFlattening with
    | true => rw [Op.isCommutative_of_isFlattening h] at ordered; cases ordered
    | false => rfl
  have named (c d : Expr) :
      derivedName l.op [c, d] = l.op.tag ++ "_" ++ (c.name ++ "_" ++ d.name) := by
    rw [derivedName, ordered]
    rfl
  obtain ⟨operands, takes, parts, sorts, children, name⟩ := built.exists_operands inner
  rw [flatten_of_not_isFlattening flattens] at children
  subst children
  have one_name : derivedName l.op [d, c] = l.name ↔
      c.name ++ "_" ++ d.name = d.name ++ "_" ++ c.name := by
    rw [name, named, named, ← String.toList_inj, ← String.toList_inj]
    simp [eq_comm]
  rw [← Text.joined_comm_iff, ← one_name]
  constructor
  · exact fun h => h.derivedName_eq inner
  · intro same
    have made : combineExprs l.op [d, c] = .ok (node ⟨l.op, l.name, l.sort, none, none⟩ [d, c]) :=
      combineExprs_eq_ok_iff.2 ⟨takes, _, checkSorts_swap sorts,
        (flatten_of_not_isFlattening flattens _).symm, by rw [same]⟩
    refine ⟨.swap .., node l [d, c], ?_, ⟨rfl, rfl, rfl⟩, ?_⟩
    · exact .compound made inner (fun e he => parts e (by simp_all [or_comm])) l.value l.cell
    · exact List.forall₂_same.2 fun e _ => equals_self e

/-- The comparison that one integer variable is less than another. -/
def lessThan (x y : String) : Expr :=
  node ⟨.lt, "lt_" ++ (x ++ "_" ++ y), none, none, none⟩ [var x (some .int), var y (some .int)]

/-- Builders make this comparison. -/
theorem build_lessThan (x y : String) :
    Builder.lt.build [.expr (var x (some .int)), .expr (var y (some .int))] =
      .ok (lessThan x y) :=
  rfl

theorem built_lessThan (x y : String) : (lessThan x y).Built :=
  .of_variables .lt [(x, some .int), (y, some .int)] (build_lessThan x y)

/-- Two comparisons of two variables are equal when their names are, -/
theorem equals_lessThan_swap {x y : String} (joined : x ++ "_" ++ y = y ++ "_" ++ x) :
    (lessThan x y).equals (lessThan y x) = true := by
  refine equals_iff_alike.2 (.node rfl rfl ?_ (List.forall₂_same.2 fun _ _ => .refl _) (.swap ..))
  show "lt_" ++ (x ++ "_" ++ y) = "lt_" ++ (y ++ "_" ++ x)
  rw [joined]

/-- and the one holds where the other does not. -/
theorem not_synonymous_lessThan_swap {x y : String} (different : x ≠ y) :
    ¬ (lessThan x y).Synonymous (lessThan y x) := by
  intro same
  have values := same fun name => some (.int (if name = x then 0 else 1))
  rw [lessThan, lessThan, valueUnder_inner _ _ rfl, valueUnder_inner _ _ rfl] at values
  simp [var, valueUnder_identity, Except.map, Value.apply, Value.known?, Value.strict, Value.toInt,
    different.symm] at values

/-- **Equal expressions of different meaning.** The comparisons `x < x_x` and
`x_x < x` are both named `lt_x_x_x`. -/
theorem equals_lessThan_repeated :
    (lessThan "x" "x_x").Built ∧ (lessThan "x_x" "x").Built ∧
      (lessThan "x" "x_x").equals (lessThan "x_x" "x") = true ∧
      ¬ (lessThan "x" "x_x").Synonymous (lessThan "x_x" "x") :=
  ⟨built_lessThan _ _, built_lessThan _ _, equals_lessThan_swap (by decide),
    not_synonymous_lessThan_swap (by decide)⟩

end Expr

end SmtDialogue
