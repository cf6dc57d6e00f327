import SmtDialogue.Expr.Graph
import SmtDialogue.Proofs.Equality

/-!
# The order and the grouping of operands

Conjunction, disjunction, exclusive disjunction and sum are associative and
commutative, and the nodes made for them show nothing of how their operands have
been grouped or ordered. Groups leave no trace at all: an operand with the same
operator gives way to its children, so nodes made group by group are the node that
is made of all operands at once (`Grouping.combine_eq_ok_iff`). An order remains in
the children, which equality does not look at, and the name is derived from sorted
names (`Expr.combine_perm`). That is so for every commutative operator.

Equality is a congruence besides: operands can be replaced by equal ones wherever
these are accepted (`Expr.alike_of_combine`). Whether they are is another matter,
since equality does not look at sorts.
-/

namespace SmtDialogue

/-- Texts that have been sorted are in order. -/
theorem Text.pairwise_mergeSort (names : List String) :
    (names.mergeSort fun a b => decide (a ≤ b)).Pairwise fun a b => decide (a ≤ b) = true := by
  refine List.pairwise_mergeSort (fun a b c => ?_) (fun a b => ?_) names
  · simpa only [decide_eq_true_iff] using String.le_trans
  · simpa only [Bool.or_eq_true, decide_eq_true_iff] using String.le_total a b

/-- Texts are sorted into one order, whatever order they come in. -/
theorem Text.mergeSort_eq_of_perm {xs ys : List String} (order : xs.Perm ys) :
    xs.mergeSort (fun a b => decide (a ≤ b)) = ys.mergeSort (fun a b => decide (a ≤ b)) := by
  refine List.Perm.eq_of_pairwise (fun a b _ _ => ?_) (pairwise_mergeSort xs)
    (pairwise_mergeSort ys) ?_
  · simpa only [decide_eq_true_iff] using String.le_antisymm
  · exact (List.mergeSort_perm _ _).trans (order.trans (List.mergeSort_perm _ _).symm)

/-- A commutative operator asks one sort of all its operands. -/
theorem Op.exists_operandSort? {op : Op} (commutes : op.isCommutative = true) :
    ∃ asked, op.operandSort? = some asked := by
  cases op <;> first | exact ⟨_, rfl⟩ | cases commutes

namespace Expr

/-! ## Operands in another order -/

/-- Where names are sorted, their order does not matter. -/
theorem derivedName_perm {op : Op} (commutes : op.isCommutative = true) {cs ds : List Expr}
    (order : (cs.map name).Perm (ds.map name)) : derivedName op cs = derivedName op ds := by
  simp only [derivedName, commutes, if_true, Text.mergeSort_eq_of_perm order]

/-- The checks of an operator that asks one sort of all its operands. -/
theorem checkSorts_eq_ok_iff {op : Op} {asked : SmtSort} (takes : op.operandSort? = some asked)
    {es : List Expr} {sort : Option SmtSort} :
    checkSorts op es = .ok sort ↔ sort = none ∧ ∀ e ∈ es, checkSort op asked e = .ok () := by
  unfold checkSorts
  rw [takes, ← Outcome.forM_eq_ok_iff]
  refine Outcome.bind_eq_ok_iff.trans ⟨?_, ?_⟩
  · rintro ⟨⟨⟩, passes, made⟩
    cases made
    exact ⟨rfl, passes⟩
  · rintro ⟨rfl, passes⟩
    exact ⟨(), passes, rfl⟩

/-- **Operands that pass the checks** and do not give way are the children of a node. -/
theorem combineExprs_of_passes {op : Op} {asked : SmtSort} (takes : op.operandSort? = some asked)
    {es : List Expr} (enough : op.accepts es.length = true)
    (passes : ∀ e ∈ es, checkSort op asked e = .ok ()) (kept : flatten op es = es) :
    combineExprs op es = .ok (node ⟨op, derivedName op es, none, none, none⟩ es) :=
  combineExprs_eq_ok_iff.2 ⟨enough, none, (checkSorts_eq_ok_iff takes).2 ⟨rfl, passes⟩, kept.symm,
    rfl⟩

theorem flatten_perm (op : Op) {es ds : List Expr} (order : es.Perm ds) :
    (flatten op es).Perm (flatten op ds) := by
  unfold flatten
  split
  · exact order.flatMap_right _
  · exact order

/-- **A commutative operator takes its operands in any order** and makes nodes that
are alike. -/
theorem combine_perm {op : Op} (commutes : op.isCommutative = true) {operands others : List Operand}
    (order : operands.Perm others) {a : Expr} (made : combine op operands = .ok a) :
    ∃ b, combine op others = .ok b ∧ Alike a b := by
  obtain ⟨inner, es, lifted, made⟩ := combine_eq_ok_iff.1 made
  obtain ⟨l, cs⟩ := a
  obtain ⟨enough, _, sorts, rfl, rfl⟩ := combineExprs_eq_ok_iff.1 made
  obtain ⟨asked, takes⟩ := Op.exists_operandSort? commutes
  obtain ⟨rfl, passes⟩ := (checkSorts_eq_ok_iff takes).1 sorts
  obtain ⟨ds, liftedToo, rearranged⟩ :=
    List.perm_comp_forall₂ order.symm (Outcome.mapM_eq_ok_iff.1 lifted)
  have children := flatten_perm op rearranged.symm
  refine ⟨node ⟨op, derivedName op (flatten op ds), none, none, none⟩ (flatten op ds), ?_, ?_⟩
  · refine combine_eq_ok_iff.2 ⟨inner, ds, Outcome.mapM_eq_ok_iff.2 liftedToo, ?_⟩
    refine combineExprs_eq_ok_iff.2 ⟨rearranged.length_eq ▸ enough, none, ?_, rfl, rfl⟩
    exact (checkSorts_eq_ok_iff takes).2 ⟨rfl, fun d hd => passes d (rearranged.subset hd)⟩
  · exact .node rfl rfl (derivedName_perm commutes (children.map name))
      (List.forall₂_same.2 fun c _ => .refl c) children

/-! ## Equal operands -/

/-- **Rows that match**: each member of one is like a member of the other, in some
order. -/
def Matches (cs ds : List Expr) : Prop :=
  ∃ es, List.Forall₂ Alike cs es ∧ es.Perm ds

/-- Alike expressions are the same at the root and have children that match. -/
theorem alike_iff_matches {a b : Expr} :
    Alike a b ↔ (a.op = b.op ∧ a.value = b.value ∧ a.name = b.name) ∧
      Matches a.children b.children := by
  cases a
  cases b
  exact alike_node_iff

namespace Matches

theorem of_row {cs ds : List Expr} (row : List.Forall₂ Alike cs ds) : Matches cs ds :=
  ⟨ds, row, .refl ds⟩

theorem append {cs ds cs' ds' : List Expr} (first : Matches cs ds) (second : Matches cs' ds') :
    Matches (cs ++ cs') (ds ++ ds') := by
  obtain ⟨es, row, order⟩ := first
  obtain ⟨es', row', order'⟩ := second
  exact ⟨es ++ es', List.rel_append row row', order.append order'⟩

/-- Rows that match have the same names. -/
theorem names {cs ds : List Expr} (h : Matches cs ds) : (cs.map name).Perm (ds.map name) := by
  obtain ⟨es, row, order⟩ := h
  rw [Outcome.map_eq_of_row row fun _ _ => Alike.name_eq]
  exact order.map name

/-- Operands that are alike one by one leave children that match. -/
theorem flatten {op : Op} (flattens : op.isFlattening = true) {es ds : List Expr}
    (row : List.Forall₂ Alike es ds) : Matches (flatten op es) (Expr.flatten op ds) := by
  unfold Expr.flatten
  simp only [flattens, if_true]
  induction row with
  | nil => exact .of_row .nil
  | @cons e d _ _ alike _ ih =>
    rw [List.flatMap_cons, List.flatMap_cons]
    obtain ⟨⟨same, -, -⟩, children⟩ := alike_iff_matches.1 alike
    refine .append ?_ ih
    rw [same]
    split
    · exact children
    · exact .of_row (.cons alike .nil)

end Matches

/-- **Nodes made of equal operands are alike.** -/
theorem alike_of_combine {op : Op} {operands others : List Operand}
    (row : List.Forall₂ (fun o p => ∃ d e, lift o = .ok d ∧ lift p = .ok e ∧ Alike d e)
      operands others)
    {a b : Expr} (made : combine op operands = .ok a) (made' : combine op others = .ok b) :
    Alike a b := by
  obtain ⟨-, es, lifted, made⟩ := combine_eq_ok_iff.1 made
  obtain ⟨-, ds, lifted', made'⟩ := combine_eq_ok_iff.1 made'
  obtain ⟨l, cs⟩ := a
  obtain ⟨m, cs'⟩ := b
  obtain ⟨-, _, -, rfl, rfl⟩ := combineExprs_eq_ok_iff.1 made
  obtain ⟨-, _, -, rfl, rfl⟩ := combineExprs_eq_ok_iff.1 made'
  have across : List.Forall₂ (fun o d => ∃ e, lift o = .ok e ∧ Alike e d) operands ds :=
    Outcome.row_trans row (Outcome.mapM_eq_ok_iff.1 lifted') fun o _ p e same lifted => by
      obtain ⟨d, e', first, second, alike⟩ := same
      cases second.symm.trans lifted
      exact ⟨d, first, alike⟩
  have alike : List.Forall₂ Alike es ds :=
    Outcome.row_trans (Outcome.mapM_eq_ok_iff.1 lifted).flip across fun e _ o d lifted same => by
      obtain ⟨e', lifted', alike⟩ := same
      cases Eq.trans (Eq.symm lifted) lifted'
      exact alike
  cases flattens : op.isFlattening with
  | true =>
    have children := Matches.flatten flattens alike
    exact alike_iff_matches.2 ⟨⟨rfl, rfl,
      derivedName_perm (Op.isCommutative_of_isFlattening flattens) children.names⟩, children⟩
  | false =>
    rw [flatten_of_not_isFlattening flattens, flatten_of_not_isFlattening flattens]
    have names : es.map name = ds.map name :=
      Outcome.map_eq_of_row alike fun _ _ => Alike.name_eq
    have named : derivedName op es = derivedName op ds := by rw [derivedName, derivedName, names]
    exact alike_iff_matches.2 ⟨⟨rfl, rfl, named⟩, .of_row alike⟩

/-! ## What operands contribute -/

/-- **What some operands contribute** to the children of a node: themselves, or
their own children when they have its operator, provided that no sort is known of
them that the operator does not take. -/
def Contribute (op : Op) (operands : List Operand) (children : List Expr) : Prop :=
  ∃ es, operands.mapM lift = .ok es ∧
    (∀ e ∈ es, ∀ asked ∈ op.operandSort?, checkSort op asked e = .ok ()) ∧
    children = flatten op es

section Contribute

variable {op : Op} {operands more : List Operand} {children : List Expr} {a : Expr}

/-- A flattening operator makes a node of operands, when there are any, whose
children are what they contribute. -/
theorem combine_eq_ok_iff_contribute (flattens : op.isFlattening = true) :
    combine op operands = .ok a ↔ operands ≠ [] ∧ Contribute op operands a.children ∧
      a.label = ⟨op, derivedName op a.children, none, none, none⟩ := by
  have inner : op.isLeaf = false := by
    revert flattens
    cases op <;> decide
  obtain ⟨asked, takes⟩ := Op.exists_operandSort? (Op.isCommutative_of_isFlattening flattens)
  obtain ⟨l, cs⟩ := a
  have some {es : List Expr} (lifted : operands.mapM lift = .ok es) :
      op.accepts es.length = true ↔ operands ≠ [] := by
    rw [accepts_iff_of_isFlattening flattens, ← (Outcome.mapM_eq_ok_iff.1 lifted).length_eq]
    exact List.length_pos_iff
  simp only [combine_eq_ok_iff, inner, true_and, combineExprs_eq_ok_iff, checkSorts_eq_ok_iff takes,
    Contribute, takes, Option.mem_def, Option.some.injEq, forall_eq', children_node, label_node]
  constructor
  · rintro ⟨es, lifted, enough, sort, ⟨rfl, passes⟩, rfl, rfl⟩
    exact ⟨(some lifted).1 enough, ⟨es, lifted, passes, rfl⟩, rfl⟩
  · rintro ⟨any, ⟨es, lifted, passes, rfl⟩, rfl⟩
    exact ⟨es, lifted, (some lifted).2 any, none, ⟨rfl, passes⟩, rfl, rfl⟩

theorem contribute_append (flattens : op.isFlattening = true) :
    Contribute op (operands ++ more) children ↔
      ∃ cs ds, Contribute op operands cs ∧ Contribute op more ds ∧ children = cs ++ ds := by
  have split (es ds : List Expr) : flatten op (es ++ ds) = flatten op es ++ flatten op ds := by
    simp only [flatten, flattens, if_true, List.flatMap_append]
  constructor
  · rintro ⟨es, lifted, passes, rfl⟩
    rw [List.mapM_append] at lifted
    obtain ⟨ds, first, lifted⟩ := Outcome.bind_eq_ok_iff.1 lifted
    obtain ⟨ds', second, made⟩ := Outcome.bind_eq_ok_iff.1 lifted
    cases made
    obtain ⟨passes, passes'⟩ := List.forall_mem_append.1 passes
    exact ⟨_, _, ⟨ds, first, passes, rfl⟩, ⟨ds', second, passes', rfl⟩, split ds ds'⟩
  · rintro ⟨_, _, ⟨ds, first, passes, rfl⟩, ⟨ds', second, passes', rfl⟩, rfl⟩
    refine ⟨ds ++ ds', ?_, List.forall_mem_append.2 ⟨passes, passes'⟩, (split ds ds').symm⟩
    rw [List.mapM_append, first, second]
    rfl

theorem contribute_cons (flattens : op.isFlattening = true) {o : Operand} :
    Contribute op (o :: more) children ↔
      ∃ cs ds, Contribute op [o] cs ∧ Contribute op more ds ∧ children = cs ++ ds := by
  rw [← contribute_append flattens]
  rfl

/-- Operands contribute something together when they do one by one. -/
theorem exists_contribute_iff (flattens : op.isFlattening = true) :
    (∃ cs, Contribute op operands cs) ↔ ∀ o ∈ operands, ∃ cs, Contribute op [o] cs := by
  induction operands with
  | nil =>
    have nothing : Contribute op [] [] :=
      ⟨[], rfl, List.forall_mem_nil _, by rw [flatten, List.flatMap_nil, ite_self]⟩
    exact iff_of_true ⟨[], nothing⟩ (List.forall_mem_nil _)
  | cons o os ih =>
    rw [List.forall_mem_cons, ← ih]
    constructor
    · rintro ⟨cs, contribute⟩
      obtain ⟨ds, ds', first, rest, -⟩ := (contribute_cons flattens).1 contribute
      exact ⟨⟨ds, first⟩, ds', rest⟩
    · rintro ⟨⟨ds, first⟩, ds', rest⟩
      exact ⟨ds ++ ds', (contribute_cons flattens).2 ⟨ds, ds', first, rest, rfl⟩⟩

/-- Operands are accepted together when there are any and each is by itself. -/
theorem exists_combine_iff (flattens : op.isFlattening = true) :
    (∃ a, combine op operands = .ok a) ↔
      operands ≠ [] ∧ ∀ o ∈ operands, ∃ a, combine op [o] = .ok a := by
  have contributes (operands : List Operand) : (∃ a, combine op operands = .ok a) ↔
      operands ≠ [] ∧ ∃ cs, Contribute op operands cs := by
    simp only [combine_eq_ok_iff_contribute flattens]
    constructor
    · rintro ⟨a, any, contribute, -⟩
      exact ⟨any, _, contribute⟩
    · rintro ⟨any, cs, contribute⟩
      exact ⟨node ⟨op, derivedName op cs, none, none, none⟩ cs, any, contribute, rfl⟩
  have one (o : Operand) : (∃ a, combine op [o] = .ok a) ↔ ∃ cs, Contribute op [o] cs := by
    rw [contributes]
    exact and_iff_right (List.cons_ne_nil o [])
  rw [contributes, exists_contribute_iff flattens]
  simp only [one]

/-- **A node contributes its children** where its own operator is applied again. -/
theorem contribute_made (flattens : op.isFlattening = true) (made : combine op operands = .ok a) :
    Contribute op [.expr a] children ↔ children = a.children := by
  obtain ⟨-, -, label⟩ := (combine_eq_ok_iff_contribute flattens).1 made
  have own : a.op = op := by rw [Expr.op, label]
  have passes : ∀ asked ∈ op.operandSort?, checkSort op asked a = .ok () := by
    intro asked takes
    have produced : a.resultSort = op.operandSort? := by
      rw [resultSort, own, Expr.sort, label]
      cases op <;> first | rfl | cases flattens
    rw [checkSort, produced, takes]
    exact if_pos (beq_self_eq_true asked)
  have whole : flatten op [a] = a.children := by
    simp [flatten, flattens, own]
  constructor
  · rintro ⟨es, lifted, -, rfl⟩
    cases lifted
    exact whole
  · rintro rfl
    exact ⟨[a], rfl, List.forall_mem_singleton.2 passes, whole.symm⟩

end Contribute

end Expr

/-! ## Groups -/

/-- **Operands in groups.** -/
inductive Grouping where
  /-- An operand as it is. -/
  | operand (o : Operand)
  /-- A group of one part or more. -/
  | group (first : Grouping) (rest : List Grouping)

namespace Grouping

/-- Induction over groupings, with the induction hypothesis for every part of a
group. -/
theorem induct {motive : Grouping → Prop} (operand : ∀ o, motive (operand o))
    (group : ∀ first rest, motive first → (∀ g ∈ rest, motive g) → motive (group first rest)) :
    ∀ g, motive g :=
  @Grouping.rec motive (fun gs => ∀ g ∈ gs, motive g) operand group (fun _ h => nomatch h)
    (fun _ _ first rest g h => (List.mem_cons.1 h).elim (· ▸ first) (rest g))

mutual

/-- The operands of a grouping, from left to right. -/
def operands : Grouping → List Operand
  | operand o => [o]
  | group first rest => first.operands ++ operandsOfAll rest

/-- The operands of several groupings. -/
def operandsOfAll : List Grouping → List Operand
  | [] => []
  | g :: gs => g.operands ++ operandsOfAll gs

end

mutual

/-- What stands for a grouping where an operator is applied: an operand as it is, and
for a group the node that the operator makes of its parts. -/
def build (op : Op) : Grouping → Except BuildError Operand
  | operand o => .ok o
  | group first rest => do
    let o ← first.build op
    let os ← buildAll op rest
    return .expr (← Expr.combine op (o :: os))

/-- The same for several groupings. -/
def buildAll (op : Op) : List Grouping → Except BuildError (List Operand)
  | [] => .ok []
  | g :: gs => do
    let o ← g.build op
    let os ← buildAll op gs
    return o :: os

end

/-- **The node that an operator makes of some parts**, group by group. -/
def combine (op : Op) (parts : List Grouping) : Except BuildError Expr := do
  Expr.combine op (← buildAll op parts)

open Expr (Contribute combine_eq_ok_iff_contribute contribute_append contribute_cons
  contribute_made)

variable {op : Op} {children : List Expr}

/-- A grouping has an operand. -/
theorem operands_ne_nil (g : Grouping) : g.operands ≠ [] := by
  induction g using induct with
  | operand o => exact List.cons_ne_nil o []
  | group first rest ih _ => exact List.append_ne_nil_of_left_ne_nil ih _

/-- Something is built of some groupings exactly when they have an operand. -/
theorem ne_nil_of_buildAll {gs : List Grouping} {os : List Operand}
    (built : buildAll op gs = .ok os) : os ≠ [] ↔ operandsOfAll gs ≠ [] := by
  cases gs with
  | nil =>
    cases built
    rfl
  | cons g gs =>
    obtain ⟨o, -, built⟩ := Outcome.bind_eq_ok_iff.1 built
    obtain ⟨os', -, made⟩ := Outcome.bind_eq_ok_iff.1 built
    cases made
    exact iff_of_true (List.cons_ne_nil o os')
      (List.append_ne_nil_of_left_ne_nil g.operands_ne_nil _)

/-- Several groupings contribute what they do one by one. -/
theorem contribute_buildAll (flattens : op.isFlattening = true) {gs : List Grouping}
    (each : ∀ g ∈ gs, ∀ cs, (∃ o, g.build op = .ok o ∧ Contribute op [o] cs) ↔
      Contribute op g.operands cs) (cs : List Expr) :
    (∃ os, buildAll op gs = .ok os ∧ Contribute op os cs) ↔
      Contribute op (operandsOfAll gs) cs := by
  induction gs generalizing cs with
  | nil =>
    constructor
    · rintro ⟨os, built, contribute⟩
      cases built
      exact contribute
    · exact fun contribute => ⟨[], rfl, contribute⟩
  | cons g gs ih =>
    obtain ⟨first, others⟩ := List.forall_mem_cons.1 each
    have ih := ih others
    rw [operandsOfAll, contribute_append flattens]
    simp only [← first, ← ih]
    constructor
    · rintro ⟨os, built, contribute⟩
      obtain ⟨o, built₁, built⟩ := Outcome.bind_eq_ok_iff.1 built
      obtain ⟨os', built₂, made⟩ := Outcome.bind_eq_ok_iff.1 built
      cases made
      obtain ⟨ds, ds', one, rest, rfl⟩ := (contribute_cons flattens).1 contribute
      exact ⟨ds, ds', ⟨o, built₁, one⟩, ⟨os', built₂, rest⟩, rfl⟩
    · rintro ⟨ds, ds', ⟨o, built₁, one⟩, ⟨os, built₂, rest⟩, rfl⟩
      refine ⟨o :: os, ?_, (contribute_cons flattens).2 ⟨ds, ds', one, rest, rfl⟩⟩
      rw [buildAll, built₁, built₂]
      rfl

/-- A group stands for the node that is made of its parts. -/
theorem build_group_eq_ok_iff {first : Grouping} {rest : List Grouping} {o : Operand} :
    (group first rest).build op = .ok o ↔
      ∃ a, combine op (first :: rest) = .ok a ∧ o = .expr a := by
  rw [build, combine, buildAll]
  simp only [Outcome.bind_eq_ok_iff]
  constructor
  · rintro ⟨p, built, os, builtAll, a, made, same⟩
    cases same
    exact ⟨a, ⟨p :: os, ⟨p, built, os, builtAll, rfl⟩, made⟩, rfl⟩
  · rintro ⟨a, ⟨_, ⟨p, built, os, builtAll, same⟩, made⟩, rfl⟩
    cases same
    exact ⟨p, built, os, builtAll, a, made, rfl⟩

/-- **A grouping contributes what its operands do.** -/
theorem contribute_build (flattens : op.isFlattening = true) (g : Grouping) (cs : List Expr) :
    (∃ o, g.build op = .ok o ∧ Contribute op [o] cs) ↔ Contribute op g.operands cs := by
  induction g using induct generalizing cs with
  | operand o =>
    constructor
    · rintro ⟨o', built, contribute⟩
      cases built
      exact contribute
    · exact fun contribute => ⟨o, rfl, contribute⟩
  | group first rest ih ihs =>
    have all : (∃ os, buildAll op (first :: rest) = .ok os ∧ Contribute op os cs) ↔
        Contribute op (group first rest).operands cs :=
      contribute_buildAll flattens (List.forall_mem_cons.2 ⟨ih, ihs⟩) cs
    rw [← all]
    simp only [build_group_eq_ok_iff]
    constructor
    · rintro ⟨_, ⟨a, made, rfl⟩, contribute⟩
      obtain ⟨os, built, made⟩ := Outcome.bind_eq_ok_iff.1 made
      obtain rfl := (contribute_made flattens made).1 contribute
      exact ⟨os, built, ((combine_eq_ok_iff_contribute flattens).1 made).2.1⟩
    · rintro ⟨os, built, contribute⟩
      have any : os ≠ [] := (ne_nil_of_buildAll built).2 (group first rest).operands_ne_nil
      have made : Expr.combine op os =
          .ok (.node ⟨op, Expr.derivedName op cs, none, none, none⟩ cs) :=
        (combine_eq_ok_iff_contribute flattens).2 ⟨any, contribute, rfl⟩
      exact ⟨_, ⟨_, Outcome.bind_eq_ok_iff.2 ⟨os, built, made⟩, rfl⟩,
        (contribute_made flattens made).2 rfl⟩

/-- **Groups leave no trace**: what is made group by group is the node that is made of
all operands at once. -/
theorem combine_eq_ok_iff (flattens : op.isFlattening = true) {parts : List Grouping} {a : Expr} :
    combine op parts = .ok a ↔ Expr.combine op (operandsOfAll parts) = .ok a := by
  have contribute : (∃ os, buildAll op parts = .ok os ∧ Contribute op os a.children) ↔
      Contribute op (operandsOfAll parts) a.children :=
    contribute_buildAll flattens (fun g _ cs => contribute_build flattens g cs) a.children
  unfold combine
  rw [Outcome.bind_eq_ok_iff, combine_eq_ok_iff_contribute flattens, ← contribute]
  constructor
  · rintro ⟨os, built, made⟩
    obtain ⟨any, own, label⟩ := (combine_eq_ok_iff_contribute flattens).1 made
    exact ⟨(ne_nil_of_buildAll built).1 any, ⟨os, built, own⟩, label⟩
  · rintro ⟨any, ⟨os, built, own⟩, label⟩
    exact ⟨os, built, (combine_eq_ok_iff_contribute flattens).2
      ⟨(ne_nil_of_buildAll built).2 any, own, label⟩⟩

end Grouping

/-! ## The comparison that runs -/

namespace Expr

variable {table : Nat → Expr} {op : Op}

/-- A literal is kept nowhere. -/
theorem isKeptIn_of_lift {o : Operand} {e : Expr} (kept : ∀ c, o = .expr c → c.IsKeptIn table)
    (lifted : lift o = .ok e) : e.IsKeptIn table := by
  have literal (v : Value) : (constant v).IsKeptIn table := by
    cases v <;>
      exact List.forall_mem_singleton.2 fun i here => nomatch here
  rcases lift_eq_ok_iff.1 lifted with rfl | ⟨v, -, -, rfl⟩
  · exact kept _ rfl
  · exact literal v

/-- A new node is kept nowhere, and what is below it is kept as before. -/
theorem isKeptIn_of_combine {operands : List Operand} {a : Expr}
    (kept : ∀ e, .expr e ∈ operands → e.IsKeptIn table) (made : combine op operands = .ok a) :
    a.IsKeptIn table := by
  obtain ⟨-, es, lifted, made⟩ := combine_eq_ok_iff.1 made
  obtain ⟨l, cs⟩ := a
  obtain ⟨-, _, -, rfl, rfl⟩ := combineExprs_eq_ok_iff.1 made
  have each : ∀ e ∈ es, e.IsKeptIn table := fun e he => by
    obtain ⟨o, ho, lifted⟩ := Outcome.exists_of_mem_mapM lifted he
    exact isKeptIn_of_lift (fun c same => kept c (same ▸ ho)) lifted
  intro n hn i here
  rw [nodes_node] at hn
  rcases List.mem_cons.1 hn with rfl | hn
  · cases here
  · obtain ⟨c, hc, hn⟩ := List.mem_flatMap.1 hn
    rcases mem_flatten hc with ⟨hc, -⟩ | ⟨⟨m, ds⟩, he, -, hc⟩
    · exact each c hc n hn i here
    · exact (each _ he).child hc n hn i here

/-- Alike nodes made of kept operands are found to be equal. -/
theorem equalsKept_of_combine {operands others : List Operand}
    (kept : ∀ e, .expr e ∈ operands ++ others → e.IsKeptIn table) {a b : Expr}
    (made : combine op operands = .ok a) (made' : combine op others = .ok b) (alike : Alike a b) :
    a.equalsKept b = true := by
  have left := isKeptIn_of_combine (fun e he => kept e (List.mem_append_left _ he)) made
  have right := isKeptIn_of_combine (fun e he => kept e (List.mem_append_right _ he)) made'
  rw [equalsKept_eq_equals left right]
  exact equals_iff_alike.2 alike

/-- Kept operands of a commutative operator are accepted in every order or in none,
and make equal expressions of one name. -/
theorem combine_order {operands others : List Operand} (commutes : op.isCommutative = true)
    (order : operands.Perm others) (kept : ∀ e, .expr e ∈ operands → e.IsKeptIn table) :
    ((∃ a, combine op operands = .ok a) ↔ ∃ b, combine op others = .ok b) ∧
      ∀ a b, combine op operands = .ok a → combine op others = .ok b →
        a.equalsKept b = true ∧ a.name = b.name := by
  refine ⟨⟨?_, ?_⟩, fun a b made made' => ?_⟩
  · rintro ⟨a, made⟩
    exact (combine_perm commutes order made).imp fun _ => And.left
  · rintro ⟨b, made⟩
    exact (combine_perm commutes order.symm made).imp fun _ => And.left
  · obtain ⟨c, again, alike⟩ := combine_perm commutes order made
    cases again.symm.trans made'
    have all : ∀ e, .expr e ∈ operands ++ others → e.IsKeptIn table := fun e he =>
      kept e ((List.mem_append.1 he).elim id fun he => order.symm.subset he)
    exact ⟨equalsKept_of_combine all made made' alike, alike.name_eq⟩

/-- Kept operands that are equal one by one make equal expressions. -/
theorem combine_congr {operands others : List Operand}
    (kept : ∀ e, .expr e ∈ operands ++ others → e.IsKeptIn table)
    (row : List.Forall₂
      (fun o p => ∃ d e, lift o = .ok d ∧ lift p = .ok e ∧ d.equalsKept e = true) operands others)
    {a b : Expr} (made : combine op operands = .ok a) (made' : combine op others = .ok b) :
    a.equalsKept b = true := by
  refine equalsKept_of_combine kept made made' ?_
  refine alike_of_combine (Outcome.row_imp row ?_) made made'
  rintro o ho p hp ⟨d, e, lifted, lifted', equal⟩
  have left : d.IsKeptIn table :=
    isKeptIn_of_lift (fun c same => kept c (List.mem_append_left _ (same ▸ ho))) lifted
  have right : e.IsKeptIn table :=
    isKeptIn_of_lift (fun c same => kept c (List.mem_append_right _ (same ▸ hp))) lifted'
  rw [equalsKept_eq_equals left right] at equal
  exact ⟨d, e, lifted, lifted', equals_iff_alike.1 equal⟩

open Grouping (operandsOfAll)

/-- **Construction is canonical.** For an operator that flattens, groups of the same
operands, whatever the groups and the order, are accepted when each operand is by
itself, and make equal expressions of one name. Equivalence, equality and inequality
make equal expressions of two operands in both orders. And operands that are equal one
by one make equal expressions, where both are accepted. -/
theorem combine_canonical :
    (∀ (op : Op) (parts others : List Grouping), op.isFlattening = true →
      (operandsOfAll parts).Perm (operandsOfAll others) →
      (∀ e, .expr e ∈ operandsOfAll parts → e.IsKeptIn table) →
      ((∃ a, Grouping.combine op parts = .ok a) ↔ operandsOfAll parts ≠ [] ∧
        ∀ o ∈ operandsOfAll parts, ∃ e, combine op [o] = .ok e) ∧
      ((∃ a, Grouping.combine op parts = .ok a) ↔ ∃ b, Grouping.combine op others = .ok b) ∧
      ∀ a b, Grouping.combine op parts = .ok a → Grouping.combine op others = .ok b →
        a.equalsKept b = true ∧ a.name = b.name) ∧
    (∀ (op : Op) (x y : Operand), op ∈ [Op.iff, .eq, .ne] →
      (∀ e, .expr e ∈ [x, y] → e.IsKeptIn table) →
      ((∃ a, combine op [x, y] = .ok a) ↔ ∃ b, combine op [y, x] = .ok b) ∧
      ∀ a b, combine op [x, y] = .ok a → combine op [y, x] = .ok b → a.equalsKept b = true) ∧
    ∀ (op : Op) (operands others : List Operand),
      (∀ e, .expr e ∈ operands ++ others → e.IsKeptIn table) →
      List.Forall₂ (fun o p => ∃ d e, lift o = .ok d ∧ lift p = .ok e ∧ d.equalsKept e = true)
        operands others →
      ∀ a b, combine op operands = .ok a → combine op others = .ok b → a.equalsKept b = true := by
  refine ⟨fun op parts others flattens order kept => ?_, fun op x y binary kept => ?_,
    fun op operands others kept row a b made made' => combine_congr kept row made made'⟩
  · simp only [Grouping.combine_eq_ok_iff flattens]
    exact ⟨exists_combine_iff flattens,
      combine_order (Op.isCommutative_of_isFlattening flattens) order kept⟩
  · have commutes : op.isCommutative = true := by
      simp only [List.mem_cons, List.not_mem_nil, or_false] at binary
      rcases binary with rfl | rfl | rfl <;> rfl
    obtain ⟨both, equal⟩ := combine_order commutes (List.Perm.swap y x []) kept
    exact ⟨both, fun a b made made' => (equal a b made made').1⟩

/-- Two variables, and their disjunction in both orders. -/
def disjunctions : Graph :=
  .ofCells #[⟨⟨.identity, "x", some .bool, none, none⟩, []⟩,
    ⟨⟨.identity, "y", none, some (.bool true), none⟩, []⟩,
    ⟨⟨.or, "or_x_y", none, none, none⟩, [0, 1]⟩,
    ⟨⟨.or, "or_x_y", none, none, none⟩, [1, 0]⟩]

/-- The conjunction of `x`, `x or y`, `y` and a literal in two groupings and orders;
an equivalence from both sides; and the negations of both disjunctions. -/
theorem combine_canonical_disjunctions :
    let kept (i : Nat) : Operand := .expr (disjunctions.view i)
    let one : List Grouping :=
      [.group (.operand (kept 0)) [.operand (kept 2)], .operand (kept 1), .operand (.bool true)]
    let other : List Grouping :=
      [.operand (.bool true), .group (.operand (kept 1))
        [.group (.operand (kept 2)) [], .operand (kept 0)]]
    (∃ a b, Grouping.combine .and one = .ok a ∧ Grouping.combine .and other = .ok b ∧
      a.equalsKept b = true ∧ a.name = b.name) ∧
    (∃ a b, combine .iff [kept 0, kept 2] = .ok a ∧ combine .iff [kept 2, kept 0] = .ok b ∧
      a.equalsKept b = true) ∧
    ∃ a b, combine .not [kept 2] = .ok a ∧ combine .not [kept 3] = .ok b ∧
      a.equalsKept b = true := by
  intro kept one other
  have all (i : Nat) : (disjunctions.view i).IsKeptIn disjunctions.view :=
    disjunctions.isKeptIn_view i
  obtain ⟨groups, exchange, congruent⟩ := @combine_canonical disjunctions.view
  refine ⟨?groups, ?exchange, ?congruent⟩
  case groups =>
    have order : (operandsOfAll one).Perm (operandsOfAll other) := by
      show [kept 0, kept 2, kept 1, .bool true].Perm [.bool true, kept 1, kept 2, kept 0]
      exact (List.reverse_perm _).symm
    have each : ∀ o ∈ operandsOfAll one, ∃ e, combine .and [o] = .ok e := by
      show ∀ o ∈ [kept 0, kept 2, kept 1, .bool true], ∃ e, combine .and [o] = .ok e
      simp only [List.forall_mem_cons]
      exact ⟨⟨_, rfl⟩, ⟨_, rfl⟩, ⟨_, rfl⟩, ⟨_, rfl⟩, List.forall_mem_nil _⟩
    obtain ⟨accepted, both, equal⟩ := groups .and one other rfl order
      (by simp [one, kept, operandsOfAll, Grouping.operands, all])
    obtain ⟨a, made⟩ := accepted.2 ⟨List.cons_ne_nil _ _, each⟩
    obtain ⟨b, made'⟩ := both.1 ⟨a, made⟩
    exact ⟨a, b, made, made', equal a b made made'⟩
  case exchange =>
    obtain ⟨-, equal⟩ := exchange .iff (kept 0) (kept 2) (by decide) (by simp [kept, all])
    exact ⟨_, _, rfl, rfl, equal _ _ rfl rfl⟩
  case congruent =>
    refine ⟨_, _, rfl, rfl, congruent .not [kept 2] [kept 3] (by simp [kept, all]) ?_ _ _ rfl rfl⟩
    exact .cons ⟨_, _, rfl, rfl, by decide⟩ .nil

end Expr

end SmtDialogue
