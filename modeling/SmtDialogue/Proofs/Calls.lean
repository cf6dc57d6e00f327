import SmtDialogue.Proofs.Broadcasting
import SmtDialogue.Proofs.Distinctness
import SmtDialogue.Proofs.Registration

/-!
# Expressions that callers obtain

Callers make variables and arrays of them, and call builders, operators and combinations on
whatever they have by then: expressions, literals, and collections of both. `Obtained` is
what comes of any number of such calls, in any order, where values may be stored in
expressions and expressions may be kept between them. All of it is built
(`Obtained.toBuilt`), so that what is proved of built expressions holds of every expression
that a caller has.

What an operand brings along are the expressions in it (`Operand.exprs`), and no call makes
an expression of anything but these and literals. Storing values changes no form
(`SameForm`): the operands that a node has been made of can be found again, with other
values in them, and pass the same checks (`Built.sameForm`).
-/

namespace SmtDialogue

/-! ## Expressions in operands -/

namespace Operand

mutual

/-- The expressions of an operand, nested to any depth. A record is looked at for its names
only. -/
def exprs : Operand → List Expr
  | expr e => [e]
  | list items => exprsOfAll items
  | tuple items => exprsOfAll items
  | bool _ | int _ | real _ | absent | text _ | record _ => []

/-- The expressions of several operands. -/
def exprsOfAll : List Operand → List Expr
  | [] => []
  | item :: items => item.exprs ++ exprsOfAll items

end

@[simp] theorem exprsOfAll_eq_flatMap (items : List Operand) :
    exprsOfAll items = items.flatMap exprs := by
  induction items with
  | nil => rfl
  | cons item items ih => simp [exprsOfAll, ih]

/-- The members of a collection have no other expressions. -/
theorem exprs_of_mem_members {collection member : Operand} {members : List Operand}
    (has : collection.members? = some members) (here : member ∈ members) {e : Expr}
    (he : e ∈ member.exprs) : e ∈ collection.exprs := by
  cases collection with
  | list items | tuple items =>
    cases has
    rw [exprs, exprsOfAll_eq_flatMap]
    exact List.mem_flatMap.2 ⟨member, here, he⟩
  | text s | record fields =>
    cases has
    obtain ⟨c, -, rfl⟩ := List.mem_map.1 here
    cases he
  | _ => cases has

end Operand

namespace Expr

mutual

/-- What is collected is there already, or a literal. -/
theorem mem_of_collect {operand : Operand} {es : List Expr} (collected : collect operand = .ok es) :
    ∀ e ∈ es, e ∈ operand.exprs ∨ ∃ v, e = constant v := by
  match operand with
  | .expr e => cases collected; simp [Operand.exprs]
  | .bool _ | .int _ =>
    obtain ⟨c, made, one⟩ := Outcome.bind_eq_ok_iff.1 collected
    cases one
    exact List.forall_mem_singleton.2 (.inr ⟨_, (literal_eq_ok_iff.1 made).2⟩)
  | .list items => exact mem_of_collectAll collected
  | .tuple items => exact mem_of_collectAll collected
  | .record [] => cases collected; exact nofun
  | .record (_ :: _) | .real _ | .absent | .text _ => cases collected

/-- What is collected from several operands is there already, or a literal. -/
theorem mem_of_collectAll {operands : List Operand} {es : List Expr}
    (collected : collectAll operands = .ok es) :
    ∀ e ∈ es, e ∈ Operand.exprsOfAll operands ∨ ∃ v, e = constant v := by
  match operands with
  | [] => cases collected; exact nofun
  | operand :: operands =>
    obtain ⟨first, here, collected⟩ := Outcome.bind_eq_ok_iff.1 collected
    obtain ⟨rest, there, made⟩ := Outcome.bind_eq_ok_iff.1 collected
    cases made
    refine List.forall_mem_append.2 ⟨fun e he => ?_, fun e he => ?_⟩
    · exact (mem_of_collect here e he).imp_left (List.mem_append_left _)
    · exact (mem_of_collectAll there e he).imp_left (List.mem_append_right _)

end

/-! ## Values and cells -/

/-- **Expressions of the same form**: they differ only in the values that are stored at
variables and operator nodes, and in the cells in which nodes are kept. -/
inductive SameForm : Expr → Expr → Prop
  | node {l : Label} {cs ds : List Expr} (value : Option Value) (cell : Option Nat)
    (literal : l.op = .const → value = l.value) (parts : List.Forall₂ SameForm cs ds) :
    SameForm (node l cs) (node { l with value, cell } ds)

namespace SameForm

variable {d e : Expr} {ds es : List Expr} {op : Op}

/-- Values and cells are no part of what the root says. -/
theorem label_eq (same : SameForm e d) : d.op = e.op ∧ d.name = e.name ∧ d.sort = e.sort := by
  cases same
  exact ⟨rfl, rfl, rfl⟩

theorem resultSort_eq (same : SameForm e d) : d.resultSort = e.resultSort := by
  obtain ⟨op, -, sort⟩ := same.label_eq
  rw [resultSort, resultSort, op, sort]

theorem checkSort_eq (same : SameForm e d) (expected : SmtSort) :
    checkSort op expected d = checkSort op expected e := by
  rw [checkSort, checkSort, same.resultSort_eq, same.label_eq.2.1]

/-- **Operands of the same form pass the same checks.** -/
theorem checkSorts_eq (row : List.Forall₂ SameForm es ds) :
    checkSorts op ds = checkSorts op es := by
  unfold checkSorts
  cases op.operandSort? with
  | some expected =>
    have each : ds.forM (checkSort op expected) = es.forM (checkSort op expected) := by
      induction row with
      | nil => rfl
      | @cons e d es ds same _ ih =>
        show (checkSort op expected d >>= fun _ => ds.forM _) = _
        rw [same.checkSort_eq, ih]
        rfl
    dsimp only
    rw [each]
  | none =>
    -- a choice has three operands, and no others are looked at
    rcases row with _ | ⟨test, _ | ⟨first, _ | ⟨second, _ | _⟩⟩⟩ <;> try rfl
    dsimp only
    rw [test.checkSort_eq, branchSort, branchSort, first.resultSort_eq, second.resultSort_eq,
      first.label_eq.2.1, second.label_eq.2.1]

/-- **Children of the same form come from operands of the same form.** An operand that has
given way gets its children back. -/
theorem exists_operands (row : List.Forall₂ SameForm (flatten op es) ds) :
    ∃ others, List.Forall₂ SameForm es others ∧ flatten op others = ds := by
  cases flattens : op.isFlattening with
  | false =>
    rw [flatten_of_not_isFlattening flattens] at row
    exact ⟨ds, row, flatten_of_not_isFlattening flattens ds⟩
  | true =>
    unfold flatten at row ⊢
    simp only [flattens, if_true] at row ⊢
    induction es generalizing ds with
    | nil =>
      cases row
      exact ⟨[], .nil, rfl⟩
    | cons e es ih =>
      rw [List.flatMap_cons] at row
      obtain ⟨own, rest, rfl, here, there⟩ := Outcome.exists_of_append_left row
      obtain ⟨others, rows, rfl⟩ := ih there
      split at here
      · next same =>
        obtain ⟨l, cs⟩ := e
        have gives : ((Expr.node l own).op == op) = true := same
        refine ⟨Expr.node l own :: others, .cons (.node l.value l.cell (fun _ => rfl) here) rows, ?_⟩
        rw [List.flatMap_cons, if_pos gives, children_node]
      · next other =>
        cases here with
        | @cons _ d _ _ same none =>
          cases none
          refine ⟨d :: others, .cons same rows, ?_⟩
          rw [List.flatMap_cons, same.label_eq.1, if_neg other]

end SameForm

/-- **Storing values keeps an expression built.** -/
theorem Built.sameForm {e d : Expr} (built : e.Built) (same : SameForm e d) : d.Built := by
  induction built generalizing d with
  | var name sort =>
    cases same with
    | node value cell _ row =>
      cases row
      exact .var name sort value cell
  | const v =>
    cases same with
    | node value cell literal row =>
      cases row
      cases v with
      | bool b =>
        obtain rfl := literal rfl
        exact .const (.bool b) cell
      | int n =>
        obtain rfl := literal rfl
        exact .const (.int n) cell
  | @compound op operands l cs made inner _ _ _ parts =>
    obtain ⟨takes, sort, sorts, rfl, rfl⟩ := combineExprs_eq_ok_iff.1 made
    cases same with
    | node value cell _ row =>
      have named := Outcome.map_eq_of_row row fun _ _ same => (SameForm.label_eq same).2.1.symm
      obtain ⟨others, rows, rfl⟩ := SameForm.exists_operands row
      have made' := combineExprs_eq_ok_iff.2 ⟨rows.length_eq ▸ takes, sort,
        (SameForm.checkSorts_eq rows).trans sorts, rfl, rfl⟩
      have parts' : ∀ d ∈ others, d.Built := fun d hd => by
        obtain ⟨e, he, same⟩ := Outcome.exists_of_mem_right rows hd
        exact parts e he same
      have built := Built.compound made' inner parts' value cell
      rwa [show derivedName op (flatten op others) = derivedName op (flatten op operands) by
        rw [derivedName, derivedName, named]] at built

/-! ## Calls -/

/-- **The expressions that callers obtain**, by any calls on what they have: variables and
arrays of them, literals, and what builders, operators and combinations make of operands
whose expressions have been obtained before; also after values have been stored. -/
inductive Obtained : Expr → Prop
  /-- Variables, one or an array of them. -/
  | named {make : List Operand → Naming Operand}
    (constructor : make ∈ [Naming.bools, Naming.ints, Naming.untyped])
    {arguments : List Operand} {r r' : Registry} {array : Operand}
    (made : make arguments r = (.ok array, r')) {e : Expr} (here : e ∈ array.exprs) : Obtained e
  /-- A literal. -/
  | literal {operand : Operand} {e : Expr} (made : ofLiteral operand = .ok e) : Obtained e
  /-- An expression of a collection. -/
  | collected {operand : Operand} {es : List Expr} (made : collect operand = .ok es)
    (parts : ∀ c ∈ operand.exprs, Obtained c) {e : Expr} (here : e ∈ es) : Obtained e
  /-- An operator over operands. -/
  | combined {op : Op} {operands : List Operand} {e : Expr} (made : combine op operands = .ok e)
    (parts : ∀ c ∈ Operand.exprsOfAll operands, Obtained c) : Obtained e
  /-- An operator over the members of a collection. -/
  | overMembers {op : Op} {collection : Operand} {e : Expr}
    (made : combineMembers op collection = .ok e) (parts : ∀ c ∈ collection.exprs, Obtained c) :
    Obtained e
  /-- A builder. -/
  | built (b : Builder) {operands : List Operand} {e : Expr} (made : b.build operands = .ok e)
    (parts : ∀ c ∈ Operand.exprsOfAll operands, Obtained c) : Obtained e
  /-- An operator between two operands. -/
  | between (o : Operator) {left right : Operand} {e : Expr} (made : o.apply left right = .ok e)
    (parts : ∀ c ∈ Operand.exprsOfAll [left, right], Obtained c) : Obtained e
  /-- A negation. -/
  | complement {operand : Operand} {e : Expr} (made : operand.complement = .ok (.expr e))
    (parts : ∀ c ∈ operand.exprs, Obtained c) : Obtained e
  /-- A builder at each place of some columns. -/
  | elementwise (b : Builder) {operands : List Operand} {es : List Expr}
    (made : broadcast b.build operands = .ok es)
    (parts : ∀ c ∈ Operand.exprsOfAll operands, Obtained c) {e : Expr} (here : e ∈ es) : Obtained e
  /-- The same expression, kept and with other values stored in it. -/
  | stored {e d : Expr} (before : Obtained e) (same : SameForm e d) : Obtained d

/-! ## What callers obtain is built -/

/-- The variables of an array are variables. -/
theorem exists_var_of_tabulate {dims : List Nat} {name : List Nat → String}
    {sort : Option SmtSort} {e : Expr}
    (here : e ∈ (Naming.tabulate dims fun ix => .expr (.var (name ix) sort)).exprs) :
    ∃ x, e = .var x sort := by
  induction dims generalizing name with
  | nil => exact ⟨_, List.mem_singleton.1 here⟩
  | cons d dims ih =>
    rw [Naming.tabulate, Operand.exprs, Operand.exprsOfAll_eq_flatMap] at here
    obtain ⟨row, hrow, here⟩ := List.mem_flatMap.1 here
    obtain ⟨i, -, rfl⟩ := List.mem_map.1 hrow
    exact ih here

/-- What is made by a name and dimensions is a variable or an array of them. -/
theorem exists_var_of_arrayNamed {given : List Operand} {name array : Operand}
    {sort : Option SmtSort} {r r' : Registry}
    (made : Naming.arrayNamed name sort given r = (.ok array, r')) {e : Expr}
    (here : e ∈ array.exprs) : ∃ x, e = .var x sort := by
  cases read : Naming.dimensions given with
  | error cause =>
    obtain ⟨e, refused, -⟩ := Naming.exists_throw_of_dimensions_error read name sort
    rw [refused] at made
    cases made
  | ok dims =>
    rw [Naming.arrayNamed_of_dimensions read] at made
    obtain ⟨-, rfl⟩ := Naming.eq_of_arrayNamed_ok made
    exact exists_var_of_tabulate here

/-- **Variables** are built. -/
theorem Built.of_naming {make : List Operand → Naming Operand}
    (constructor : make ∈ [Naming.bools, Naming.ints, Naming.untyped]) {arguments : List Operand}
    {r r' : Registry} {array : Operand} (made : make arguments r = (.ok array, r')) {e : Expr}
    (here : e ∈ array.exprs) : e.Built := by
  have ofVar {sort : Option SmtSort} (h : ∃ x, e = .var x sort) : e.Built := by
    obtain ⟨x, rfl⟩ := h
    exact .var x sort none none
  have ofArray {called : String} {sort : Option SmtSort}
      (made : Naming.arrayOf called sort arguments r = (.ok array, r')) : e.Built := by
    rw [Naming.arrayOf] at made
    cases last : arguments.getLast? with
    | none => rw [last] at made; cases made
    | some name =>
      rw [last] at made
      exact ofVar (exists_var_of_arrayNamed made here)
  have single {name : Operand} (made : Naming.arrayNamed name none [] r = (.ok array, r')) :
      e.Built := ofVar (exists_var_of_arrayNamed made here)
  simp only [List.mem_cons, List.not_mem_nil, or_false] at constructor
  rcases constructor with rfl | rfl | rfl
  · exact ofArray made
  · exact ofArray made
  · unfold Naming.untyped at made
    split at made
    · exact single made
    · exact single made
    · split at made <;> cases made
    · cases made

section Calls

variable {operands : List Operand} {e : Expr}

/-- What is collected from built expressions and literals is built. -/
theorem Built.of_collectAll {es : List Expr} (collected : collectAll operands = .ok es)
    (parts : ∀ c ∈ Operand.exprsOfAll operands, c.Built) : ∀ e ∈ es, e.Built := by
  intro e he
  rcases mem_of_collectAll collected e he with here | ⟨v, rfl⟩
  · exact parts e here
  · exact .of_constant v

/-- Expressions that are operands by themselves are among those of all operands. -/
theorem mem_exprsOfAll {c : Expr} (here : .expr c ∈ operands) :
    c ∈ Operand.exprsOfAll operands := by
  rw [Operand.exprsOfAll_eq_flatMap]
  exact List.mem_flatMap.2 ⟨_, here, List.mem_singleton_self c⟩

/-- An operator over collections of built expressions and literals makes a built one. -/
theorem Built.of_combineAll {op : Op} (made : combineAll op operands = .ok e)
    (parts : ∀ c ∈ Operand.exprsOfAll operands, c.Built) : e.Built := by
  obtain ⟨es, collected, made⟩ := Outcome.bind_eq_ok_iff.1 made
  refine .of_combine made fun c hc => ?_
  obtain ⟨d, hd, same⟩ := List.mem_map.1 hc
  cases same
  exact .of_collectAll collected parts _ hd

/-- A conjunction of inequalities is built. -/
theorem Built.of_distinct (made : distinct operands = .ok e)
    (parts : ∀ c ∈ Operand.exprsOfAll operands, c.Built) : e.Built := by
  obtain ⟨terms, collected, made⟩ := Outcome.bind_eq_ok_iff.1 made
  have built := Built.of_collectAll collected parts
  split at made
  · cases made
  obtain ⟨inequalities, each, made⟩ := Outcome.bind_eq_ok_iff.1 made
  refine .of_combineAll made fun c hc => ?_
  rw [Operand.exprsOfAll_eq_flatMap, List.flatMap_singleton, Operand.exprs,
    Operand.exprsOfAll_eq_flatMap, List.flatMap_map] at hc
  obtain ⟨d, hd, here⟩ := List.mem_flatMap.1 hc
  obtain rfl := List.mem_singleton.1 here
  obtain ⟨⟨a, b⟩, pair, made⟩ := Outcome.exists_of_mem_mapM each hd
  have members := mem_of_mem_pairs pair
  refine .of_combine made fun c hc => ?_
  simp only [List.mem_cons, Operand.expr.injEq, List.not_mem_nil, or_false] at hc
  rcases hc with rfl | rfl
  · exact built _ members.1
  · exact built _ members.2

/-- **Builders** make built expressions of built expressions and literals. -/
theorem Built.of_build {b : Builder} (made : b.build operands = .ok e)
    (parts : ∀ c ∈ Operand.exprsOfAll operands, c.Built) : e.Built := by
  unfold Builder.build at made
  split at made
  · exact .of_combineAll made parts
  · exact .of_combineAll made parts
  · exact .of_combineAll made parts
  · exact .of_combineAll made parts
  · exact .of_combineAll made parts
  · exact .of_distinct made parts
  · split at made
    · split at made
      · exact .of_combine made fun c hc => parts c (mem_exprsOfAll hc)
      · cases made
    · cases made

/-- **Operators between two operands** make built expressions of built expressions and
literals. -/
theorem Built.of_apply {o : Operator} {left right : Operand} (made : o.apply left right = .ok e)
    (parts : ∀ c ∈ Operand.exprsOfAll [left, right], c.Built) : e.Built := by
  have inOrder {op : Op} (made : combine op [left, right] = .ok e) : e.Built :=
    .of_combine made fun c hc => parts c (mem_exprsOfAll hc)
  have turned {op : Op} (made : combine op [right, left] = .ok e) : e.Built := by
    refine .of_combine made fun c hc => parts c (mem_exprsOfAll ?_)
    exact List.mem_cons.2 ((List.mem_cons.1 hc).elim (fun h => .inr (h ▸ List.mem_singleton_self _))
      fun h => .inl (List.mem_singleton.1 h))
  unfold Operator.apply at made
  split at made
  · exact inOrder made
  · exact turned made
  · exact inOrder made
  · cases made

/-- The arguments at a place are expressions of the columns. -/
theorem mem_of_argumentsAt {columns : List (List Expr)} {i : Nat} {c : Expr}
    (here : c ∈ Operand.exprsOfAll (argumentsAt columns i)) : ∃ column ∈ columns, c ∈ column := by
  rw [Operand.exprsOfAll_eq_flatMap] at here
  obtain ⟨o, ho, here⟩ := List.mem_flatMap.1 here
  obtain ⟨column, hcolumn, given⟩ := List.mem_filterMap.1 ho
  obtain ⟨d, hd, rfl⟩ := Option.map_eq_some_iff.1 given
  obtain rfl := List.mem_singleton.1 here
  refine ⟨column, hcolumn, ?_⟩
  split at hd
  · exact List.mem_of_head? hd
  · exact List.mem_of_getElem? hd

/-- **Builders at each place** make built expressions. -/
theorem Built.of_broadcast {b : Builder} {es : List Expr}
    (made : broadcast b.build operands = .ok es)
    (parts : ∀ c ∈ Operand.exprsOfAll operands, c.Built) : ∀ e ∈ es, e.Built := by
  obtain ⟨columns, collected, -⟩ := Outcome.bind_eq_ok_iff.1 made
  intro e he
  by_cases given : columns = []
  · rw [broadcast, collected, given] at made
    cases made
  rw [broadcast_of_collect _ collected given] at made
  obtain ⟨-, -, made⟩ := Outcome.bind_eq_ok_iff.1 made
  obtain ⟨i, -, made⟩ := Outcome.exists_of_mem_mapM made he
  refine .of_build made fun c hc => ?_
  obtain ⟨column, hcolumn, hc⟩ := mem_of_argumentsAt hc
  obtain ⟨o, ho, collected⟩ := Outcome.exists_of_mem_mapM collected hcolumn
  rcases mem_of_collect collected c hc with here | ⟨v, rfl⟩
  · refine parts c ?_
    rw [Operand.exprsOfAll_eq_flatMap]
    exact List.mem_flatMap.2 ⟨o, ho, here⟩
  · exact .of_constant v

end Calls

/-- **What callers obtain is built.** -/
theorem Obtained.toBuilt {e : Expr} (obtained : e.Obtained) : e.Built := by
  induction obtained with
  | named constructor made here => exact .of_naming constructor made here
  | literal made =>
    obtain ⟨v, -, -, rfl⟩ := ofLiteral_eq_ok_iff.1 made
    exact .of_constant v
  | @collected operand es made _ e here parts =>
    rcases mem_of_collect made e here with there | ⟨v, rfl⟩
    · exact parts e there
    · exact .of_constant v
  | combined made _ parts => exact .of_combine made fun c hc => parts c (mem_exprsOfAll hc)
  | @overMembers op collection e made _ parts =>
    unfold combineMembers at made
    split at made
    · cases made
    · split at made
      · next members has =>
        refine .of_combine made fun c hc => parts c ?_
        exact Operand.exprs_of_mem_members has hc (List.mem_singleton_self c)
      · cases made
  | built b made _ parts => exact .of_build made parts
  | between o made _ parts => exact .of_apply made parts
  | @complement operand e made _ parts =>
    cases operand with
    | expr c =>
      obtain ⟨d, made, same⟩ := Outcome.bind_eq_ok_iff.1 made
      cases same
      exact .of_combine made fun c' hc => parts c' (mem_exprsOfAll hc)
    | _ => cases made
  | elementwise b made _ here parts => exact .of_broadcast made parts _ here
  | stored _ same built => exact built.sameForm same

end Expr

end SmtDialogue
