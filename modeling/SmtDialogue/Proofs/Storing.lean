import SmtDialogue.Expr.Graph
import SmtDialogue.Proofs.Meaning

/-!
# Values stored in shared nodes

An assignment goes through expressions from their leaves up and stores a value at
each variable and at each compound node. It works on trees, and what it stores is
stored in cells: a node that occurs in several places is assigned in each of them,
and each time the value is stored in the one cell that all of them show.

Nothing goes wrong with this, because what is stored at a node is a matter of its
tree, and one cell has one tree. So whatever is stored in a cell, by whichever
occurrence, is the same value (`Graph.StoresBy.value_stored`). After an assignment of
all variables every occurrence of a variable shows its assigned value, and every
compound node the value that evaluation makes of it then (`Graph.assign_spec`). Values
that were stored before play no part, and are gone.
-/

namespace SmtDialogue

open Expr (Write)

/-! ## Stored values in a tree -/

/-- What a node carries after a value has been stored somewhere. -/
def Label.storing (w : Write) (l : Label) : Label :=
  if l.cell = some w.cell then { l with value := w.value } else l

/-- What a node carries after several values have been stored. -/
def Label.stored (writes : List Write) (l : Label) : Label :=
  writes.foldl (fun l w => l.storing w) l

namespace Expr

mutual

/-- A tree after a value has been stored somewhere: every node of it that is this
cell shows the value. -/
def storing (w : Write) : Expr → Expr
  | node l cs => node (l.storing w) (storingAll w cs)

/-- The same for several trees. -/
def storingAll (w : Write) : List Expr → List Expr
  | [] => []
  | e :: es => e.storing w :: storingAll w es

end

/-- A tree after several values have been stored. -/
def stored (writes : List Write) (e : Expr) : Expr :=
  writes.foldl (fun e w => e.storing w) e

@[simp] theorem storingAll_eq_map (w : Write) (es : List Expr) :
    storingAll w es = es.map (storing w) := by
  induction es with
  | nil => rfl
  | cons e es ih => rw [storingAll, ih, List.map_cons]

theorem storing_node (w : Write) (l : Label) (cs : List Expr) :
    (node l cs).storing w = node (l.storing w) (cs.map (storing w)) := by
  rw [storing, storingAll_eq_map]

/-- Values are stored in each node of the tree. -/
theorem stored_node (writes : List Write) (l : Label) (cs : List Expr) :
    (node l cs).stored writes = node (l.stored writes) (cs.map (stored writes)) := by
  induction writes generalizing l cs with
  | nil =>
    show _ = node l (cs.map fun e => e)
    rw [List.map_id']
    rfl
  | cons w writes ih =>
    show ((node l cs).storing w).stored writes = node ((l.storing w).stored writes) _
    rw [storing_node, ih, List.map_map]
    rfl

theorem children_stored (writes : List Write) (e : Expr) :
    (e.stored writes).children = e.children.map (stored writes) := by
  cases e
  rw [stored_node]
  rfl

/-- The nodes of the tree are those that there were, with the values stored. -/
theorem nodes_stored (writes : List Write) (e : Expr) :
    (e.stored writes).nodes = e.nodes.map (stored writes) := by
  induction e using induct with
  | node l cs ih =>
    rw [stored_node, nodes_node, nodes_node, List.map_cons, stored_node, List.flatMap_map,
      List.map_flatMap]
    exact congrArg _ (List.flatMap_congr ih)

end Expr

namespace Label

variable {writes : List Write} {l : Label}

theorem cell_storing (w : Write) (l : Label) : (l.storing w).cell = l.cell := by
  unfold storing
  split <;> rfl

/-- Storing changes values only. -/
theorem stored_eq (writes : List Write) (l : Label) :
    l.stored writes = { l with value := (l.stored writes).value } := by
  induction writes generalizing l with
  | nil => rfl
  | cons w writes ih =>
    show (l.storing w).stored writes = { l with value := ((l.storing w).stored writes).value }
    rw [ih]
    unfold storing
    split <;> rfl

theorem op_stored (writes : List Write) (l : Label) : (l.stored writes).op = l.op := by
  rw [stored_eq]

theorem name_stored (writes : List Write) (l : Label) : (l.stored writes).name = l.name := by
  rw [stored_eq]

theorem cell_stored (writes : List Write) (l : Label) : (l.stored writes).cell = l.cell := by
  rw [stored_eq]

/-- Where nothing is stored the value stays. -/
theorem stored_of_forall_ne (other : ∀ w ∈ writes, l.cell ≠ some w.cell) :
    l.stored writes = l := by
  induction writes with
  | nil => rfl
  | cons w writes ih =>
    show (l.storing w).stored writes = l
    rw [storing, if_neg (other w List.mem_cons_self)]
    exact ih fun w' hw => other w' (List.mem_cons_of_mem _ hw)

/-- **Where one value is stored, perhaps several times, it is there in the end.** -/
theorem value_stored {v : Option Value} (agree : ∀ w ∈ writes, l.cell = some w.cell → w.value = v)
    (some : ∃ w ∈ writes, l.cell = some w.cell) : (l.stored writes).value = v := by
  induction writes generalizing l with
  | nil =>
    obtain ⟨w, none, -⟩ := some
    cases none
  | cons w writes ih =>
    show ((l.storing w).stored writes).value = v
    by_cases later : ∃ w' ∈ writes, l.cell = Option.some w'.cell
    · refine ih ?_ ?_ <;> rw [cell_storing]
      · exact fun w' hw => agree w' (List.mem_cons_of_mem _ hw)
      · exact later
    · -- the first value is the only one
      have here : l.cell = Option.some w.cell := by
        obtain ⟨w', hw, same⟩ := some
        rcases List.mem_cons.1 hw with rfl | hw
        · exact same
        · exact absurd ⟨w', hw, same⟩ later
      rw [stored_of_forall_ne fun w' hw => ?_, storing, if_pos here]
      · exact agree w List.mem_cons_self here
      · rw [cell_storing]
        exact fun same => later ⟨w', hw, same⟩

end Label

namespace Expr

theorem label_stored (writes : List Write) (e : Expr) :
    (e.stored writes).label = e.label.stored writes := by
  cases e
  rw [stored_node]
  rfl

theorem op_stored (writes : List Write) (e : Expr) : (e.stored writes).op = e.op := by
  rw [op, label_stored, Label.op_stored]

/-- Storing values leaves the shape. -/
theorem Shaped.stored {e : Expr} (h : e.Shaped) (writes : List Write) :
    (e.stored writes).Shaped := by
  intro n hn
  rw [nodes_stored] at hn
  obtain ⟨d, hd, rfl⟩ := List.mem_map.1 hn
  rw [op_stored, children_stored, List.length_map]
  exact h d hd

/-- **Any values at the nodes give an expression a value**, known or unknown, when its
operators have as many operands as they take. -/
theorem Shaped.exists_evaluate {e : Expr} (h : e.Shaped) : ∃ v, e.evaluate = .ok v := by
  induction e using induct with
  | node l cs ih =>
    rw [evaluate_node]
    split
    · exact ⟨l.value, rfl⟩
    · next inner =>
      exact exists_bind_apply (Bool.eq_false_iff.2 inner) (h _ (mem_nodes_self _)) fun c hc =>
        ih c hc (h.child hc)

end Expr

/-! ## Stored values in a graph -/

namespace Graph

/-- A tree that is looked up after a value has been stored. -/
theorem getD_map_storing (w : Write) (trees : Array Expr) (k : NodeId) :
    (trees.map (Expr.storing w)).getD k default = (trees.getD k default).storing w := by
  by_cases inside : k < trees.size
  · simp [inside]
  · simp only [Array.getD_eq_getD_getElem?, Array.getElem?_map,
      Array.getElem?_eq_none (Nat.le_of_not_lt inside)]
    rfl

/-- A cell that is unfolded after a value has been stored. -/
theorem unfold_storing (w : Write) (trees : Array Expr) (c : Cell) :
    Cell.unfold (trees.map (Expr.storing w))
        (if trees.size = w.cell then { c with label := { c.label with value := w.value } } else c) =
      (c.unfold trees).map (Expr.storing w) := by
  unfold Cell.unfold
  rw [Array.map_push, Array.size_map, Expr.storing_node, List.map_map]
  simp only [getD_map_storing]
  by_cases here : trees.size = w.cell
  · simp [here, Label.storing, Function.comp_def]
  · simp [here, Label.storing, Function.comp_def]

/-- Cells that are unfolded after a value has been stored in one of them. -/
theorem foldl_unfold_storing (w : Write) (cells : List Cell) (trees : Array Expr) :
    (cells.mapIdx fun j c => if trees.size + j = w.cell then
        { c with label := { c.label with value := w.value } } else c).foldl Cell.unfold
        (trees.map (Expr.storing w)) =
      (cells.foldl Cell.unfold trees).map (Expr.storing w) := by
  induction cells generalizing trees with
  | nil => rfl
  | cons c cells ih =>
    have size : (c.unfold trees).size = trees.size + 1 := by simp [Cell.unfold]
    rw [List.mapIdx_cons, List.foldl_cons, List.foldl_cons, Nat.add_zero, unfold_storing, ← ih,
      size]
    simp only [Nat.add_assoc, Nat.add_comm 1]

/-- **A value that is stored is seen wherever the node occurs**, and nowhere
else. -/
theorem view_setValue (g : Graph) (i : NodeId) (v : Option Value) (k : NodeId) :
    (g.setValue i v).view k = (g.view k).storing ⟨i, v⟩ := by
  have cells : (relabel i (fun l => { l with value := v }) g.cells).toList =
      g.cells.toList.mapIdx fun j c => if (#[] : Array Expr).size + j = i then
        { c with label := { c.label with value := v } } else c := by
    refine List.ext_getElem? fun j => ?_
    rw [relabel, Array.toList_modify, List.getElem?_modify, List.getElem?_mapIdx]
    simp [eq_comm]
  have trees : (g.setValue i v).trees = g.trees.map (Expr.storing ⟨i, v⟩) := by
    have all := foldl_unfold_storing ⟨i, v⟩ g.cells.toList #[]
    rw [← cells, Array.map_empty, Array.foldl_toList, Array.foldl_toList, ← g.trees_eq] at all
    exact all
  rw [view, trees, getD_map_storing]
  rfl

/-- **Values that are stored are seen wherever the nodes occur.** -/
theorem view_store (g : Graph) (writes : List Write) (k : NodeId) :
    (g.store writes).view k = (g.view k).stored writes := by
  induction writes generalizing g with
  | nil =>
    rw [store_nil]
    rfl
  | cons w writes ih =>
    rw [store_cons, ih, view_setValue]
    rfl

end Graph

/-! ## The values of all nodes -/

namespace Expr

section Settled

variable (ρ : String → Option Value)

/-- The value of an expression under values for its variables, where it has one. -/
def settledValue (e : Expr) : Option Value :=
  match e.valueUnder ρ with
  | .ok v => v
  | .error _ => none

mutual

/-- **An expression with the value of each of its nodes**, under values for its
variables. -/
def settled : Expr → Expr
  | node l cs => node { l with value := (node l cs).settledValue ρ } (settledAll cs)

/-- The same for several expressions. -/
def settledAll : List Expr → List Expr
  | [] => []
  | e :: es => e.settled :: settledAll es

end

variable {ρ}

@[simp] theorem settledAll_eq_map (es : List Expr) : settledAll ρ es = es.map (settled ρ) := by
  induction es with
  | nil => rfl
  | cons e es ih => rw [settledAll, ih, List.map_cons]

theorem settled_node (l : Label) (cs : List Expr) :
    (node l cs).settled ρ =
      node { l with value := (node l cs).settledValue ρ } (cs.map (settled ρ)) := by
  rw [settled, settledAll_eq_map]

theorem settledValue_of_ok {e : Expr} {v : Option Value} (h : e.valueUnder ρ = .ok v) :
    e.settledValue ρ = v := by
  rw [settledValue, h]

/-- A literal has the value that it was made with. -/
theorem settledValue_const {l : Label} (leaf : l.op = .const) (cs : List Expr) :
    (node l cs).settledValue ρ = l.value :=
  settledValue_of_ok (valueUnder_const ρ cs leaf)

/-- **Evaluation agrees with what is stored.** -/
theorem evaluate_settled (e : Expr) : (e.settled ρ).evaluate = e.valueUnder ρ := by
  induction e using induct with
  | node l cs ih =>
    rw [settled_node, evaluate_node]
    by_cases var : l.op = .identity
    · rw [valueUnder_identity ρ cs var, settledValue_of_ok (valueUnder_identity ρ cs var)]
      simp [var, Op.isLeaf]
    by_cases literal : l.op = .const
    · rw [valueUnder_const ρ cs literal, settledValue_const literal]
      simp [literal, Op.isLeaf]
    have inner : l.op.isLeaf = false := Op.isLeaf_eq_false_iff.2 ⟨var, literal⟩
    have all : (cs.map (settled ρ)).mapM evaluate = cs.mapM (valueUnder ρ) := by
      rw [List.mapM_map]
      exact mapM_congr ih
    rw [valueUnder_inner ρ cs inner, ← all]
    simp [inner]

theorem nodes_settled (e : Expr) : (e.settled ρ).nodes = e.nodes.map (settled ρ) := by
  induction e using induct with
  | node l cs ih =>
    rw [settled_node, nodes_node, nodes_node, List.map_cons, settled_node, List.flatMap_map,
      List.map_flatMap]
    exact congrArg _ (List.flatMap_congr ih)

end Settled

/-! ## What an assignment stores -/

theorem mem_writeTo {l : Label} {v : Option Value} {w : Write} :
    w ∈ writeTo l v ↔ l.cell = some w.cell ∧ w.value = v := by
  unfold writeTo
  cases l.cell with
  | none => simp
  | some cell =>
    rw [List.mem_singleton, Option.some.injEq]
    constructor
    · rintro rfl
      exact ⟨rfl, rfl⟩
    · rintro ⟨rfl, rfl⟩
      rfl

/-- The value that an expression gets by an assignment, where it gets one. -/
def assignedValue (m : Assignment) (e : Expr) : Option Value :=
  match (e.assign m).2 with
  | .ok v => v
  | .error _ => none

/-- **What an assignment stores at a node**, if anything: at a variable the value that
it names, and at a compound node the value that this gets. -/
def written? (m : Assignment) (n : Expr) : Option (Option Value) :=
  match n.op with
  | .identity => m.lookup n.name
  | .const => none
  | _ => some (n.assignedValue m)

/-- **What is stored at a node**: its value, unless it is a literal. -/
def Stores (ρ : String → Option Value) (n : Expr) (w : Write) : Prop :=
  n.op ≠ .const ∧ n.label.cell = some w.cell ∧ w.value = n.settledValue ρ

section Assign

variable {m : Assignment} {ρ : String → Option Value}

theorem written?_identity {l : Label} (var : l.op = .identity) (cs : List Expr) :
    (node l cs).written? m = m.lookup l.name := by
  rw [written?, op, label_node, var]
  rfl

theorem written?_const {l : Label} (literal : l.op = .const) (cs : List Expr) :
    (node l cs).written? m = none := by
  rw [written?, op, label_node, literal]

theorem written?_inner {l : Label} (inner : l.op.isLeaf = false) (cs : List Expr) :
    (node l cs).written? m = some ((node l cs).assignedValue m) := by
  obtain ⟨var, literal⟩ := Op.isLeaf_eq_false_iff.1 inner
  unfold written?
  split
  · next same => exact absurd same var
  · next same => exact absurd same literal
  · rfl

theorem assignedValue_of_ok {e : Expr} {v : Option Value} (h : (e.assign m).2 = .ok v) :
    e.assignedValue m = v := by
  rw [assignedValue, h]

/-- **Every assignment gives an expression a value**, known or unknown, when its
operators have as many operands as they take. -/
theorem Shaped.exists_assign {e : Expr} (h : e.Shaped) : ∃ v, (e.assign m).2 = .ok v := by
  induction e using induct with
  | node l cs ih =>
    by_cases var : l.op = .identity
    · rw [assign_identity var]
      cases m.lookup l.name <;> exact ⟨_, rfl⟩
    by_cases literal : l.op = .const
    · rw [assign_const literal]
      exact ⟨l.value, rfl⟩
    have inner : l.op.isLeaf = false := Op.isLeaf_eq_false_iff.2 ⟨var, literal⟩
    rw [snd_assign_inner inner]
    exact exists_bind_apply inner (h _ (mem_nodes_self _)) fun c hc => ih c hc (h.child hc)

theorem assignAll_cons_of_ok {e : Expr} {v : Option Value} (ok : (e.assign m).2 = .ok v)
    (es : List Expr) :
    (assignAll m (e :: es)).1 = (e.assign m).1 ++ (assignAll m es).1 := by
  rw [assignAll]
  rcases first : e.assign m with ⟨writes, _ | w⟩
  · rw [first] at ok
    cases ok
  · rfl

/-- Several expressions that have values store what each of them stores. -/
theorem mem_assignAll_iff {es : List Expr} (ok : ∀ e ∈ es, ∃ v, (e.assign m).2 = .ok v)
    {w : Write} : w ∈ (assignAll m es).1 ↔ ∃ e ∈ es, w ∈ (e.assign m).1 := by
  induction es with
  | nil => simp [assignAll]
  | cons e es ih =>
    obtain ⟨⟨v, first⟩, rest⟩ := List.forall_mem_cons.1 ok
    rw [assignAll_cons_of_ok first, List.mem_append, ih rest]
    simp

/-- A compound node that has a value stores it after what its children store. -/
theorem assign_inner {l : Label} {cs : List Expr} (inner : l.op.isLeaf = false)
    {v : Option Value} (ok : ((node l cs).assign m).2 = .ok v) :
    ((node l cs).assign m).1 = (assignAll m cs).1 ++ writeTo l v := by
  obtain ⟨var, literal⟩ := Op.isLeaf_eq_false_iff.1 inner
  rw [assign, if_neg (mt beq_iff_eq.1 var), if_neg (mt beq_iff_eq.1 literal)] at ok ⊢
  dsimp only at ok ⊢
  rcases h : (assignAll m cs).2 >>= Value.apply l.op with e | w
  · rw [h] at ok
    cases ok
  · rw [h] at ok
    cases ok
    rfl

/-- **An assignment stores at each node** what is to be stored there, and nothing
else. -/
theorem mem_assign {e : Expr} (shaped : e.Shaped) {w : Write} :
    w ∈ (e.assign m).1 ↔
      ∃ n ∈ e.nodes, n.label.cell = some w.cell ∧ n.written? m = some w.value := by
  induction e using induct with
  | node l cs ih =>
    obtain ⟨v, value⟩ := shaped.exists_assign (m := m)
    by_cases var : l.op = .identity
    · obtain rfl := shaped.children_of_isLeaf (by rw [var]; rfl)
      rw [nodes_node, List.flatMap_nil]
      simp only [List.mem_singleton, exists_eq_left, written?_identity var, assign_identity var,
        label_node]
      cases m.lookup l.name with
      | none => simp
      | some v => simp [mem_writeTo, eq_comm]
    by_cases literal : l.op = .const
    · obtain rfl := shaped.children_of_isLeaf (by rw [literal]; rfl)
      rw [nodes_node, List.flatMap_nil, assign_const literal]
      simp [written?_const literal]
    have inner : l.op.isLeaf = false := Op.isLeaf_eq_false_iff.2 ⟨var, literal⟩
    have below : w ∈ (assignAll m cs).1 ↔ ∃ n ∈ cs.flatMap nodes,
        n.label.cell = some w.cell ∧ n.written? m = some w.value := by
      rw [mem_assignAll_iff fun c hc => (shaped.child hc).exists_assign]
      constructor
      · rintro ⟨c, hc, stored⟩
        obtain ⟨n, hn, stores⟩ := (ih c hc (shaped.child hc)).1 stored
        exact ⟨n, List.mem_flatMap.2 ⟨c, hc, hn⟩, stores⟩
      · rintro ⟨n, hn, stores⟩
        obtain ⟨c, hc, hn⟩ := List.mem_flatMap.1 hn
        exact ⟨c, hc, (ih c hc (shaped.child hc)).2 ⟨n, hn, stores⟩⟩
    rw [assign_inner inner value, List.mem_append, below, mem_writeTo, nodes_node,
      List.exists_mem_cons_iff, written?_inner inner, assignedValue_of_ok value, or_comm,
      Option.some.injEq, eq_comm (a := v)]
    rfl

/-- **An assignment of all variables stores the value of each node**, and nothing
else. -/
theorem mem_assign_iff {e : Expr} (built : e.Built)
    (given : ∀ x ∈ e.variableNames, m.lookup x = some (ρ x)) {w : Write} :
    w ∈ (e.assign m).1 ↔ ∃ n ∈ e.nodes, n.Stores ρ w := by
  rw [mem_assign built.shaped]
  refine exists_congr fun n => and_congr_right fun hn => ?_
  have given' : ∀ x ∈ n.variableNames, m.lookup x = some (ρ x) := fun x hx => by
    obtain ⟨v, hv, rfl⟩ := List.mem_map.1 hx
    obtain ⟨hv, isVar⟩ := List.mem_filter.1 hv
    exact given _ (List.mem_map.2 ⟨v, List.mem_filter.2 ⟨nodes_subset hn hv, isVar⟩, rfl⟩)
  obtain ⟨v, value⟩ := (built.of_mem_nodes n hn).exists_valueUnder ρ
  have known : n.settledValue ρ = v := settledValue_of_ok value
  have assigned : n.assignedValue m = v :=
    assignedValue_of_ok ((assign_eq_valueUnder given').trans value)
  obtain ⟨l, cs⟩ := n
  unfold Stores
  by_cases var : l.op = .identity
  · have own := given' l.name (mem_variableNames_node.2 (.inl ⟨var, rfl⟩))
    rw [valueUnder_identity ρ cs var] at value
    rw [written?_identity var, own, known, ← Except.ok.inj value]
    simp [op, var, eq_comm]
  by_cases literal : l.op = .const
  · simp [written?_const literal, op, literal]
  have inner : l.op.isLeaf = false := Op.isLeaf_eq_false_iff.2 ⟨var, literal⟩
  rw [written?_inner inner, assigned, known]
  simp [op, literal, eq_comm]

end Assign

/-- Where the value of each node is stored, the tree is settled. -/
theorem stored_eq_settled {ρ : String → Option Value} {writes : List Write} {e : Expr}
    (each : ∀ n ∈ e.nodes, (n.label.stored writes).value = n.settledValue ρ) :
    e.stored writes = e.settled ρ := by
  induction e using induct with
  | node l cs ih =>
    rw [nodes_node, List.forall_mem_cons] at each
    obtain ⟨own, below⟩ := each
    rw [stored_node, settled_node, Label.stored_eq, ← own, label_node]
    refine congrArg _ (List.map_congr_left fun c hc => ih c hc fun n hn => ?_)
    exact below n (List.mem_flatMap.2 ⟨c, hc, hn⟩)

end Expr

/-! ## Assignments -/

namespace Graph

/-- **An expression whose nodes are kept**, but for literals, which need not be. -/
def Keeps (g : Graph) (e : Expr) : Prop :=
  ∀ n ∈ e.nodes, (∀ i, n.label.cell = some i → n = g.view i) ∧
    (n.label.cell = none → n.op = .const)

/-- **The nodes of a view are kept.** -/
theorem keeps_view (g : Graph) (i : NodeId) : g.Keeps (g.view i) := by
  have literal : ∀ n ∈ (default : Expr).nodes, n.op = .const := by
    have bare : (default : Expr) = .node ⟨.const, "", none, none, none⟩ [] := rfl
    rw [bare, Expr.nodes_node]
    exact List.forall_mem_singleton.2 rfl
  -- a node that has no cell is the one that stands for numbers that name no cell
  have all : ∀ (cells : List Cell) (trees : Array Expr),
      (∀ k, ∀ n ∈ (trees.getD k default).nodes, n.label.cell = none → n.op = .const) →
      ∀ k, ∀ n ∈ ((cells.foldl Cell.unfold trees).getD k default).nodes,
        n.label.cell = none → n.op = .const := by
    intro cells
    induction cells with
    | nil => exact fun _ h => h
    | cons c cells ih =>
      refine fun trees h => ih _ fun k n hn none => ?_
      rcases mem_nodes_unfold hn with rfl | ⟨j, hn⟩
      · rw [getD_unfold_size] at none
        cases none
      · exact h j n hn none
  have bare := all g.cells.toList #[] fun _ n hn _ => literal n hn
  rw [Array.foldl_toList, ← g.trees_eq] at bare
  exact fun n hn => ⟨g.isKeptIn_view i n hn, bare i n hn⟩

variable {g : Graph} {e : Expr}

theorem Keeps.current (h : g.Keeps e) : g.current e = e := by
  unfold Graph.current
  split
  · next i here => exact ((h e e.mem_nodes_self).1 i here).symm
  · rfl

/-- Nothing is stored in an expression that has no cell, for it is a literal. -/
theorem Keeps.stored_of_bare (h : g.Keeps e) (shaped : e.Shaped) (bare : e.label.cell = none)
    (writes : List Write) : e.stored writes = e := by
  have literal := (h e e.mem_nodes_self).2 bare
  obtain ⟨l, cs⟩ := e
  obtain rfl := shaped.children_of_isLeaf (congrArg Op.isLeaf literal)
  have same : l.stored writes = l :=
    Label.stored_of_forall_ne fun w _ here => nomatch bare.symm.trans here
  rw [Expr.stored_node, same]
  rfl

/-- A kept expression that is looked up after values have been stored. -/
theorem Keeps.current_store (h : g.Keeps e) (shaped : e.Shaped) (writes : List Write) :
    (g.store writes).current e = e.stored writes := by
  unfold Graph.current
  split
  · next i here => rw [view_store, ← (h e e.mem_nodes_self).1 i here]
  · next bare => exact (h.stored_of_bare shaped bare writes).symm

/-- **Writes that store at each node what a function says**, if anything: at the nodes
of some expressions, and nothing at literals. -/
structure StoresBy (f : Expr → Option (Option Value)) (roots : List Expr)
    (writes : List Write) : Prop where
  /-- Nothing is stored at literals. -/
  literals : ∀ n : Expr, n.op = .const → f n = none
  /-- What is stored is what the function says. -/
  mem_iff : ∀ w, w ∈ writes ↔
    ∃ e ∈ roots, ∃ n ∈ e.nodes, n.label.cell = some w.cell ∧ f n = some w.value

/-- **Each node gets the one value that is stored for it**: a cell that several nodes
share is the cell of one tree, so all that is stored in it is one value. -/
theorem StoresBy.value_stored {f : Expr → Option (Option Value)} {roots : List Expr}
    {writes : List Write} (stores : StoresBy f roots writes) (kept : ∀ e ∈ roots, g.Keeps e)
    (he : e ∈ roots) {n : Expr} (hn : n ∈ e.nodes) :
    (n.label.stored writes).value = (f n).getD n.value := by
  have agree : ∀ w ∈ writes, n.label.cell = some w.cell → f n = some w.value := by
    intro w hw here
    obtain ⟨e', he', n', hn', there, value⟩ := (stores.mem_iff w).1 hw
    obtain rfl : n = n' := ((kept e he n hn).1 _ here).trans ((kept e' he' n' hn').1 _ there).symm
    exact value
  cases own : f n with
  | none =>
    rw [Label.stored_of_forall_ne fun w hw here => nomatch own.symm.trans (agree w hw here)]
    rfl
  | some v =>
    have cell : n.label.cell ≠ none := fun bare => by
      rw [stores.literals n ((kept e he n hn).2 bare)] at own
      cases own
    obtain ⟨i, here⟩ := Option.ne_none_iff_exists'.1 cell
    refine Label.value_stored (fun w hw here => ?_) ⟨⟨i, v⟩, ?_, here⟩
    · exact Option.some.inj ((agree w hw here).symm.trans own)
    · exact (stores.mem_iff _).2 ⟨e, he, n, hn, here, own⟩

/-- **Storing the values of all nodes** of some kept expressions settles the
expressions. -/
theorem current_store {roots : List Expr} {ρ : String → Option Value} {writes : List Write}
    (kept : ∀ e ∈ roots, g.Keeps e) (built : ∀ e ∈ roots, e.Built)
    (stores : ∀ w, w ∈ writes ↔ ∃ e ∈ roots, ∃ n ∈ e.nodes, n.Stores ρ w) (he : e ∈ roots) :
    (g.store writes).current e = e.settled ρ := by
  let f (n : Expr) : Option (Option Value) :=
    if n.op = .const then none else some (n.settledValue ρ)
  have stores' : StoresBy f roots writes := by
    refine ⟨fun n literal => if_pos literal, fun w => ?_⟩
    rw [stores]
    refine exists_congr fun e => and_congr_right fun _ =>
      exists_congr fun n => and_congr_right fun _ => ?_
    unfold Expr.Stores
    by_cases literal : n.op = .const
    · simp [f, literal]
    · simp only [f, literal, ne_eq, not_false_eq_true, true_and, if_false, Option.some.injEq]
      rw [eq_comm (a := w.value)]
  rw [(kept e he).current_store (built e he).shaped]
  refine Expr.stored_eq_settled fun n hn => ?_
  rw [stores'.value_stored kept he hn]
  show (if n.op = .const then none else some (n.settledValue ρ)).getD n.value = _
  by_cases literal : n.op = .const
  · obtain ⟨l, cs⟩ := n
    rw [if_pos literal]
    exact (Expr.settledValue_const literal cs).symm
  · rw [if_neg literal]
    rfl

/-- Some expressions whose nodes are kept, each with as many children as its operator
takes. -/
def Holds (g : Graph) (roots : List Expr) : Prop :=
  ∀ e ∈ roots, g.Keeps e ∧ e.Shaped

theorem Holds.map_current {roots : List Expr} (h : g.Holds roots) :
    roots.map g.current = roots := by
  rw [List.map_congr_left fun e he => (h e he).1.current, List.map_id']

/-- An assignment goes through and stores what it stores in the trees. -/
theorem Holds.assign_eq {roots : List Expr} (h : g.Holds roots) (m : Expr.Assignment) :
    g.assign m roots = (.ok (), g.store (Expr.assignAll m roots).1) := by
  obtain ⟨vs, values⟩ := Outcome.exists_row fun e he => (h e he).2.exists_assign (m := m)
  unfold Graph.assign
  rw [h.map_current]
  refine Prod.ext ?_ rfl
  show (Expr.assignAll m roots).2.map (fun _ => ()) = .ok ()
  rw [Expr.snd_assignAll, Outcome.mapM_eq_ok_iff.2 values]
  rfl

/-- **An assignment settles expressions**: afterwards each node of them shows its
value under the assigned values, whatever has been stored there before and
wherever else it occurs. -/
theorem assign_spec {roots : List Expr} {m : Expr.Assignment} {ρ : String → Option Value}
    (kept : ∀ e ∈ roots, g.Keeps e) (built : ∀ e ∈ roots, e.Built)
    (given : ∀ e ∈ roots, ∀ x ∈ e.variableNames, m.lookup x = some (ρ x)) :
    (g.assign m roots).1 = .ok () ∧
      ∀ e ∈ roots, (g.assign m roots).2.current e = e.settled ρ := by
  have holds : g.Holds roots := fun e he => ⟨kept e he, (built e he).shaped⟩
  have stores (w : Write) : w ∈ (Expr.assignAll m roots).1 ↔
      ∃ e ∈ roots, ∃ n ∈ e.nodes, n.Stores ρ w := by
    rw [Expr.mem_assignAll_iff fun e he => (holds e he).2.exists_assign]
    exact exists_congr fun e => and_congr_right fun he =>
      Expr.mem_assign_iff (built e he) (given e he)
  rw [holds.assign_eq]
  exact ⟨rfl, fun e he => current_store kept built stores he⟩

end Graph

end SmtDialogue
