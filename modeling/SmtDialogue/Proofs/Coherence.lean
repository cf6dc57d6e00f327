import SmtDialogue.Proofs.Storing

/-!
# Stored values cohere

An assignment goes through nodes that are shared: it may come to a node several times,
by several parents and from several roots, and it writes in place. It takes the value
that it passes on from what it has just computed and not from what is stored, so one
may ask whether a later visit can change what an earlier parent was computed from.

It cannot. All that is written at a node is a function of the tree of the node as it was
before (`Expr.written?`), so all visits write the same. Afterwards the variables that the
assignment names have their values, every compound node has the value that evaluation
makes of it then, and everything else is as it was (`Graph.AssignedIn`). That determines
the result: two assignments one after the other are one (`Graph.coherent`).
-/

namespace SmtDialogue

open Expr (Write Assignment assignAll)

namespace Graph

variable {g : Graph}

/-! ## Cells and what they show -/

theorem getD_foldl_unfold_of_lt (cells : List Cell) {trees : Array Expr} {k : Nat}
    (inside : k < trees.size) :
    (cells.foldl Cell.unfold trees).getD k default = trees.getD k default := by
  induction cells generalizing trees with
  | nil => rfl
  | cons c cells ih =>
    have size : (c.unfold trees).size = trees.size + 1 := by simp [Cell.unfold]
    rw [List.foldl_cons, ih (by omega), getD_unfold_of_lt c inside]

/-- Each cell unfolds to a node that carries the same, and the number of the cell. -/
theorem label_foldl_unfold {cells : List Cell} {trees : Array Expr} {i : Nat} {c : Cell}
    (here : cells[i]? = some c) :
    ((cells.foldl Cell.unfold trees).getD (trees.size + i) default).label =
      { c.label with cell := some (trees.size + i) } := by
  induction cells generalizing trees i with
  | nil => cases here
  | cons d cells ih =>
    have size : (d.unfold trees).size = trees.size + 1 := by simp [Cell.unfold]
    rw [List.foldl_cons]
    cases i with
    | zero =>
      cases here
      rw [Nat.add_zero, getD_foldl_unfold_of_lt _ (by omega), getD_unfold_size]
      rfl
    | succ i =>
      rw [show trees.size + (i + 1) = (d.unfold trees).size + i by omega]
      exact ih here

theorem label_view {i : NodeId} {c : Cell} (here : g.cells[i]? = some c) :
    (g.view i).label = { c.label with cell := some i } := by
  rw [← Array.getElem?_toList] at here
  have all := @label_foldl_unfold g.cells.toList #[] i c here
  rw [Array.foldl_toList, ← g.trees_eq] at all
  simpa [view] using all

theorem size_trees (g : Graph) : g.trees.size = g.cells.size := by
  have all (cells : List Cell) (trees : Array Expr) :
      (cells.foldl Cell.unfold trees).size = trees.size + cells.length := by
    induction cells generalizing trees with
    | nil => rfl
    | cons c cells ih =>
      rw [List.foldl_cons, ih, Cell.unfold, Array.size_push, List.length_cons]
      omega
  have size := all g.cells.toList #[]
  rw [Array.foldl_toList, ← g.trees_eq] at size
  simpa using size

/-- A number that names no cell is shown as the node that has none. -/
theorem view_of_getElem?_eq_none {i : NodeId} (none : g.cells[i]? = none) :
    g.view i = default := by
  have outside : g.trees.size ≤ i := by
    rw [g.size_trees]
    exact Array.getElem?_eq_none_iff.1 none
  rw [view, Array.getD_eq_getD_getElem?, Array.getElem?_eq_none outside]
  rfl

/-- A node that is shown for a cell has this cell, if any. -/
theorem eq_of_cell_view {i j : NodeId} (h : (g.view i).label.cell = some j) : j = i := by
  cases here : g.cells[i]? with
  | none =>
    rw [view_of_getElem?_eq_none here] at h
    cases h
  | some c =>
    rw [label_view here] at h
    exact (Option.some.inj h).symm

/-- **Storing changes values only**, and what it makes of a cell is what the cell shows
then. -/
theorem getElem?_cells_store (g : Graph) (writes : List Write) (i : NodeId) :
    (g.store writes).cells[i]? = g.cells[i]?.map fun c =>
      { c with label := { c.label with value := ((g.store writes).view i).value } } := by
  have revalued : ∀ c, g.cells[i]? = some c → ∃ v, (g.store writes).cells[i]? =
      some { c with label := { c.label with value := v } } := by
    induction writes generalizing g with
    | nil =>
      intro c here
      rw [store_nil]
      exact ⟨c.label.value, here⟩
    | cons w writes ih =>
      intro c here
      have first : ∃ v, (g.setValue w.cell w.value).cells[i]? =
          some { c with label := { c.label with value := v } } := by
        show ∃ v, (relabel w.cell _ g.cells)[i]? = _
        rw [relabel, Array.getElem?_modify, here]
        by_cases same : w.cell = i
        · exact ⟨w.value, if_pos same⟩
        · exact ⟨c.label.value, if_neg same⟩
      obtain ⟨v, stored⟩ := first
      obtain ⟨v', stored'⟩ := ih (g.setValue w.cell w.value) _ stored
      exact ⟨v', stored'⟩
  cases here : g.cells[i]? with
  | none =>
    have outside : (g.store writes).size ≤ i := by
      rw [size_store]
      exact Array.getElem?_eq_none_iff.1 here
    exact Array.getElem?_eq_none outside
  | some c =>
    obtain ⟨v, stored⟩ := revalued c here
    rw [Expr.value, label_view stored, stored]
    rfl

/-- Graphs with the same cells are the same. -/
theorem eq_of_cells {g h : Graph} (same : g.cells = h.cells) : g = h := by
  rw [← ofCells_cells g, ← ofCells_cells h, same]

/-- Two ways to store values in a graph that show the same values are the same. -/
theorem store_eq_of_value {first second : List Write}
    (same : ∀ i, ((g.store first).view i).value = ((g.store second).view i).value) :
    g.store first = g.store second := by
  refine eq_of_cells (Array.ext_getElem? fun i => ?_)
  rw [getElem?_cells_store, getElem?_cells_store, same]

/-! ## Roots -/

/-- **A cell that is reached from some expressions.** -/
def Reached (roots : List Expr) (i : NodeId) : Prop :=
  ∃ e ∈ roots, ∃ n ∈ e.nodes, n.label.cell = some i

variable {roots : List Expr}

theorem Keeps.store {e : Expr} (h : g.Keeps e) (writes : List Write) :
    (g.store writes).Keeps (e.stored writes) := by
  intro n hn
  rw [Expr.nodes_stored] at hn
  obtain ⟨d, hd, rfl⟩ := List.mem_map.1 hn
  obtain ⟨kept, literal⟩ := h d hd
  rw [Expr.op_stored, Expr.label_stored, Label.cell_stored]
  exact ⟨fun i here => by rw [view_store, ← kept i here], literal⟩

/-- Expressions are held with the values that are stored. -/
theorem Holds.store (h : g.Holds roots) (writes : List Write) :
    (g.store writes).Holds (roots.map (Expr.stored writes)) := by
  intro e he
  obtain ⟨d, hd, rfl⟩ := List.mem_map.1 he
  exact ⟨(h d hd).1.store writes, (h d hd).2.stored writes⟩

/-- It does not matter which values expressions show that are looked up: it is the cell
that is looked up. -/
theorem Holds.map_current_stored (h : g.Holds roots) (writes : List Write) (g' : Graph) :
    (roots.map (Expr.stored writes)).map g'.current = roots.map g'.current := by
  rw [List.map_map]
  refine List.map_congr_left fun e he => ?_
  obtain ⟨kept, shaped⟩ := h e he
  cases bare : e.label.cell with
  | none => exact congrArg g'.current (kept.stored_of_bare shaped bare writes)
  | some i =>
    have cell : (e.stored writes).label.cell = some i := by
      rw [Expr.label_stored, Label.cell_stored, bare]
    show g'.current (e.stored writes) = g'.current e
    rw [current, current, cell, bare]

theorem Holds.assign_stored (h : g.Holds roots) (writes : List Write) (g' : Graph)
    (m : Assignment) : g'.assign m (roots.map (Expr.stored writes)) = g'.assign m roots := by
  rw [Graph.assign, h.map_current_stored]
  rfl

theorem Holds.clear_stored (h : g.Holds roots) (writes : List Write) (g' : Graph) :
    g'.clear (roots.map (Expr.stored writes)) = g'.clear roots := by
  rw [Graph.clear, h.map_current_stored]
  rfl

/-- Storing values does not change what is reached. -/
theorem reached_stored {writes : List Write} {i : NodeId} :
    Reached (roots.map (Expr.stored writes)) i ↔ Reached roots i := by
  unfold Reached
  simp only [List.mem_map, exists_exists_and_eq_and, Expr.nodes_stored, Expr.label_stored,
    Label.cell_stored]

/-! ## Values after storing -/

section Values

variable {f : Expr → Option (Option Value)} {writes : List Write} {i : NodeId}

theorem StoresBy.value_of_reached (stores : StoresBy f roots writes) (h : g.Holds roots)
    (reached : Reached roots i) :
    ((g.store writes).view i).value = (f (g.view i)).getD (g.view i).value := by
  obtain ⟨e, he, n, hn, here⟩ := reached
  rw [view_store, ← ((h e he).1 n hn).1 i here, Expr.value, Expr.label_stored]
  exact stores.value_stored (fun e he => (h e he).1) he hn

theorem StoresBy.value_of_not_reached (stores : StoresBy f roots writes)
    (other : ¬ Reached roots i) : ((g.store writes).view i).value = (g.view i).value := by
  rw [view_store, Expr.value, Expr.label_stored, Label.stored_of_forall_ne]
  intro w hw here
  obtain rfl := eq_of_cell_view here
  obtain ⟨e, he, n, hn, cell, -⟩ := (stores.mem_iff w).1 hw
  exact other ⟨e, he, n, hn, cell⟩

end Values

end Graph

/-! ## Values after an assignment -/

namespace Expr

variable {m m' both : Assignment}

/-- An expression in whose nodes an assignment has stored what it stores there. -/
def Assigned (m : Assignment) (writes : List Write) (e : Expr) : Prop :=
  ∀ n ∈ e.nodes, (n.label.stored writes).value = (n.written? m).getD n.value

theorem Assigned.child {writes : List Write} {l : Label} {cs : List Expr}
    (h : (node l cs).Assigned m writes) {c : Expr} (hc : c ∈ cs) : c.Assigned m writes :=
  fun n hn => h n (nodes_subset (mem_nodes_of_mem_children hc) hn)

/-- **Evaluation gives what the assignment has given.** -/
theorem Assigned.evaluate {writes : List Write} {e : Expr} (h : e.Assigned m writes) :
    (e.stored writes).evaluate = (e.assign m).2 := by
  induction e using induct with
  | node l cs ih =>
    have own := h _ (mem_nodes_self _)
    rw [label_node] at own
    rw [stored_node, evaluate_node, own, Label.stored_eq]
    by_cases var : l.op = .identity
    · rw [written?_identity var, assign_identity var, if_pos (by rw [var]; rfl)]
      cases m.lookup l.name <;> rfl
    by_cases literal : l.op = .const
    · rw [written?_const literal, assign_const literal, if_pos (by rw [literal]; rfl)]
      rfl
    have inner : l.op.isLeaf = false := Op.isLeaf_eq_false_iff.2 ⟨var, literal⟩
    rw [snd_assign_inner inner, if_neg (Bool.not_eq_true _ ▸ inner), List.mapM_map]
    congr 1
    exact mapM_congr fun c hc => ih c hc (h.child hc)

/-- **A second assignment gives what both together give**, the second one first. -/
theorem Assigned.assign {writes : List Write} {e : Expr} (h : e.Assigned m writes)
    (override : ∀ x, both.lookup x = (m'.lookup x).or (m.lookup x)) :
    ((e.stored writes).assign m').2 = (e.assign both).2 := by
  induction e using induct with
  | node l cs ih =>
    have own := h _ (mem_nodes_self _)
    rw [label_node] at own
    have same : (l.stored writes).op = l.op := Label.op_stored writes l
    rw [stored_node]
    by_cases var : l.op = .identity
    · rw [assign_identity (same.trans var), assign_identity var, Label.name_stored, own,
        written?_identity var, override]
      cases m'.lookup l.name <;> cases m.lookup l.name <;> rfl
    by_cases literal : l.op = .const
    · rw [assign_const (same.trans literal), assign_const literal, own, written?_const literal]
      rfl
    have inner : l.op.isLeaf = false := Op.isLeaf_eq_false_iff.2 ⟨var, literal⟩
    rw [snd_assign_inner (by rw [same, inner]), snd_assign_inner inner, same, List.mapM_map]
    congr 1
    exact mapM_congr fun c hc => ih c hc (h.child hc)

/-- What the second assignment leaves at a node is what both together leave there. -/
theorem Assigned.written? {writes : List Write} {e : Expr} (h : e.Assigned m writes)
    (override : ∀ x, both.lookup x = (m'.lookup x).or (m.lookup x)) :
    ((e.stored writes).written? m').getD (e.stored writes).value =
      (e.written? both).getD e.value := by
  have own := h _ (mem_nodes_self _)
  have together := h.assign override
  obtain ⟨l, cs⟩ := e
  rw [label_node] at own
  have same : (l.stored writes).op = l.op := Label.op_stored writes l
  rw [stored_node] at together ⊢
  rw [value, label_node, own]
  by_cases var : l.op = .identity
  · rw [written?_identity (same.trans var), written?_identity var, written?_identity var,
      Label.name_stored, override]
    cases m'.lookup l.name <;> cases m.lookup l.name <;> rfl
  by_cases literal : l.op = .const
  · rw [written?_const (same.trans literal), written?_const literal, written?_const literal]
    rfl
  have inner : l.op.isLeaf = false := Op.isLeaf_eq_false_iff.2 ⟨var, literal⟩
  rw [written?_inner (by rw [same, inner]), written?_inner (m := both) inner, assignedValue,
    assignedValue, together]
  rfl

end Expr

/-! ## Assignments and removals on shared nodes -/

namespace Graph

variable {g : Graph} {roots : List Expr} {m m' both : Assignment}

theorem Holds.storesBy_assign (h : g.Holds roots) (m : Assignment) :
    StoresBy (Expr.written? m) roots (assignAll m roots).1 := by
  refine ⟨fun n literal => ?_, fun w => ?_⟩
  · obtain ⟨l, cs⟩ := n
    exact Expr.written?_const literal cs
  · rw [Expr.mem_assignAll_iff fun e he => (h e he).2.exists_assign]
    exact exists_congr fun e => and_congr_right fun he => Expr.mem_assign (h e he).2

/-- Every node has what the assignment stores there. -/
theorem Holds.assigned (h : g.Holds roots) {e : Expr} (he : e ∈ roots) {n : Expr}
    (hn : n ∈ e.nodes) : n.Assigned m (assignAll m roots).1 := fun _ hd =>
  (h.storesBy_assign m).value_stored (fun e he => (h e he).1) he (Expr.nodes_subset hn hd)

/-- **What an assignment leaves.** -/
structure AssignedIn (m : Assignment) (roots : List Expr) (before after : Graph) : Prop where
  /-- The variables that it names have their values. -/
  named : ∀ i, Reached roots i → (before.view i).op = .identity →
    ∀ v, m.lookup (before.view i).name = some v → (after.view i).value = v
  /-- Every other leaf is as it was. -/
  leaves : ∀ i, Reached roots i → (before.view i).op = .const ∨
    (before.view i).op = .identity ∧ m.lookup (before.view i).name = none →
    (after.view i).value = (before.view i).value
  /-- Every compound node has the value that evaluation makes of it. -/
  compound : ∀ i, Reached roots i → (before.view i).op.isLeaf = false →
    (after.view i).evaluate = .ok (after.view i).value
  /-- Nodes elsewhere are as they were. -/
  others : ∀ i, ¬ Reached roots i → (after.view i).value = (before.view i).value
  /-- Nothing changes but values. -/
  values : ∀ i : Nat, after.cells[i]? = before.cells[i]?.map fun c =>
    { c with label := { c.label with value := (after.view i).value } }

/-- **What a removal of values leaves.** -/
structure ClearedIn (roots : List Expr) (before after : Graph) : Prop where
  /-- Variables and compound nodes have no value. -/
  removed : ∀ i, Reached roots i → (before.view i).op ≠ .const → (after.view i).value = none
  /-- Literals have theirs. -/
  literals : ∀ i, Reached roots i → (before.view i).op = .const →
    (after.view i).value = (before.view i).value
  /-- Nodes elsewhere are as they were. -/
  others : ∀ i, ¬ Reached roots i → (after.view i).value = (before.view i).value
  /-- Nothing changes but values. -/
  values : ∀ i : Nat, after.cells[i]? = before.cells[i]?.map fun c =>
    { c with label := { c.label with value := (after.view i).value } }

theorem AssignedIn.of_stored {writes : List Write} {before after : Graph}
    (h : AssignedIn m (roots.map (Expr.stored writes)) before after) :
    AssignedIn m roots before after where
  named i reached := h.named i (reached_stored.2 reached)
  leaves i reached := h.leaves i (reached_stored.2 reached)
  compound i reached := h.compound i (reached_stored.2 reached)
  others i other := h.others i (mt reached_stored.1 other)
  values := h.values

theorem ClearedIn.of_stored {writes : List Write} {before after : Graph}
    (h : ClearedIn (roots.map (Expr.stored writes)) before after) :
    ClearedIn roots before after where
  removed i reached := h.removed i (reached_stored.2 reached)
  literals i reached := h.literals i (reached_stored.2 reached)
  others i other := h.others i (mt reached_stored.1 other)
  values := h.values

theorem Holds.assignedIn (h : g.Holds roots) (m : Assignment) :
    AssignedIn m roots g (g.assign m roots).2 := by
  rw [h.assign_eq]
  have stores := h.storesBy_assign m
  refine ⟨fun i reached var v named => ?named, fun i reached leaf => ?leaves,
    fun i reached inner => ?compound, fun i other => stores.value_of_not_reached other,
    getElem?_cells_store _ _⟩
  case named =>
    rw [stores.value_of_reached h reached]
    revert var named
    cases g.view i with
    | node l cs =>
      intro var named
      rw [Expr.written?_identity (l := l) var]
      exact congrArg (Option.getD · l.value) named
  case leaves =>
    rw [stores.value_of_reached h reached]
    revert leaf
    cases g.view i with
    | node l cs =>
      rintro (literal | ⟨var, unnamed⟩)
      · rw [Expr.written?_const (l := l) literal]
        rfl
      · rw [Expr.written?_identity (l := l) var]
        exact congrArg (Option.getD · l.value) unnamed
  case compound =>
    rw [stores.value_of_reached h reached, view_store]
    obtain ⟨e, he, n, hn, here⟩ := reached
    rw [← ((h e he).1 n hn).1 i here] at inner ⊢
    have shaped : n.Shaped := fun d hd => (h e he).2 d (Expr.nodes_subset hn hd)
    obtain ⟨v, given⟩ := shaped.exists_assign (m := m)
    rw [(h.assigned he hn).evaluate, given, ← Expr.assignedValue_of_ok given]
    obtain ⟨l, cs⟩ := n
    rw [Expr.written?_inner (l := l) inner]
    rfl

theorem mem_clear {e : Expr} {w : Write} :
    w ∈ e.clear ↔ ∃ n ∈ e.nodes, n.label.cell = some w.cell ∧
      (if n.op = .const then none else some none) = some w.value := by
  unfold Expr.clear
  rw [List.mem_flatMap]
  refine exists_congr fun n => and_congr_right fun _ => ?_
  by_cases literal : n.op = .const
  · simp [literal]
  · rw [if_neg literal, if_neg (mt beq_iff_eq.1 literal), Expr.mem_writeTo, Option.some.injEq,
      eq_comm (a := w.value)]

theorem Holds.clearedIn (h : g.Holds roots) : ClearedIn roots g (g.clear roots) := by
  have stores : StoresBy (fun n => if n.op = .const then none else some none) roots
      (roots.flatMap Expr.clear) := by
    refine ⟨fun n literal => if_pos literal, fun w => ?_⟩
    rw [List.mem_flatMap]
    exact exists_congr fun e => and_congr_right fun _ => mem_clear
  unfold Graph.clear
  rw [h.map_current]
  refine ⟨fun i reached compound => ?_, fun i reached literal => ?_,
    fun i other => stores.value_of_not_reached other, getElem?_cells_store _ _⟩
  · rw [stores.value_of_reached h reached, if_neg compound]
    rfl
  · rw [stores.value_of_reached h reached, if_pos literal]
    rfl

/-- **Two assignments are one**, in which the second overrides the first. -/
theorem Holds.assign_assign (h : g.Holds roots)
    (override : ∀ x, both.lookup x = (m'.lookup x).or (m.lookup x)) :
    (g.assign m roots).2.assign m' roots = g.assign both roots := by
  have stores := h.storesBy_assign m
  have stores' := h.storesBy_assign both
  have next := h.store (assignAll m roots).1
  rw [h.assign_eq, h.assign_eq, ← h.assign_stored (assignAll m roots).1, next.assign_eq,
    ← store_append]
  refine Prod.ext rfl (store_eq_of_value fun i => ?_)
  rw [store_append]
  have second := next.storesBy_assign m'
  by_cases reached : Reached roots i
  · rw [second.value_of_reached next (reached_stored.2 reached), stores'.value_of_reached h reached,
      view_store]
    obtain ⟨e, he, n, hn, here⟩ := reached
    rw [← ((h e he).1 n hn).1 i here]
    exact (h.assigned he hn).written? override
  · rw [second.value_of_not_reached (mt reached_stored.1 reached),
      stores.value_of_not_reached reached, stores'.value_of_not_reached reached]

/-- **Stored values cohere.** Builders have made some expressions whose nodes are kept,
shared or not, and any values have been stored since. Every assignment goes through and
leaves what it names, what evaluation makes of it, and all else as it was; two
assignments are one in which the second overrides the first; and a removal of values
leaves those of literals only. -/
theorem coherent (given : ∀ e ∈ roots, g.Keeps e ∧ e.Built) (earlier : List Write) :
    let now := g.store earlier
    (∀ m, (now.assign m roots).1 = .ok () ∧ AssignedIn m roots now (now.assign m roots).2) ∧
    (∀ m m' both, (∀ x, both.lookup x = (m'.lookup x).or (m.lookup x)) →
      (now.assign m roots).2.assign m' roots = now.assign both roots) ∧
    ClearedIn roots now (now.clear roots) := by
  intro now
  have made : g.Holds roots := fun e he => ⟨(given e he).1, (given e he).2.shaped⟩
  have holds := made.store earlier
  have same (g' : Graph) (m : Assignment) := made.assign_stored earlier g' m
  refine ⟨fun m => ?_, fun m m' both override => ?_, ?_⟩
  · rw [← same]
    exact ⟨by rw [holds.assign_eq], (holds.assignedIn m).of_stored⟩
  · rw [← same, ← same, ← same, holds.assign_assign override]
  · rw [← made.clear_stored earlier]
    exact holds.clearedIn.of_stored

/-- Two variables of one name, an implication between them, and another one that has
the first and a literal for its parts. -/
def namesakes : Graph :=
  .ofCells #[⟨⟨.identity, "x", some .bool, none, none⟩, []⟩,
    ⟨⟨.identity, "x", none, some (.bool true), none⟩, []⟩,
    ⟨⟨.implies, "implies_x_x", none, some (.bool false), none⟩, [0, 1]⟩,
    ⟨⟨.const, "false", some .bool, some (.bool false), none⟩, []⟩,
    ⟨⟨.implies, "implies_implies_x_x_false", none, none, none⟩, [2, 3]⟩,
    ⟨⟨.identity, "y", some .int, some (.int 5), none⟩, []⟩]

theorem built_namesakes : ∀ e ∈ [namesakes.view 4, namesakes.view 2], e.Built := by
  have x : (namesakes.view 0).Built := .var _ _ _ _
  have x' : (namesakes.view 1).Built := .var _ _ _ _
  have first : (namesakes.view 2).Built := by
    have made : Expr.combineExprs .implies [namesakes.view 0, namesakes.view 1] =
        .ok (.node ⟨.implies, "implies_x_x", none, none, none⟩
          [namesakes.view 0, namesakes.view 1]) := rfl
    exact .compound made rfl (List.forall_mem_cons.2 ⟨x, List.forall_mem_singleton.2 x'⟩) _ _
  have literal : (namesakes.view 3).Built := .const (.bool false) _
  have second : (namesakes.view 4).Built := by
    have made : Expr.combineExprs .implies [namesakes.view 2, namesakes.view 3] =
        .ok (.node ⟨.implies, "implies_implies_x_x_false", none, none, none⟩
          [namesakes.view 2, namesakes.view 3]) := rfl
    exact .compound made rfl
      (List.forall_mem_cons.2 ⟨first, List.forall_mem_singleton.2 literal⟩) _ _
  exact List.forall_mem_cons.2 ⟨second, List.forall_mem_singleton.2 first⟩

/-- Both variables get the value of their name, both implications have the values that
evaluation gives, and what is not reached stays. -/
theorem coherent_namesakes :
    let roots := [namesakes.view 4, namesakes.view 2]
    let now := namesakes.store [⟨1, none⟩, ⟨4, some (.int 7)⟩]
    let after := (now.assign [("x", some (.bool false)), ("y", some (.int 6))] roots).2
    (after.view 0).value = some (.bool false) ∧ (after.view 1).value = some (.bool false) ∧
      (after.view 4).evaluate = .ok (after.view 4).value ∧
      (after.view 5).value = some (.int 5) ∧
      after.assign [("x", none)] roots =
        now.assign [("x", none), ("y", some (.int 6))] roots ∧
      ((now.clear roots).view 2).value = none := by
  intro roots now after
  have given : ∀ e ∈ roots, namesakes.Keeps e ∧ e.Built := fun e he => by
    refine ⟨?_, built_namesakes e he⟩
    revert e
    exact List.forall_mem_cons.2 ⟨namesakes.keeps_view 4,
      List.forall_mem_singleton.2 (namesakes.keeps_view 2)⟩
  obtain ⟨assigned, override, cleared⟩ := coherent given [⟨1, none⟩, ⟨4, some (.int 7)⟩]
  have left := (assigned [("x", some (.bool false)), ("y", some (.int 6))]).2
  have reached : ∀ i ∈ [0, 1, 2, 4], Reached roots i := by
    unfold Reached
    decide
  have apart : ¬ Reached roots 5 := by
    unfold Reached
    decide
  refine ⟨left.named 0 (reached 0 (by decide)) rfl _ rfl,
    left.named 1 (reached 1 (by decide)) rfl _ rfl, left.compound 4 (reached 4 (by decide)) rfl,
    left.others 5 apart, override _ _ _ fun x => ?_,
    cleared.removed 2 (reached 2 (by decide)) (by decide)⟩
  simp only [List.lookup_cons, List.lookup_nil]
  cases x == "x" <;> rfl

end Graph

end SmtDialogue
