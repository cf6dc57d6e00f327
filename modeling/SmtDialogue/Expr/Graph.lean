import SmtDialogue.Expr.Combine
import SmtDialogue.Expr.Equality
import SmtDialogue.Expr.Evaluate

/-!
# Kept nodes

Expressions that are kept share their parts: a node that occurs in several
expressions is one node, and a value stored at one occurrence is seen at all of
them. A graph is the table of the nodes that have been kept. The children of a
node are the numbers of cells made before it, so that unfolding all nodes to
trees is one pass over the table; a number that names no earlier cell unfolds to
the empty constant, and no operation of this module makes one. The graph has the
trees at hand beside the table.

Operations on trees become operations on the graph by looking up the tree of a
node and working on it. What an operation stores it names as a list of cells
with their values, and the graph takes these one after the other.
-/

namespace SmtDialogue

/-- The number of a kept node. -/
abbrev NodeId := Nat

/-- A kept node: what it carries, and the numbers of its children. -/
structure Cell where
  /-- What the node carries. -/
  label : Label
  /-- The children, in construction order. -/
  children : List NodeId
deriving Repr

/-- One more unfolded node after those before it. -/
def Cell.unfold (trees : Array Expr) (c : Cell) : Array Expr :=
  trees.push <| .node { c.label with cell := some trees.size }
    (c.children.map fun i => trees.getD i default)

/-- The nodes that have been kept. -/
structure Graph where
  /-- The cells, oldest first. -/
  cells : Array Cell := #[]
  /-- The trees that the cells unfold to. -/
  trees : Array Expr := #[]
  /-- The trees are those of the cells. -/
  trees_eq : trees = cells.foldl Cell.unfold #[] := by rfl

namespace Graph

/-- The graph with the given cells. -/
def ofCells (cells : Array Cell) : Graph where
  cells := cells
  trees := cells.foldl Cell.unfold #[]

/-- The number of kept nodes. -/
def size (g : Graph) : Nat := g.cells.size

/-- One more kept node. -/
def push (g : Graph) (c : Cell) : Graph where
  cells := g.cells.push c
  trees := c.unfold g.trees
  trees_eq := by rw [Array.foldl_push, ← g.trees_eq]

/-- The tree of a kept node. -/
def view (g : Graph) (i : NodeId) : Expr :=
  g.trees.getD i default

mutual

/-- Keeps an expression: its nodes that are kept already stay what they are, the
others get new cells, children first. -/
def keep (g : Graph) : Expr → Graph × NodeId
  | .node l cs =>
    match l.cell with
    | some i => (g, i)
    | none =>
      let (g, children) := g.keepAll cs
      let i := g.size
      (g.push ⟨l, children⟩, i)

/-- Keeps several expressions. -/
def keepAll (g : Graph) : List Expr → Graph × List NodeId
  | [] => (g, [])
  | e :: es =>
    let (g, i) := g.keep e
    let (g, is) := g.keepAll es
    (g, i :: is)

end

/-- Changes what a kept node carries. -/
def relabel (i : NodeId) (f : Label → Label) (cells : Array Cell) : Array Cell :=
  cells.modify i fun c => { c with label := f c.label }

/-- Stores a value at a kept node. -/
def setValue (g : Graph) (i : NodeId) (v : Option Value) : Graph :=
  ofCells (relabel i (fun l => { l with value := v }) g.cells)

/-- Renames a kept node. Names derived from its old name stay. -/
def setName (g : Graph) (i : NodeId) (name : String) : Graph :=
  ofCells (relabel i (fun l => { l with name }) g.cells)

/-- Stores some values, one after the other. -/
def store (g : Graph) (writes : List Expr.Write) : Graph :=
  ofCells <| writes.foldl
    (fun cells w => relabel w.cell (fun l => { l with value := w.value }) cells) g.cells

/-- The tree that an expression unfolds to now: a kept one is looked up, any
other is as it stands. -/
def current (g : Graph) (e : Expr) : Expr :=
  match e.label.cell with
  | some i => g.view i
  | none => e

/-- Stores the values of an assignment at the variables of some expressions, and
the resulting value at each of their compound nodes. The expressions are taken
in order up to the first that has no value; what is stored before that error
remains. -/
def assign (g : Graph) (m : Expr.Assignment) (roots : List Expr) :
    Except EvaluationError Unit × Graph :=
  let (writes, outcome) := Expr.assignAll m (roots.map g.current)
  (outcome.map fun _ => (), g.store writes)

/-- Removes every value stored in some expressions but those of constants. -/
def clear (g : Graph) (roots : List Expr) : Graph :=
  g.store ((roots.map g.current).flatMap Expr.clear)

/-! ## Operands -/

mutual

/-- Keeps every expression of an operand, and gives the operand back as it
unfolds then. -/
def adopt (g : Graph) : Operand → Graph × Operand
  | .expr e =>
    let (g, i) := g.keep e
    (g, .expr (g.view i))
  | .list items =>
    let (g, items) := g.adoptAll items
    (g, .list items)
  | .tuple items =>
    let (g, items) := g.adoptAll items
    (g, .tuple items)
  | other => (g, other)

/-- Keeps every expression of several operands. -/
def adoptAll (g : Graph) : List Operand → Graph × List Operand
  | [] => (g, [])
  | item :: items =>
    let (g, item) := g.adopt item
    let (g, items) := g.adoptAll items
    (g, item :: items)

end

mutual

/-- An operand with every expression as it unfolds now. -/
def refresh (g : Graph) : Operand → Operand
  | .expr e => .expr (g.current e)
  | .list items => .list (g.refreshAll items)
  | .tuple items => .tuple (g.refreshAll items)
  | other => other

/-- The same for several operands. -/
def refreshAll (g : Graph) : List Operand → List Operand
  | [] => []
  | item :: items => g.refresh item :: g.refreshAll items

end

/-! ## Laws -/

/-- The tree of a number that names no cell has no kept node. -/
theorem cell_of_mem_nodes_default {n : Expr} (h : n ∈ (default : Expr).nodes) :
    n.label.cell = none := by
  have bare : (default : Expr) = .node ⟨.const, "", none, none, none⟩ [] := rfl
  rw [bare, Expr.nodes_node, List.flatMap_nil, List.mem_singleton] at h
  rw [h]
  rfl

/-- One more unfolded node keeps the trees before it. -/
theorem getD_unfold_of_lt {trees : Array Expr} (c : Cell) {i : Nat} (h : i < trees.size) :
    (c.unfold trees).getD i default = trees.getD i default := by
  simp [Cell.unfold, Array.getElem?_push_lt h, Array.getElem?_eq_getElem h]

/-- The last tree of a row with one more node. -/
theorem getD_unfold_size (trees : Array Expr) (c : Cell) :
    (c.unfold trees).getD trees.size default =
      .node { c.label with cell := some trees.size }
        (c.children.map fun i => trees.getD i default) := by
  simp [Cell.unfold]

/-- One more unfolded node has itself and the nodes of its children. -/
theorem mem_nodes_unfold {trees : Array Expr} {c : Cell} {k : Nat} {n : Expr}
    (h : n ∈ ((c.unfold trees).getD k default).nodes) :
    n = (c.unfold trees).getD trees.size default ∨ ∃ j, n ∈ (trees.getD j default).nodes := by
  rcases Nat.lt_trichotomy k trees.size with lt | rfl | gt
  · rw [getD_unfold_of_lt c lt] at h
    exact .inr ⟨k, h⟩
  · rw [getD_unfold_size, Expr.nodes_node, List.mem_cons] at h
    rcases h with rfl | h
    · exact .inl (getD_unfold_size trees c).symm
    · obtain ⟨d, hd, h⟩ := List.mem_flatMap.1 h
      obtain ⟨j, -, rfl⟩ := List.mem_map.1 hd
      exact .inr ⟨j, h⟩
  · have size : (c.unfold trees).size = trees.size + 1 := by simp [Cell.unfold]
    have outside : (c.unfold trees).getD k default = trees.getD k default := by
      rw [Array.getD_eq_getD_getElem?, Array.getD_eq_getD_getElem?,
        Array.getElem?_eq_none (by omega), Array.getElem?_eq_none (by omega)]
    rw [outside] at h
    exact .inr ⟨k, h⟩

/-- The kept nodes of every unfolded tree are trees of the same row. -/
def AllKept (trees : Array Expr) : Prop :=
  ∀ k, ∀ n ∈ (trees.getD k default).nodes, ∀ i, n.label.cell = some i →
    i < trees.size ∧ n = trees.getD i default

/-- One more unfolded node has itself and the kept nodes of its children. -/
theorem allKept_unfold {trees : Array Expr} (h : AllKept trees) (c : Cell) :
    AllKept (c.unfold trees) := by
  have size : (c.unfold trees).size = trees.size + 1 := by simp [Cell.unfold]
  intro k n hn i hi
  rcases mem_nodes_unfold hn with rfl | ⟨j, hn⟩
  · rw [getD_unfold_size] at hi
    cases hi
    exact ⟨by omega, rfl⟩
  · obtain ⟨lt, eq⟩ := h j n hn i hi
    rw [getD_unfold_of_lt c lt]
    exact ⟨by omega, eq⟩

/-- **The kept nodes of a view are views.** -/
theorem isKeptIn_view (g : Graph) (i : NodeId) : (g.view i).IsKeptIn g.view := by
  have all : ∀ (cells : List Cell) (trees : Array Expr), AllKept trees →
      AllKept (cells.foldl Cell.unfold trees) := by
    intro cells
    induction cells with
    | nil => exact fun _ h => h
    | cons c cells ih => exact fun trees h => ih _ (allKept_unfold h c)
  have empty : AllKept #[] := fun _ n hn k hk => by
    cases hk.symm.trans (cell_of_mem_nodes_default hn)
  intro n hn k hk
  have kept := all g.cells.toList #[] empty
  rw [Array.foldl_toList, ← g.trees_eq] at kept
  exact (kept i n hn k hk).2

/-- Changing what nodes carry makes and removes no node. -/
@[simp] theorem size_relabel (i : NodeId) (f : Label → Label) (cells : Array Cell) :
    (relabel i f cells).size = cells.size := by
  simp [relabel]

@[simp] theorem ofCells_cells (g : Graph) : ofCells g.cells = g := by
  obtain ⟨cells, trees, rfl⟩ := g
  rfl

@[simp] theorem store_nil (g : Graph) : g.store [] = g := ofCells_cells g

@[simp] theorem store_cons (g : Graph) (w : Expr.Write) (writes : List Expr.Write) :
    g.store (w :: writes) = (g.setValue w.cell w.value).store writes := rfl

/-- Storing one row of values after another is storing both. -/
theorem store_append (g : Graph) (first second : List Expr.Write) :
    g.store (first ++ second) = (g.store first).store second := by
  induction first generalizing g with
  | nil => simp
  | cons w writes ih => rw [List.cons_append, store_cons, store_cons, ih]

/-- Storing values makes and removes no node. -/
@[simp] theorem size_store (g : Graph) (writes : List Expr.Write) :
    (g.store writes).size = g.size := by
  induction writes generalizing g with
  | nil => simp
  | cons w writes ih =>
    rw [store_cons, ih]
    exact size_relabel w.cell _ g.cells

end Graph

end SmtDialogue
