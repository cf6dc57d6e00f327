import SmtDialogue.Expr.Op

/-!
# Expressions

An expression is a tree. Every node has an operator, a display name, a sort
when that is known from its construction, a value while one is assigned, and
its children in the order in which they were given. Variables and constants are
the leaves: a variable's name is its identity, a constant carries its value.

Trees are values and have no identity of their own. A node that is kept in a
`Graph` carries the number of its cell, so that two occurrences of one kept
node can be told from two nodes that look alike. That number is no part of what
the node says: it names where values are stored, and it saves a comparison from
looking below a node that both sides have.
-/

namespace SmtDialogue

/-- What a node carries besides its children. -/
structure Label where
  /-- The operator. -/
  op : Op
  /-- The display name: given for a variable, derived otherwise. -/
  name : String
  /-- The sort when it is known from the construction. -/
  sort : Option SmtSort := none
  /-- The assigned value. -/
  value : Option Value := none
  /-- The cell of the graph in which the node is kept, if it is kept. -/
  cell : Option Nat := none
deriving DecidableEq, Repr

/-- An expression. -/
inductive Expr where
  /-- A node with its children in construction order. -/
  | node (label : Label) (children : List Expr)
deriving Repr

namespace Expr

/-- What the root carries. -/
def label : Expr → Label
  | node label _ => label

/-- The children of the root. -/
def children : Expr → List Expr
  | node _ children => children

/-- The operator of the root. -/
abbrev op (e : Expr) : Op := e.label.op

/-- The display name of the root. -/
abbrev name (e : Expr) : String := e.label.name

/-- The sort recorded at the root. -/
abbrev sort (e : Expr) : Option SmtSort := e.label.sort

/-- The value stored at the root. -/
abbrev value (e : Expr) : Option Value := e.label.value

@[simp] theorem label_node (l : Label) (cs : List Expr) : (node l cs).label = l := rfl

@[simp] theorem children_node (l : Label) (cs : List Expr) : (node l cs).children = cs := rfl

@[simp] theorem node_label_children (e : Expr) : node e.label e.children = e := by cases e; rfl

instance : Inhabited Expr := ⟨node ⟨.const, "", none, none, none⟩ []⟩

/-- Whether the root is a variable or a constant. -/
def isLeaf (e : Expr) : Bool := e.op.isLeaf

/-- Whether the root is a variable. -/
def isVariable (e : Expr) : Bool := e.op == .identity

/-- Induction over expressions, with the induction hypothesis for every
child. -/
theorem induct {motive : Expr → Prop}
    (node : ∀ l cs, (∀ c ∈ cs, motive c) → motive (node l cs)) : ∀ e, motive e :=
  @Expr.rec motive (fun cs => ∀ c ∈ cs, motive c) node (fun _ h => nomatch h)
    (fun _ _ first rest c h => (List.mem_cons.1 h).elim (· ▸ first) (rest c))

/-! ## Traversal -/

mutual

/-- All nodes of the tree, each before its children. -/
def nodes : Expr → List Expr
  | node l cs => node l cs :: nodesOfAll cs

/-- All nodes of several trees, one tree after the other. -/
def nodesOfAll : List Expr → List Expr
  | [] => []
  | e :: es => e.nodes ++ nodesOfAll es

end

@[simp] theorem nodesOfAll_eq_flatMap (es : List Expr) : nodesOfAll es = es.flatMap nodes := by
  induction es with
  | nil => rfl
  | cons e es ih => simp [nodesOfAll, ih]

/-- The nodes of a tree are its root and the nodes of its children. -/
theorem nodes_node (l : Label) (cs : List Expr) :
    (node l cs).nodes = node l cs :: cs.flatMap nodes := by
  simp [nodes]

theorem mem_nodes_self (e : Expr) : e ∈ e.nodes := by
  cases e
  rw [nodes_node]
  exact List.mem_cons_self

theorem mem_nodes_of_mem_children {e c : Expr} (hc : c ∈ e.children) : c ∈ e.nodes := by
  cases e
  rw [nodes_node]
  exact List.mem_cons_of_mem _ (List.mem_flatMap.2 ⟨c, hc, c.mem_nodes_self⟩)

/-- The parts of a part are parts. -/
theorem nodes_subset {e n : Expr} (hn : n ∈ e.nodes) : n.nodes ⊆ e.nodes := by
  induction e using induct with
  | node l cs ih =>
    rw [nodes_node] at hn ⊢
    rcases List.mem_cons.1 hn with rfl | hn
    · rw [nodes_node]
      exact fun _ h => h
    · obtain ⟨c, hc, hn⟩ := List.mem_flatMap.1 hn
      exact fun m hm => List.mem_cons_of_mem _ (List.mem_flatMap.2 ⟨c, hc, ih c hc hn hm⟩)

/-- The number of nodes of the tree. -/
def size (e : Expr) : Nat := e.nodes.length

/-- A node is appended unless its name is there already. -/
def addByName (found : List Expr) (e : Expr) : List Expr :=
  if found.any (·.name == e.name) then found else found ++ [e]

/-- The variables of several expressions, each name once, in the order of their
first occurrence. -/
def vars (es : List Expr) : List Expr :=
  ((es.flatMap nodes).filter isVariable).foldl addByName []

/-- The sort that an expression produces, when it is known: operators of logic,
comparison and arithmetic fix it, leaves and choices carry it. -/
def resultSort (e : Expr) : Option SmtSort :=
  e.op.resultSort?.or e.sort

end Expr

end SmtDialogue
