import SmtDialogue.Expr.Error

/-!
# Structural equality

Two expressions are equal when operator, name and stored value agree at the
root and the children of one can be paired with equal children of the other, in
any order. The pairing is found greedily: each child takes the first child of
the other side that equals it and is still free.

Going through two expressions takes as long as they are large, and an expression
whose nodes share their parts can be far larger than the number of its nodes.
So the comparison can be told which nodes are equal anyway, and does not look
into these: two occurrences of one kept node are such a pair. Where kept nodes
are what their cells say, this changes no result (`equalsKept_eq_equals`).

Equality of operands extends this to literals and collections, and refuses to
compare an expression with a literal, which would look like a constraint; the
refusal shows the literal, if it can be written.
-/

namespace SmtDialogue

/-- Whether two nodes are occurrences of one kept node. -/
def Label.sameCell (l m : Label) : Bool :=
  l.cell.isSome && l.cell == m.cell

/-- Occurrences of one kept node have one cell. -/
theorem Label.sameCell_iff {l m : Label} :
    l.sameCell m = true ↔ ∃ i, l.cell = some i ∧ m.cell = some i := by
  unfold sameCell
  rw [Bool.and_eq_true, beq_iff_eq]
  constructor
  · rintro ⟨some, same⟩
    obtain ⟨i, hi⟩ := Option.isSome_iff_exists.1 some
    exact ⟨i, hi, same ▸ hi⟩
  · rintro ⟨i, hl, hm⟩
    exact ⟨by simp [hl], by rw [hl, hm]⟩

namespace Expr

/-- A list without its first member that passes a test; none when no member
passes. -/
def takeFirst? {α : Type} (test : α → Bool) : List α → Option (List α)
  | [] => none
  | x :: xs => if test x then some xs else (takeFirst? test xs).map (x :: ·)

mutual

/-- Structural equality, whatever the order of children, in which two nodes that
are known to be equal are not looked into. -/
def equalsGiven (known : Label → Label → Bool) : Expr → Expr → Bool
  | node l cs, e =>
    known l e.label ||
      (l.op == e.op && l.value == e.value && l.name == e.name &&
        cs.length == e.children.length && pairsUpGiven known cs e.children)

/-- Whether each member of the first list can be paired with an equal member of
the second, and none is left over. -/
def pairsUpGiven (known : Label → Label → Bool) : List Expr → List Expr → Bool
  | [], ds => ds.isEmpty
  | c :: cs, ds =>
    match takeFirst? (equalsGiven known c) ds with
    | none => false
    | some rest => pairsUpGiven known cs rest

end

/-- Structural equality, whatever the order of children. -/
def equals (a b : Expr) : Bool :=
  a.equalsGiven (fun _ _ => false) b

/-- Whether each member of the first list can be paired with an equal member of
the second, and none is left over. -/
def pairsUp (cs ds : List Expr) : Bool :=
  pairsUpGiven (fun _ _ => false) cs ds

/-- Structural equality of expressions that share their nodes: two occurrences
of one kept node are equal without a look at what is below them. -/
def equalsKept (a b : Expr) : Bool :=
  a.equalsGiven Label.sameCell b

/-! ## Laws -/

/-- Taking a member leaves one less. -/
theorem length_of_takeFirst? {α : Type} {test : α → Bool} {xs rest : List α}
    (h : takeFirst? test xs = some rest) : xs.length = rest.length + 1 := by
  induction xs generalizing rest with
  | nil => cases h
  | cons x xs ih =>
    rw [takeFirst?] at h
    split at h
    · cases h; rfl
    · obtain ⟨r, hr, rfl⟩ := Option.map_eq_some_iff.1 h
      simp [ih hr]

/-- What is left was there before. -/
theorem mem_of_takeFirst? {α : Type} {test : α → Bool} {xs rest : List α}
    (h : takeFirst? test xs = some rest) {x : α} (hx : x ∈ rest) : x ∈ xs := by
  induction xs generalizing rest with
  | nil => cases h
  | cons y ys ih =>
    rw [takeFirst?] at h
    split at h
    · cases h; exact List.mem_cons_of_mem _ hx
    · obtain ⟨r, hr, rfl⟩ := Option.map_eq_some_iff.1 h
      rcases List.mem_cons.1 hx with rfl | hx
      · exact List.mem_cons_self
      · exact List.mem_cons_of_mem _ (ih hr hx)

/-- Tests that agree on the members take the same one. -/
theorem takeFirst?_congr {α : Type} {test test' : α → Bool} {xs : List α}
    (h : ∀ x ∈ xs, test x = test' x) : takeFirst? test xs = takeFirst? test' xs := by
  induction xs with
  | nil => rfl
  | cons x xs ih =>
    rw [takeFirst?, takeFirst?, h x List.mem_cons_self,
      ih fun y hy => h y (List.mem_cons_of_mem _ hy)]

@[simp] theorem pairsUp_nil (ds : List Expr) : pairsUp [] ds = ds.isEmpty := rfl

theorem pairsUp_cons (c : Expr) (cs ds : List Expr) :
    pairsUp (c :: cs) ds =
      match takeFirst? c.equals ds with
      | none => false
      | some rest => pairsUp cs rest := rfl

/-- Lists that can be paired have one length. -/
theorem length_of_pairsUp {cs ds : List Expr} (h : pairsUp cs ds = true) :
    cs.length = ds.length := by
  induction cs generalizing ds with
  | nil => simp_all
  | cons c cs ih =>
    rw [pairsUp_cons] at h
    split at h
    · cases h
    · next rest hr => rw [length_of_takeFirst? hr, List.length_cons, ih h]

/-- **Equality at a node**: of what the nodes carry, and of the children up to
their order. -/
theorem equals_node (l : Label) (cs : List Expr) (e : Expr) :
    (node l cs).equals e =
      (l.op == e.op && l.value == e.value && l.name == e.name && pairsUp cs e.children) := by
  show (false || (l.op == e.op && l.value == e.value && l.name == e.name &&
    cs.length == e.children.length && pairsUp cs e.children)) = _
  rw [Bool.false_or]
  cases h : pairsUp cs e.children with
  | false => simp
  | true => simp [length_of_pairsUp h]

/-- Every expression equals itself. -/
@[simp] theorem equals_self (e : Expr) : e.equals e = true := by
  induction e using induct with
  | node l cs ih =>
    have paired : pairsUp cs cs = true := by
      induction cs with
      | nil => rfl
      | cons c cs rest =>
        rw [pairsUp_cons, takeFirst?, if_pos (ih c List.mem_cons_self)]
        exact rest fun d hd => ih d (List.mem_cons_of_mem _ hd)
    simp [equals_node, paired, op, value, name]

/-- Whether every kept node of an expression is the one that a table has at its
cell. -/
def IsKeptIn (table : Nat → Expr) (e : Expr) : Prop :=
  ∀ n ∈ e.nodes, ∀ i, n.label.cell = some i → n = table i

/-- What holds of the kept nodes of an expression holds of those of its
children. -/
theorem IsKeptIn.child {table : Nat → Expr} {l : Label} {cs : List Expr}
    (h : (node l cs).IsKeptIn table) {c : Expr} (hc : c ∈ cs) : c.IsKeptIn table := fun n hn =>
  h n <| by
    rw [nodes_node]
    exact List.mem_cons_of_mem _ (List.mem_flatMap.2 ⟨c, hc, hn⟩)

/-- **Sharing changes no result.** Expressions whose kept nodes are those of one
table are equal when they are found to be without looking below common nodes. -/
theorem equalsKept_eq_equals {table : Nat → Expr} {a b : Expr} (ha : a.IsKeptIn table)
    (hb : b.IsKeptIn table) : a.equalsKept b = a.equals b := by
  induction a using induct generalizing b with
  | node l cs ih =>
    obtain ⟨m, ds⟩ := b
    have pairs : ∀ ds : List Expr, (∀ d ∈ ds, d.IsKeptIn table) →
        pairsUpGiven Label.sameCell cs ds = pairsUp cs ds := by
      have kept : ∀ c ∈ cs, c.IsKeptIn table := fun c hc => ha.child hc
      clear ha
      induction cs with
      | nil => exact fun _ _ => rfl
      | cons c cs rest =>
        intro ds hds
        have first : takeFirst? (equalsGiven Label.sameCell c) ds = takeFirst? c.equals ds :=
          takeFirst?_congr fun d hd =>
            ih c List.mem_cons_self (kept c List.mem_cons_self) (hds d hd)
        rw [pairsUpGiven, pairsUp_cons, first]
        cases hr : takeFirst? c.equals ds with
        | none => rfl
        | some left =>
          exact rest (fun d hd => ih d (List.mem_cons_of_mem _ hd))
            (fun d hd => kept d (List.mem_cons_of_mem _ hd)) left
            fun d hd => hds d (mem_of_takeFirst? hr hd)
    have step : (node l cs).equalsKept (node m ds) =
        (l.sameCell m || (node l cs).equals (node m ds)) := by
      show (l.sameCell m || (l.op == m.op && l.value == m.value && l.name == m.name &&
        cs.length == ds.length && pairsUpGiven Label.sameCell cs ds)) = _
      rw [pairs ds fun d hd => hb.child hd]
      rfl
    rw [step]
    cases hs : l.sameCell m with
    | false => rfl
    | true =>
      obtain ⟨i, hl, hm⟩ := Label.sameCell_iff.1 hs
      have left := ha (node l cs) (by rw [nodes_node]; exact List.mem_cons_self) i hl
      have right := hb (node m ds) (by rw [nodes_node]; exact List.mem_cons_self) i hm
      rw [left, right, equals_self]
      rfl

/-- What equal expressions must share: operator and name of the root. -/
def hashKey (e : Expr) : Op × String := (e.op, e.name)

/-- Equal expressions have equal keys. -/
theorem hashKey_eq_of_equals {a b : Expr} (h : a.equals b = true) : a.hashKey = b.hashKey := by
  obtain ⟨l, cs⟩ := a
  simp only [equals_node, Bool.and_eq_true, beq_iff_eq] at h
  simp [hashKey, op, name, h.1.1.1, h.1.2]

end Expr

namespace Operand

mutual

/-- Whether two operands are the same. An expression cannot be compared with a
literal, on either side. Lists of different lengths differ whatever they hold;
tuples of different lengths are first compared as far as the shorter one goes. -/
def same : Operand → Operand → Except BuildError Bool
  | .expr a, .expr b => .ok (a.equalsKept b)
  | .expr a, .bool b => .error (.literalComparison a.name (.bool b))
  | .expr a, .int n => .error (.showing (.int n) (.literalComparison a.name (.int n)))
  | .bool b, .expr a => .error (.literalComparison a.name (.bool b))
  | .int n, .expr a => .error (.showing (.int n) (.literalComparison a.name (.int n)))
  | .bool a, .bool b => .ok (a == b)
  | .bool a, .int n => .ok ((Value.bool a).toInt == n)
  | .int n, .bool a => .ok ((Value.bool a).toInt == n)
  | .int m, .int n => .ok (m == n)
  | .real x, .real y => .ok (x.sameNumber y)
  | .real x, .int n => .ok (x.isInt n)
  | .int n, .real x => .ok (x.isInt n)
  | .real x, .bool b => .ok (x.isInt (Value.bool b).toInt)
  | .bool b, .real x => .ok (x.isInt (Value.bool b).toInt)
  | .absent, .absent => .ok true
  | .text s, .text t => .ok (s == t)
  | .list xs, .list ys => if xs.length == ys.length then sameAll xs ys else .ok false
  | .tuple xs, .tuple ys => sameAll xs ys
  | _, _ => .ok false

/-- Whether the members of two collections are the same, from left to right, up
to the first difference, and neither has more than the other. As a member what
is no number is the same as itself. -/
def sameAll : List Operand → List Operand → Except BuildError Bool
  | .real .nan :: xs, .real .nan :: ys => sameAll xs ys
  | x :: xs, y :: ys => do
    if ← same x y then sameAll xs ys else return false
  | [], [] => .ok true
  | _, _ => .ok false

end

end Operand

end SmtDialogue
