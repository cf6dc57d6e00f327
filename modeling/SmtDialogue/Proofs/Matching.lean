import Mathlib.Data.List.FinRange
import Mathlib.Logic.Relation
import SmtDialogue.Expr.Graph
import SmtDialogue.Proofs.Equality

/-!
# Equality as a bijection between children

`Alike` orders the children of one node anew so that they stand opposite to
those of the other. The same is said without an order by a bijection between the
places of the two lists (`exists_bijective_iff`), and so the greedy pairing that
runs succeeds exactly when such a bijection matches equal children
(`equals_iff_bijective`). An order is also all that a rearrangement changes, at
whatever depth it happens (`alike_of_rearranged`).

What is compared when the program runs are trees whose nodes may be shared, and
there a comparison stops at a node that both sides have. `structural_equality`
is about this comparison.
-/

namespace SmtDialogue.Expr

/-! ## Places and orders -/

/-- A function that is a bijection between places puts all places in some
order. -/
theorem perm_finRange_of_bijective {m n : Nat} {f : Fin m → Fin n} (h : f.Bijective) :
    ((List.finRange m).map f).Perm (List.finRange n) := by
  rw [List.perm_ext_iff_of_nodup ((List.nodup_finRange m).map h.injective) (List.nodup_finRange n)]
  intro j
  obtain ⟨i, rfl⟩ := h.surjective j
  simp

/-- **A bijection that matches** the members of two lists is an order of the
second in which the two stand opposite to each other. -/
theorem exists_bijective_iff {α β : Type} {R : α → β → Prop} {xs : List α} {ys : List β} :
    (∃ f : Fin xs.length → Fin ys.length, f.Bijective ∧ ∀ i, R xs[i] ys[f i]) ↔
      ∃ zs, List.Forall₂ R xs zs ∧ zs.Perm ys := by
  constructor
  · rintro ⟨f, bijective, opposite⟩
    refine ⟨((List.finRange xs.length).map f).map ys.get, ?_, ?_⟩
    · refine List.forall₂_iff_get.2 ⟨by simp, fun i hi hj => ?_⟩
      simpa using opposite ⟨i, hi⟩
    · have order := (perm_finRange_of_bijective bijective).map ys.get
      rwa [List.map_get_finRange] at order
  · rintro ⟨zs, row, order⟩
    classical
    obtain ⟨length, opposite⟩ := List.forall₂_iff_get.1 row
    have places : (Fin.cast length).Bijective := (finCongr length).bijective
    refine ⟨order.idxBij ∘ Fin.cast length, ⟨?_, ?_⟩, fun i => ?_⟩
    · exact order.idxBij_injective.comp places.injective
    · exact order.idxBij_surjective.comp places.surjective
    · have there : ys[order.idxBij (Fin.cast length i)] = zs[Fin.cast length i] :=
        order.getElem_idxBij_eq_getElem _
      show R xs[i] ys[order.idxBij (Fin.cast length i)]
      rw [there]
      exact opposite i i.isLt _

/-- **Equality is a matching**: the roots agree, and a bijection between the
children takes each to an equal one. -/
theorem equals_iff_bijective {a b : Expr} :
    a.equals b = true ↔ a.op = b.op ∧ a.name = b.name ∧ a.value = b.value ∧
      ∃ f : Fin a.children.length → Fin b.children.length, f.Bijective ∧
        ∀ i : Fin a.children.length, a.children[i].equals b.children[f i] = true := by
  obtain ⟨l, cs⟩ := a
  obtain ⟨m, ds⟩ := b
  simp only [equals_iff_alike]
  rw [exists_bijective_iff, alike_node_iff]
  constructor
  · rintro ⟨⟨op, value, name⟩, matched⟩
    exact ⟨op, name, value, matched⟩
  · rintro ⟨op, name, value, matched⟩
    exact ⟨⟨op, value, name⟩, matched⟩

/-! ## Rearrangements -/

/-- **One rearrangement**: the children of one node, wherever it stands in the
tree, come in another order. That node and those above it carry what they did,
and may be kept in other cells than before. -/
inductive Rearranges : Expr → Expr → Prop
  /-- The children of the root. -/
  | root (l : Label) (cell : Option Nat) {cs ds : List Expr} (order : cs.Perm ds) :
    Rearranges (node l cs) (node { l with cell } ds)
  /-- The children of a node of one child. -/
  | inside (l : Label) (cell : Option Nat) (front back : List Expr) {c d : Expr}
    (step : Rearranges c d) :
    Rearranges (node l (front ++ c :: back)) (node { l with cell } (front ++ d :: back))

/-- A rearrangement changes no more than an order of children. -/
theorem Rearranges.alike {a b : Expr} (h : Rearranges a b) : Alike a b := by
  induction h with
  | root l cell order =>
    exact .node rfl rfl rfl (List.forall₂_same.2 fun c _ => .refl c) order
  | inside l cell front back _ ih =>
    have kept (cs : List Expr) : List.Forall₂ Alike cs cs :=
      List.forall₂_same.2 fun c _ => .refl c
    exact .node rfl rfl rfl (List.rel_append (kept front) (.cons ih (kept back))) (.refl _)

/-- Any number of rearrangements, one after the other, changes no more. -/
theorem alike_of_rearranged {a b : Expr} (h : Relation.ReflTransGen Rearranges a b) :
    Alike a b := by
  induction h with
  | refl => exact .refl a
  | tail _ last ih => exact ih.trans last.alike

/-- What is compared may be rearranged on both sides. -/
theorem equals_of_rearranged {a a' b b' : Expr} (left : Relation.ReflTransGen Rearranges a a')
    (right : Relation.ReflTransGen Rearranges b b') : a'.equals b' = a.equals b := by
  have left := alike_of_rearranged left
  have right := alike_of_rearranged right
  rw [Bool.eq_iff_iff, equals_iff_alike, equals_iff_alike]
  constructor
  · exact fun alike => left.trans (alike.trans right.symm)
  · exact fun alike => left.symm.trans (alike.trans right)

/-! ## The comparison that runs -/

/-- **Structural equality** of trees with shared nodes. Two are equal exactly
when their roots agree in operator, name and value and a bijection between their
children matches equal ones; equality is an equivalence; however the children of
any nodes are rearranged, and wherever the rearranged trees are kept, the answer
is the same; and equal trees have one hash key. -/
theorem structural_equality {table : Nat → Expr} {a b c : Expr} (ha : a.IsKeptIn table)
    (hb : b.IsKeptIn table) (hc : c.IsKeptIn table) :
    (a.equalsKept b = true ↔ a.op = b.op ∧ a.name = b.name ∧ a.value = b.value ∧
      ∃ f : Fin a.children.length → Fin b.children.length, f.Bijective ∧
        ∀ i : Fin a.children.length, a.children[i].equalsKept b.children[f i] = true) ∧
    a.equalsKept a = true ∧
    (a.equalsKept b = true → b.equalsKept a = true) ∧
    (a.equalsKept b = true → b.equalsKept c = true → a.equalsKept c = true) ∧
    (∀ (table' : Nat → Expr) (a' b' : Expr), a'.IsKeptIn table' → b'.IsKeptIn table' →
      Relation.ReflTransGen Rearranges a a' → Relation.ReflTransGen Rearranges b b' →
        a'.equalsKept b' = a.equalsKept b) ∧
    (a.equalsKept b = true → a.hashKey = b.hashKey) := by
  have children (i : Fin a.children.length) (j : Fin b.children.length) :
      a.children[i].equalsKept b.children[j] = a.children[i].equals b.children[j] := by
    cases a
    cases b
    exact equalsKept_eq_equals (ha.child (List.getElem_mem _)) (hb.child (List.getElem_mem _))
  rw [equalsKept_eq_equals ha hb, equalsKept_eq_equals ha ha, equalsKept_eq_equals hb ha,
    equalsKept_eq_equals hb hc, equalsKept_eq_equals ha hc]
  refine ⟨?matched, equals_self a, ?symmetric, ?transitive, ?rearranged, hashKey_eq_of_equals⟩
  case matched =>
    simp only [children]
    exact equals_iff_bijective
  case symmetric =>
    exact fun ab => equals_iff_alike.2 (equals_iff_alike.1 ab).symm
  case transitive =>
    exact fun ab bc => equals_iff_alike.2 ((equals_iff_alike.1 ab).trans (equals_iff_alike.1 bc))
  case rearranged =>
    intro table' a' b' ha' hb' left right
    rw [equalsKept_eq_equals ha' hb', equals_of_rearranged left right]

/-- Conjunctions of two disjunctions that say the same: the two as they are, the
two exchanged, and one of them twice. -/
def conjunctions : Graph :=
  .ofCells #[⟨⟨.identity, "x", some .bool, none, none⟩, []⟩,
    ⟨⟨.identity, "y", some .bool, some (.bool true), none⟩, []⟩,
    ⟨⟨.or, "or_x_y", none, none, none⟩, [0, 1]⟩,
    ⟨⟨.or, "or_x_y", none, none, none⟩, [1, 0]⟩,
    ⟨⟨.and, "and_or_x_y_or_x_y", none, none, none⟩, [2, 3]⟩,
    ⟨⟨.and, "and_or_x_y_or_x_y", none, none, none⟩, [3, 2]⟩,
    ⟨⟨.and, "and_or_x_y_or_x_y", none, none, none⟩, [3, 3]⟩]

theorem structural_equality_conjunctions :
    let view := conjunctions.view
    (view 4).IsKeptIn view ∧ (view 5).IsKeptIn view ∧ (view 6).IsKeptIn view ∧
      (view 4).equalsKept (view 6) = true ∧
      ∃ f : Fin (view 4).children.length → Fin (view 5).children.length, f.Bijective ∧
        ∀ i : Fin (view 4).children.length,
          (view 4).children[i].equalsKept (view 5).children[f i] = true := by
  intro view
  have first := conjunctions.isKeptIn_view 4
  have second := conjunctions.isKeptIn_view 5
  have third := conjunctions.isKeptIn_view 6
  have exchanged : (view 4).equalsKept (view 5) = true := by decide
  have doubled : (view 5).equalsKept (view 6) = true := by decide
  obtain ⟨matched, -, -, transitive, -, -⟩ := structural_equality first second third
  obtain ⟨-, -, -, f, bijective, equal⟩ := matched.1 exchanged
  exact ⟨first, second, third, transitive exchanged doubled, f, bijective, equal⟩

end SmtDialogue.Expr
