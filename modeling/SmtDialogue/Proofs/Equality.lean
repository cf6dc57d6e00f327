import Mathlib.Data.List.Perm.Basic
import SmtDialogue.Expr.Equality
import SmtDialogue.Proofs.Built

/-!
# Structural equality is equality up to the order of children

Equality pairs children greedily: a child takes the first equal child that is
still free. `Alike` is what the pairing looks for, without the search: the same
operator, value and name at the root, and children that are alike in some order.
It is an equivalence (`Alike.refl`, `Alike.symm`, `Alike.trans`), and because it
is one, a child that was taken by another can be replaced by the one that is left
over. So the search finds a pairing whenever there is one, and equality is
`Alike` (`equals_iff_alike`).
-/

namespace SmtDialogue.Expr

/-- **Alike expressions**: the same at the root, with children that are alike in
some order. -/
inductive Alike : Expr → Expr → Prop
  | node {l m : Label} {cs ds es : List Expr} (op : l.op = m.op) (value : l.value = m.value)
    (name : l.name = m.name) (parts : List.Forall₂ Alike cs es) (order : es.Perm ds) :
    Alike (node l cs) (node m ds)

/-- The children of alike expressions, each list in its own order. -/
theorem alike_node_iff {l m : Label} {cs ds : List Expr} :
    Alike (node l cs) (node m ds) ↔ (l.op = m.op ∧ l.value = m.value ∧ l.name = m.name) ∧
      ∃ es, List.Forall₂ Alike cs es ∧ es.Perm ds := by
  constructor
  · rintro ⟨op, value, name, parts, order⟩
    exact ⟨⟨op, value, name⟩, _, parts, order⟩
  · rintro ⟨⟨op, value, name⟩, es, parts, order⟩
    exact ⟨op, value, name, parts, order⟩

namespace Alike

theorem refl (e : Expr) : Alike e e := by
  induction e using induct with
  | node l cs ih => exact .node rfl rfl rfl (List.forall₂_same.2 ih) (.refl _)

/-- Alike expressions have one name. -/
theorem name_eq {a b : Expr} (h : Alike a b) : a.name = b.name := by
  cases h
  assumption

theorem symm {a b : Expr} (h : Alike a b) : Alike b a := by
  induction a using induct generalizing b with
  | node l cs ih =>
    obtain ⟨op, value, name, parts, order⟩ := h
    have back : List.Forall₂ (flip Alike) cs _ :=
      Outcome.row_imp parts fun c hc _ _ => ih c hc
    obtain ⟨fs, found, moved⟩ := List.perm_comp_forall₂ order.symm back.flip
    exact .node op.symm value.symm name.symm found moved

theorem trans {a b c : Expr} (h : Alike a b) (k : Alike b c) : Alike a c := by
  induction a using induct generalizing b c with
  | node l cs ih =>
    obtain ⟨op, value, name, parts, order⟩ := h
    obtain ⟨op', value', name', parts', order'⟩ := k
    obtain ⟨fs, found, moved⟩ := List.perm_comp_forall₂ order parts'
    exact .node (op.trans op') (value.trans value') (name.trans name')
      (Outcome.row_trans parts found fun c hc _ _ => ih c hc) (moved.trans order')

end Alike

/-! ## The search for a pairing -/

/-- What is taken passes the test, and is all that is missing. -/
theorem exists_of_takeFirst? {α : Type} {test : α → Bool} {xs rest : List α}
    (h : takeFirst? test xs = some rest) : ∃ x, test x = true ∧ (x :: rest).Perm xs := by
  induction xs generalizing rest with
  | nil => cases h
  | cons x xs ih =>
    rw [takeFirst?] at h
    split at h
    · next passes => cases h; exact ⟨x, passes, .refl _⟩
    · obtain ⟨left, found, rfl⟩ := Option.map_eq_some_iff.1 h
      obtain ⟨y, passes, same⟩ := ih found
      exact ⟨y, passes, (List.Perm.swap ..).trans (same.cons x)⟩

/-- Something is taken when there is anything that passes the test. -/
theorem takeFirst?_ne_none {α : Type} {test : α → Bool} {xs : List α} {x : α} (hx : x ∈ xs)
    (passes : test x = true) : takeFirst? test xs ≠ none := by
  induction xs with
  | nil => cases hx
  | cons y ys ih =>
    rw [takeFirst?]
    split
    · exact Option.some_ne_none _
    · next fails =>
      rcases List.mem_cons.1 hx with rfl | hx
      · exact absurd passes fails
      · rw [Ne, Option.map_eq_none_iff]
        exact ih hx

/-- A pairing that is found is one. -/
theorem exists_row_of_pairsUp {cs ds : List Expr} (h : pairsUp cs ds = true) :
    ∃ es, List.Forall₂ (fun c e => c.equals e = true) cs es ∧ es.Perm ds := by
  induction cs generalizing ds with
  | nil => exact ⟨[], .nil, by rw [List.isEmpty_iff.1 h]⟩
  | cons c cs ih =>
    rw [pairsUp_cons] at h
    split at h
    · cases h
    · next rest taken =>
      obtain ⟨d, hd, same⟩ := exists_of_takeFirst? taken
      obtain ⟨es, paired, order⟩ := ih h
      exact ⟨d :: es, .cons hd paired, (order.cons d).trans same⟩

/-- When one member of each side is put aside and these two are alike, what is
left can still be paired: whoever had the one now gets the other. -/
theorem exists_row_of_cons {d e : Expr} (alike : Alike d e) {cs es rest : List Expr}
    (row : List.Forall₂ Alike cs es) (order : (e :: es).Perm (d :: rest)) :
    ∃ fs, List.Forall₂ Alike cs fs ∧ fs.Perm rest := by
  rcases List.mem_cons.1 (order.symm.subset List.mem_cons_self) with rfl | hd
  · exact ⟨es, row, order.cons_inv⟩
  · obtain ⟨front, back, rfl⟩ := List.append_of_mem hd
    have kept (xs : List Expr) : List.Forall₂ Alike xs xs :=
      List.forall₂_same.2 fun x _ => .refl x
    have given : List.Forall₂ Alike (front ++ d :: back) (front ++ e :: back) :=
      List.rel_append (kept front) (.cons alike (kept back))
    refine ⟨_, Outcome.row_trans row given fun _ _ _ _ => .trans, ?_⟩
    have moved : (d :: (front ++ e :: back)).Perm (e :: (front ++ d :: back)) :=
      (List.perm_middle.cons d).trans ((List.Perm.swap ..).trans (List.perm_middle.symm.cons e))
    exact (moved.trans order).cons_inv

/-- **The search finds a pairing whenever there is one.** -/
theorem pairsUp_of_row {cs ds es : List Expr}
    (decides : ∀ c ∈ cs, ∀ d, c.equals d = true ↔ Alike c d) (row : List.Forall₂ Alike cs es)
    (order : es.Perm ds) : pairsUp cs ds = true := by
  induction cs generalizing es ds with
  | nil =>
    cases row
    rw [order.nil_eq.symm]
    rfl
  | cons c cs ih =>
    obtain ⟨e, left, alike, parts, rfl⟩ := List.forall₂_cons_left_iff.1 row
    rw [pairsUp_cons]
    split
    · next none =>
      exact absurd none (takeFirst?_ne_none (order.subset List.mem_cons_self)
        ((decides c List.mem_cons_self e).2 alike))
    · next rest taken =>
      obtain ⟨d, hd, same⟩ := exists_of_takeFirst? taken
      -- the search has taken `d`, where the row has `e`; both are like `c`
      have taker : Alike c d := (decides c List.mem_cons_self d).1 hd
      obtain ⟨fs, others, rearranged⟩ :=
        exists_row_of_cons (taker.symm.trans alike) parts (order.trans same.symm)
      exact ih (fun c hc => decides c (List.mem_cons_of_mem _ hc)) others rearranged

/-- **Equality is `Alike`.** -/
theorem equals_iff_alike {a b : Expr} : a.equals b = true ↔ Alike a b := by
  induction a using induct generalizing b with
  | node l cs ih =>
    obtain ⟨m, ds⟩ := b
    simp only [equals_node, Bool.and_eq_true, beq_iff_eq, alike_node_iff, and_assoc]
    refine and_congr_right fun _ => and_congr_right fun _ => and_congr_right fun _ => ?_
    constructor
    · intro paired
      obtain ⟨es, row, order⟩ := exists_row_of_pairsUp paired
      exact ⟨es, Outcome.row_imp row fun c hc _ _ => (ih c hc).1, order⟩
    · rintro ⟨es, row, order⟩
      exact pairsUp_of_row (fun c hc d => ih c hc) row order

end SmtDialogue.Expr
