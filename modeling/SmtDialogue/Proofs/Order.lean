import Mathlib.Data.List.Perm.Basic
import SmtDialogue.Proofs.Scripts

/-!
# The order of assertions

A constant is declared by whichever assertion mentions it first, and those after
it are checked against what has been declared. Still nothing depends on the
order. What the assertions need is a table over which all of them are truth
values (`Admits`), and a table does not know of an order. When there is one, the
assertions go through and declare no more than it says (`exists_assertions`);
the table that they leave is such a table itself (`admits_of_assertions`). So
the tables left by two orders are within each other (`assertions_perm`).
-/

namespace SmtDialogue

namespace SortTable

/-- Tables within each other say the same. -/
theorem Within.antisymm {t u : SortTable} (h : t.Within u) (k : u.Within t) (x : String) :
    t.sortOf? x = u.sortOf? x :=
  Option.ext fun s => ⟨h x s, k x s⟩

/-- A table with the entries of another that it does not have is within whatever
both are within. -/
theorem Within.append_newIn {t u v : SortTable} (h : t.Within v) (k : u.Within v) :
    Within (t ++ u.newIn t) v := by
  intro x s found
  rw [sortOf?_append] at found
  cases known : t.sortOf? x with
  | some s' =>
    rw [known] at found
    exact h x s (known.trans found)
  | none =>
    rw [known, Option.none_or, sortOf?_newIn _ _ known] at found
    exact k x s found

end SortTable

namespace Smt

open SmtDialogue.Expr

variable {declared table final final' : SortTable} {es es' : List Expr} {cs cs' : List Command}

/-- **What some assertions need**: a table that goes on from what has been declared
and makes all expressions truth values. The expressions have terms. -/
structure Admits (declared : SortTable) (es : List Expr) (table : SortTable) : Prop where
  /-- The table goes on from what has been declared. -/
  goesOn : declared.Within table
  /-- All expressions are truth values over it. -/
  typed : ∀ e ∈ es, e.HasSort table .bool
  /-- All expressions have terms. -/
  written : ∀ e ∈ es, ∃ t, Term.ofExpr e = .ok t

/-- An order is no part of what is needed. -/
theorem Admits.perm (h : Admits declared es table) (order : es.Perm es') :
    Admits declared es' table where
  goesOn := h.goesOn
  typed e he := h.typed e (order.mem_iff.2 he)
  written e he := h.written e (order.mem_iff.2 he)

/-! ## What is needed suffices -/

/-- The new constants of one expression can be declared, at the sorts that the
table says. -/
theorem exists_newDeclarations {e : Expr} (built : e.Built) (goesOn : declared.Within table)
    (typed : e.HasSort table .bool) {t : Term} (written : Term.ofExpr e = .ok t) :
    ∃ new, newDeclarations declared e = .ok new ∧ (declared ++ new).Within table := by
  have nothing : SortTable.Within [] table := nofun
  obtain ⟨found, inferred, part⟩ := exists_infer_of_hasSort goesOn typed nothing
  have writable : ∀ x ∈ (found.newIn declared).names, isWritable x = true := by
    intro x hx
    rw [SortTable.names_newIn, List.mem_filter] at hx
    have own := ((inferSorts_spec inferred).names x hx.1).resolve_left List.not_mem_nil
    exact Term.isWritable_of_ofExpr built written x own
  refine ⟨found.newIn declared, ?_, goesOn.append_newIn part⟩
  unfold newDeclarations inferSorts
  rw [inferred, Outcome.bind_ok]
  dsimp only
  rw [checkWritable_eq_ok_iff.2 writable]
  rfl

/-- **Assertions go through when there is what they need**, and declare no more
than that. -/
theorem exists_assertions (built : ∀ e ∈ es, e.Built) (h : Admits declared es table) :
    ∃ cs final, assertions declared es = .ok (cs, final) ∧ final.Within table := by
  induction es generalizing declared with
  | nil => exact ⟨[], declared, rfl, h.goesOn⟩
  | cons e es ih =>
    obtain ⟨⟨t, written⟩, writtenToo⟩ := List.forall_mem_cons.1 h.written
    obtain ⟨typed, typedToo⟩ := List.forall_mem_cons.1 h.typed
    obtain ⟨own, builtToo⟩ := List.forall_mem_cons.1 built
    obtain ⟨new, declaring, part⟩ := exists_newDeclarations own h.goesOn typed written
    obtain ⟨blocks, final, rest, last⟩ := ih builtToo ⟨part, typedToo, writtenToo⟩
    exact ⟨_, final, assertions_cons.2 ⟨t, new, blocks, written, declaring, rest, rfl⟩, last⟩

/-- What assertions leave is what they needed. -/
theorem admits_of_assertions (built : ∀ e ∈ es, e.Built)
    (made : assertions declared es = .ok (cs, final)) : Admits declared es final := by
  obtain ⟨new, rfl, -, -, asserts, -⟩ := assertions_spec built made
  have each : ∀ e ∈ es, ∃ c, Asserts (declared ++ new) e c := fun e he => by
    obtain ⟨c, -, asserted⟩ := Outcome.exists_of_mem_right asserts.flip he
    exact ⟨c, asserted⟩
  constructor
  · exact SortTable.within_append _ _
  · intro e he
    obtain ⟨c, t, -, -, typed, -, -⟩ := each e he
    exact typed
  · intro e he
    obtain ⟨c, t, written, -⟩ := each e he
    exact ⟨t, written⟩

/-! ## Two orders -/

/-- An expression is asserted by one command, over whatever constants. -/
theorem Asserts.unique {e : Expr} {c d : Command} (h : Asserts declared e c)
    (k : Asserts table e d) : c = d := by
  obtain ⟨t, written, rfl, -⟩ := h
  obtain ⟨u, written', rfl, -⟩ := k
  rw [Except.ok.inj (written.symm.trans written')]

/-- What is asserted follows the order of the expressions. -/
theorem perm_of_asserts (order : es.Perm es') (row : List.Forall₂ (Asserts final) es cs)
    (row' : List.Forall₂ (Asserts final') es' cs') : cs.Perm cs' := by
  obtain ⟨ds, aligned, moved⟩ := List.perm_comp_forall₂ order row'
  have same : List.Forall₂ Eq cs ds :=
    Outcome.row_trans row.flip aligned fun _ _ _ _ => Asserts.unique
  rw [List.forall₂_eq_eq_eq] at same
  exact same ▸ moved

/-- One order goes through when another does, and leaves no more than that. -/
theorem exists_assertions_of_perm (built : ∀ e ∈ es, e.Built) (order : es.Perm es')
    (made : assertions declared es = .ok (cs, final)) :
    ∃ cs' final', assertions declared es' = .ok (cs', final') ∧ final'.Within final :=
  exists_assertions (fun e he => built e (order.mem_iff.2 he))
    ((admits_of_assertions built made).perm order)

/-- **The order of assertions does not matter.** From any table of declared
constants, expressions that builders make can be asserted one after the other in
one order exactly when they can in another. The tables that these leave are the
same as mappings, and the terms asserted are the same, each as often. -/
theorem assertions_perm (built : ∀ e ∈ es, e.Built) (order : es.Perm es') :
    ((∃ cs final, assertions declared es = .ok (cs, final)) ↔
      ∃ cs final, assertions declared es' = .ok (cs, final)) ∧
    ∀ cs final cs' final', assertions declared es = .ok (cs, final) →
      assertions declared es' = .ok (cs', final') →
      (∀ x, final.sortOf? x = final'.sortOf? x) ∧
        (cs.filter Command.isAssertion).Perm (cs'.filter Command.isAssertion) := by
  have built' : ∀ e ∈ es', e.Built := fun e he => built e (order.mem_iff.2 he)
  refine ⟨⟨?_, ?_⟩, fun cs final cs' final' made made' => ⟨?_, ?_⟩⟩
  · rintro ⟨cs, final, made⟩
    obtain ⟨cs', final', made', -⟩ := exists_assertions_of_perm built order made
    exact ⟨cs', final', made'⟩
  · rintro ⟨cs', final', made'⟩
    obtain ⟨cs, final, made, -⟩ := exists_assertions_of_perm built' order.symm made'
    exact ⟨cs, final, made⟩
  · obtain ⟨_, _, again, below⟩ := exists_assertions_of_perm built' order.symm made'
    obtain ⟨_, _, again', below'⟩ := exists_assertions_of_perm built order made
    cases made.symm.trans again
    cases made'.symm.trans again'
    exact below.antisymm below'
  · obtain ⟨_, -, -, -, row, -⟩ := assertions_spec built made
    obtain ⟨_, -, -, -, row', -⟩ := assertions_spec built' made'
    exact perm_of_asserts order row row'

/-- Two assertions that share a constant, the other way round. -/
theorem assertions_swapped :
    (∀ e ∈ [chosenAtLeast, .var "c" none], e.Built) ∧
      [chosenAtLeast, .var "c" none].Perm [.var "c" none, chosenAtLeast] ∧
      ∃ cs final, assertions [("m", .int)] [.var "c" none, chosenAtLeast] = .ok (cs, final) ∧
        final.sortOf? "n" = some .int := by
  have built : ∀ e ∈ [chosenAtLeast, .var "c" none], e.Built :=
    List.forall_mem_cons.2 ⟨built_chosenAtLeast, List.forall_mem_singleton.2 (.var _ _ _ _)⟩
  have order : [chosenAtLeast, .var "c" none].Perm [.var "c" none, chosenAtLeast] := .swap ..
  obtain ⟨both, same⟩ := @assertions_perm [("m", .int)] _ _ built order
  have made : ∃ cs, assertions [("m", .int)] [chosenAtLeast, .var "c" none] =
      .ok (cs, [("m", .int), ("c", .bool), ("n", .int)]) := ⟨_, rfl⟩
  obtain ⟨cs, made⟩ := made
  obtain ⟨cs', final', made'⟩ := both.1 ⟨cs, _, made⟩
  exact ⟨built, order, cs', final', made', ((same _ _ _ _ made made').1 "n").symm⟩

end Smt

end SmtDialogue
