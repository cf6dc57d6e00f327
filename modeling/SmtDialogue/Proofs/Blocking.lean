import SmtDialogue.Enumeration.Block
import SmtDialogue.Proofs.Answers
import SmtDialogue.Proofs.Constraints

/-!
# Blocking clauses exclude one assignment

The clause that is made to exclude a model holds exactly of the valuations that
differ from the model on some decision variable (`Blocks.holdsUnder_iff`), and it
gives each decision variable the sort of its value, so that variables that no
constraint has used before are declared at the sort of their default value.
-/

namespace SmtDialogue

open SmtDialogue.Expr

namespace Enumeration

/-- **The literal of a variable that a value makes false.** -/
structure Differs (v : Expr) (w : Value) (l : Expr) : Prop where
  /-- It has been made by the constructors. -/
  built : l.Built
  /-- It does not give way to its operands in the clause. -/
  apart : l.op ≠ .or
  /-- It has no other variable. -/
  names : ∀ x ∈ l.variableNames, x = v.name
  /-- It gives the variable the sort of the value. -/
  sorted : ∀ {table : SortTable}, l.HasSort table .bool → table.sortOf? v.name = some w.sort
  /-- It says that the variable has another value. -/
  value : ∀ {ρ : Valuation}, (ρ v.name).sort = w.sort →
    l.valueUnder (fun x => some (ρ x)) = .ok (some (.bool (ρ v.name != w)))

section Literal

variable {lv : Label} {l : Expr}

/-- A variable has no other one. -/
theorem eq_name_of_mem {x : String} (hx : x ∈ (node lv []).variableNames) : x = lv.name := by
  rcases mem_variableNames_node.1 hx with ⟨-, rfl⟩ | ⟨c, hc, -⟩
  · rfl
  · cases hc

/-- A variable that is false is excluded by itself. -/
theorem differs_self (built : (node lv []).Built) (leaf : lv.op = .identity) :
    Differs (node lv []) (.bool false) (node lv []) where
  built := built
  apart := fun other => nomatch leaf.symm.trans other
  names := fun _ => eq_name_of_mem
  sorted := fun typed => typed.sortOf? leaf
  value := fun {ρ} sorted => by
    obtain ⟨b, hb⟩ := Value.exists_of_sort_bool sorted
    have known : ρ lv.name = .bool b := hb
    rw [valueUnder_identity _ _ leaf, hb, known]
    cases b <;> rfl

/-- A variable that is true is excluded by its negation. -/
theorem differs_not (built : (node lv []).Built) (leaf : lv.op = .identity)
    (made : combineExprs .not [node lv []] = .ok l) : Differs (node lv []) (.bool true) l := by
  obtain ⟨ll, cs⟩ := l
  have parts : ∀ e ∈ [node lv []], e.Built := fun e he => List.mem_singleton.1 he ▸ built
  have whole := Built.of_combineExprs made rfl parts
  obtain ⟨-, sort, -, rfl, rfl⟩ := combineExprs_eq_ok_iff.1 made
  refine ⟨whole, nofun, fun x hx => ?_, fun typed => ?_, fun {ρ} sorted => ?_⟩
  · rcases mem_variableNames_node.1 hx with ⟨other, -⟩ | ⟨c, hc, inside⟩
    · cases other
    · rw [List.mem_singleton.1 hc] at inside
      exact eq_name_of_mem inside
  · exact (typed.operand rfl _ List.mem_cons_self).sortOf? leaf
  · obtain ⟨b, hb⟩ := Value.exists_of_sort_bool sorted
    have known : ρ lv.name = .bool b := hb
    rw [valueUnder_inner _ _ rfl, hb]
    show ([node lv []].mapM _ >>= Value.apply .not) = _
    rw [List.mapM_cons, valueUnder_identity _ _ leaf, known]
    cases b <;> rfl

/-- A variable with a number is excluded by an inequality. -/
theorem differs_ne (built : (node lv []).Built) (leaf : lv.op = .identity) {n : Int}
    (made : combineExprs .ne [node lv [], constant (.int n)] = .ok l) :
    Differs (node lv []) (.int n) l := by
  obtain ⟨ll, cs⟩ := l
  have parts : ∀ e ∈ [node lv [], constant (.int n)], e.Built := by
    intro e he
    rcases List.mem_pair.1 he with rfl | rfl
    · exact built
    · exact .const (.int n) none
  have whole := Built.of_combineExprs made rfl parts
  obtain ⟨-, sort, -, rfl, rfl⟩ := combineExprs_eq_ok_iff.1 made
  refine ⟨whole, nofun, fun x hx => ?_, fun typed => ?_, fun {ρ} sorted => ?_⟩
  · rcases mem_variableNames_node.1 hx with ⟨other, -⟩ | ⟨c, hc, inside⟩
    · cases other
    · rcases List.mem_pair.1 hc with rfl | rfl
      · exact eq_name_of_mem inside
      · cases inside
  · exact (typed.operand rfl _ List.mem_cons_self).sortOf? leaf
  · obtain ⟨k, hk⟩ := Value.exists_of_sort_int sorted
    have known : ρ lv.name = .int k := hk
    rw [valueUnder_inner _ _ rfl, hk]
    show ([node lv [], constant (.int n)].mapM _ >>= Value.apply .ne) = _
    rw [List.mapM_cons, valueUnder_identity _ _ leaf, known]
    show Except.ok (some (Value.bool (!(k == n)))) = Except.ok (some (Value.bool (Value.int k != .int n)))
    by_cases same : k = n <;> simp [bne, same]

end Literal

/-- The literal for a number is an inequality, if the number can be written. -/
theorem differing_int (v : Expr) (n : Int) : differing v (.int n) =
    if (Value.int n).isWritable then combineExprs .ne [v, constant (.int n)]
    else .error .valueTooLong := by
  show ([.expr v, .int n].mapM lift >>= combineExprs .ne) = _
  rw [List.mapM_cons, List.mapM_cons, lift, lift, literal]
  cases (Value.int n).isWritable <;> rfl

/-- **A literal is made for each value** that a variable can have. -/
theorem differs_of_differing {v : Expr} (built : v.Built) (var : v.isVariable = true) {w : Value}
    {l : Expr} (made : differing v (.ofValue w) = .ok l) : Differs v w l := by
  obtain ⟨lv, cs⟩ := v
  have leaf : lv.op = .identity := beq_iff_eq.1 var
  have bare := built.children_of_identity leaf
  subst bare
  match w with
  | .bool false =>
    cases made
    exact differs_self built leaf
  | .bool true => exact differs_not built leaf made
  | .int n =>
    have made : differing (node lv []) (.int n) = .ok l := made
    rw [differing_int] at made
    split at made
    · exact differs_ne built leaf made
    · cases made

/-! ## Clauses -/

/-- **A clause that excludes a model** for some variables. -/
structure Blocks (m : Model) (decisions : List Expr) (clause : Expr) : Prop where
  /-- It has been made by the constructors. -/
  built : clause.Built
  /-- It has no other variables. -/
  names : ∀ x ∈ clause.variableNames, ∃ v ∈ decisions, x = v.name
  /-- Each of the variables has a value in the model, and its sort in the clause. -/
  sorted : ∀ v ∈ decisions, ∃ w, m.valueOf? v.name = some w ∧
    ∀ {table : SortTable}, clause.HasSort table .bool → table.sortOf? v.name = some w.sort
  /-- It holds of the valuations that differ from the model. -/
  holdsUnder_iff : ∀ {ρ : Valuation},
    (∀ v ∈ decisions, ∀ w, m.valueOf? v.name = some w → (ρ v.name).sort = w.sort) →
      (clause.HoldsUnder ρ ↔ ∃ v ∈ decisions, m.valueOf? v.name ≠ some (ρ v.name))

/-- What is looked up among the values of a model. -/
theorem lookup_ofValue (m : Model) (x : String) :
    (m.map fun (name, value) => (name, Operand.ofValue value)).lookup x =
      (m.valueOf? x).map Operand.ofValue := by
  induction m with
  | nil => rfl
  | cons entry m ih =>
    obtain ⟨n, v⟩ := entry
    rw [List.map_cons, List.lookup_cons, Model.valueOf?_cons, ih]
    by_cases same : x = n
    · simp [same]
    · simp [same, beq_eq_false_iff_ne.2 same]

/-- The literals of a clause, one for each variable. -/
theorem exists_literals {m : Model} {decisions : List Expr} {clause : Expr}
    (made : blockModel m decisions = .ok clause)
    (vars : ∀ v ∈ decisions, v.Built ∧ v.isVariable = true) :
    ∃ literals, combineExprs .or literals = .ok clause ∧
      List.Forall₂ (fun v l => ∃ w, m.valueOf? v.name = some w ∧ Differs v w l) decisions
        literals := by
  obtain ⟨literals, each, whole⟩ := Outcome.bind_eq_ok_iff.1 made
  refine ⟨literals, ?_, ?_⟩
  · rw [combineAll_map_expr rfl] at whole
    cases clauseMade : combineExprs .or literals with
    | ok clause' =>
      rw [clauseMade] at whole
      exact congrArg Except.ok (Except.ok.inj whole)
    | error cause =>
      rw [clauseMade] at whole
      cases whole
  · refine Outcome.row_imp (Outcome.mapM_eq_ok_iff.1 each) fun v hv l _ literal => ?_
    rw [literalFor, lookup_ofValue] at literal
    cases found : m.valueOf? v.name with
    | none =>
      rw [found] at literal
      cases literal
    | some w =>
      rw [found] at literal
      refine ⟨w, rfl, ?_⟩
      cases differing' : differing v (.ofValue w) with
      | ok l' =>
        simp only [Option.map_some, differing'] at literal
        cases literal
        exact differs_of_differing (vars v hv).1 (vars v hv).2 differing'
      | error cause =>
        simp only [Option.map_some, differing'] at literal
        cases literal

/-- The values of the literals that some values of variables make false. -/
theorem mapM_valueUnder_literals (values : String → Option Value) {decisions literals : List Expr}
    {ρ : Valuation}
    (row : List.Forall₂ (fun v l => ∃ w, values v.name = some w ∧ Differs v w l) decisions literals)
    (sorts : ∀ v ∈ decisions, ∀ w, values v.name = some w → (ρ v.name).sort = w.sort) :
    literals.mapM (valueUnder fun x => some (ρ x)) =
      .ok (((decisions.map fun v => values v.name != some (ρ v.name)).map Value.bool).map some) := by
  induction row with
  | nil => rfl
  | @cons v l _ _ first _ ih =>
    obtain ⟨w, found, differs⟩ := first
    rw [List.mapM_cons, differs.value (sorts v List.mem_cons_self w found),
      ih fun v hv => sorts v (List.mem_cons_of_mem _ hv), List.map_cons, found]
    by_cases same : ρ v.name = w
    · simp [same, bne]
    · simp [bne, same, Ne.symm same]

/-- **The clause that is made to exclude a model** excludes it and nothing else. -/
theorem blocks_of_blockModel {m : Model} {decisions : List Expr} {clause : Expr}
    (made : blockModel m decisions = .ok clause)
    (vars : ∀ v ∈ decisions, v.Built ∧ v.isVariable = true) : Blocks m decisions clause := by
  obtain ⟨literals, whole, row⟩ := exists_literals made vars
  have each : ∀ l ∈ literals, ∃ v ∈ decisions, ∃ w, m.valueOf? v.name = some w ∧ Differs v w l :=
    fun l hl => Outcome.exists_of_mem_right row hl
  have built := Built.of_combineExprs whole rfl fun l hl => by
    obtain ⟨v, -, w, -, differs⟩ := each l hl
    exact differs.built
  obtain ⟨lc, cs⟩ := clause
  obtain ⟨-, sort, -, children, rfl⟩ := combineExprs_eq_ok_iff.1 whole
  rw [flatten_of_apart fun l hl => by
    obtain ⟨v, -, w, -, differs⟩ := each l hl
    exact differs.apart] at children
  subst children
  refine ⟨built, fun x hx => ?_, fun v hv => ?_, fun {ρ} sorts => ?_⟩
  · rcases mem_variableNames_node.1 hx with ⟨other, -⟩ | ⟨l, hl, inside⟩
    · cases other
    · obtain ⟨v, hv, w, -, differs⟩ := each l hl
      exact ⟨v, hv, differs.names x inside⟩
  · obtain ⟨l, hl, w, found, differs⟩ := Outcome.exists_of_mem_right row.flip hv
    exact ⟨w, found, fun typed => differs.sorted (typed.operand rfl l hl)⟩
  · rw [HoldsUnder, valueUnder_inner _ _ rfl, mapM_valueUnder_literals m.valueOf? row sorts]
    show Except.ok (Value.disj _) = _ ↔ _
    rw [Value.disj_map_bool, Except.ok.injEq, Option.some.injEq, Value.bool.injEq, List.any_map,
      List.any_eq_true]
    simp

end Enumeration

end SmtDialogue
