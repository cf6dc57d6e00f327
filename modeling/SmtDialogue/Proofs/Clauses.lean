import SmtDialogue.Proofs.Blocking
import SmtDialogue.Proofs.Grouping
import SmtDialogue.Proofs.KnownSorts

/-!
# When there is a clause

For every non-empty row of variables and every value for each of them there is a clause
that excludes these values, unless a variable is declared at another sort than its value
has, or a value is an integer with too many digits to be written: the literal of such a
variable would compare it with a constant, and there is none of this value. What such a
clause means has been shown of any that is made (`Differs`); here it is
that no other check on the way fails. The literal of a variable is made because the
sort of the variable, if it is known, is that of its value, and the clause is made
because every literal is a truth value.

Sort inference then finds the sorts of the values and nothing else, since a table with
these sorts makes every literal a truth value, whether the variables carry sorts or not
(`inferSorts_of_sorts`).
-/

namespace SmtDialogue

open SmtDialogue.Expr

namespace Enumeration

/-! ## Literals -/

section Literal

variable {v l : Expr} {w : Value}

/-- **A literal that stands in a clause** for a variable and a value. -/
structure Stands (v : Expr) (w : Value) (l : Expr) : Prop where
  /-- It is false for the value and true for others. -/
  differs : Differs v w l
  /-- The clause accepts it. -/
  passes : checkSort .or .bool l = .ok ()
  /-- It is a truth value by every table that has the variable at the sort of the value. -/
  hasSort : ∀ {table : SortTable}, table.sortOf? v.name = some w.sort → l.HasSort table .bool
  /-- It has the variable and no other. -/
  names : l.variableNames = [v.name]

/-- **A literal is made for every value** that the sort of the variable allows and that can
be written. -/
theorem exists_stands (built : v.Built) (var : v.isVariable = true)
    (own : ∀ s ∈ v.sort, s = w.sort) (short : w.isWritable = true) :
    ∃ l, differing v (.ofValue w) = .ok l ∧ Stands v w l := by
  obtain ⟨lv, cs⟩ := v
  have leaf : lv.op = .identity := beq_iff_eq.1 var
  obtain rfl := built.children_of_identity leaf
  have alone := variableNames_identity leaf
  have typed {table : SortTable} (known : table.sortOf? lv.name = some w.sort) :
      (node lv []).HasSort table w.sort := .var leaf known own
  have passes {op : Op} : checkSort op w.sort (node lv []) = .ok () := by
    refine checkSort_eq_ok_iff.2 fun s known => own s ?_
    rwa [resultSort_node, leaf] at known
  have stands {l : Expr} (made : differing (node lv []) (.ofValue w) = .ok l)
      (accepted : checkSort .or .bool l = .ok ())
      (sorted : ∀ {table : SortTable}, table.sortOf? lv.name = some w.sort → l.HasSort table .bool)
      (names : l.variableNames = [lv.name]) :
      ∃ l, differing (node lv []) (.ofValue w) = .ok l ∧ Stands (node lv []) w l :=
    ⟨l, made, differs_of_differing built var made, accepted, sorted, names⟩
  match w with
  | .bool false => exact stands rfl passes typed alone
  | .bool true =>
    have made := combineExprs_of_passes (show Op.not.operandSort? = some .bool from rfl) rfl
      (List.forall_mem_singleton.2 passes) (flatten_of_not_isFlattening rfl [node lv []])
    refine stands ((combine_map_expr rfl [node lv []]).trans made) rfl
      (fun known => .app rfl rfl (List.forall_mem_singleton.2 (typed known))) ?_
    exact (variableNames_inner (by nofun) _).trans ((List.flatMap_singleton ..).trans alone)
  | .int n =>
    have operands : ∀ e ∈ [node lv [], constant (.int n)], checkSort .ne .int e = .ok () :=
      List.forall_mem_cons.2 ⟨passes, List.forall_mem_singleton.2 rfl⟩
    have made := combineExprs_of_passes (show Op.ne.operandSort? = some .int from rfl) rfl
      operands (flatten_of_not_isFlattening rfl _)
    refine stands ((differing_int _ n).trans ((if_pos short).trans made)) rfl
      (fun known => .app rfl rfl (List.forall_mem_cons.2 ⟨typed known,
        List.forall_mem_singleton.2 (.const rfl rfl)⟩)) ?_
    refine (variableNames_inner (by nofun) _).trans ?_
    rw [List.flatMap_cons, alone]
    rfl

/-- **No literal is made for any other value.** -/
theorem differing_of_not_isWritable (v : Expr) (long : w.isWritable = false) :
    differing v (.ofValue w) = .error .valueTooLong := by
  cases w with
  | bool b => cases long
  | int n => exact (differing_int v n).trans (if_neg (Bool.eq_false_iff.1 long))

end Literal

/-! ## Clauses -/

section Clause

variable {values : List (String × Operand)} {μ : Valuation} {vs literals : List Expr}

/-- The names of literals are those of the variables. -/
theorem names_of_row (row : List.Forall₂ (fun v l => Stands v (μ v.name) l) vs literals) :
    literals.flatMap variableNames = vs.map name := by
  induction row with
  | nil => rfl
  | cons first _ ih => rw [List.flatMap_cons, first.names, ih, List.map_cons, List.singleton_append]

/-- The variables among some variables are these, each name at its first occurrence. -/
theorem map_name_vars_eq (isVar : ∀ v ∈ vs, v.Built ∧ v.isVariable = true) :
    (vars vs).map name = (vs.map name).foldl SortTable.addName [] := by
  have alone : vs.flatMap variableNames = vs.map name := by
    rw [List.map_eq_flatMap]
    refine List.flatMap_congr fun v hv => ?_
    obtain ⟨built, var⟩ := isVar v hv
    obtain ⟨lv, cs⟩ := v
    obtain rfl := built.children_of_identity (beq_iff_eq.1 var)
    exact variableNames_identity (beq_iff_eq.1 var)
  rw [map_name_vars, alone]

/-- **A clause is made** when there is any variable and each has a value that its sort
allows and that can be written. -/
theorem exists_clause (any : vs ≠ []) (isVar : ∀ v ∈ vs, v.Built ∧ v.isVariable = true)
    (given : ∀ v ∈ vs, values.lookup v.name = some (.ofValue (μ v.name)))
    (own : ∀ v ∈ vs, ∀ s ∈ v.sort, s = (μ v.name).sort)
    (short : ∀ v ∈ vs, (μ v.name).isWritable = true) :
    ∃ literals, List.Forall₂ (fun v l => Stands v (μ v.name) l) vs literals ∧
      combineExprs .or literals =
        .ok (node ⟨.or, derivedName .or literals, none, none, none⟩ literals) ∧
      blockVariables values vs =
        .ok (node ⟨.or, derivedName .or literals, none, none, none⟩ literals) := by
  have each : ∀ v ∈ vs, ∃ l, literalFor values v = .ok l ∧ Stands v (μ v.name) l := by
    intro v hv
    obtain ⟨l, made, stands⟩ :=
      exists_stands (isVar v hv).1 (isVar v hv).2 (own v hv) (short v hv)
    exact ⟨l, by simp only [literalFor, given v hv, made], stands⟩
  obtain ⟨literals, row⟩ := Outcome.exists_row each
  have stand : ∀ l ∈ literals, ∃ v w, Stands v w l := fun l hl => by
    obtain ⟨v, -, -, stands⟩ := Outcome.exists_of_mem_right row hl
    exact ⟨v, _, stands⟩
  have made : combineExprs .or literals =
      .ok (node ⟨.or, derivedName .or literals, none, none, none⟩ literals) := by
    refine combineExprs_of_passes rfl ?_ (fun l hl => ?_) (flatten_of_apart fun l hl => ?_)
    · rw [accepts_iff_of_isFlattening rfl, ← row.length_eq]
      exact List.length_pos_iff.2 any
    · obtain ⟨v, w, stands⟩ := stand l hl
      exact stands.passes
    · obtain ⟨v, w, stands⟩ := stand l hl
      exact stands.differs.apart
  refine ⟨literals, row.imp fun _ _ h => h.2, made, ?_⟩
  rw [blockVariables, Outcome.mapM_eq_ok_iff.2 (row.imp fun _ _ h => h.1), Outcome.bind_ok,
    combineAll_map_expr rfl, made]
  rfl

/-- **No clause is made** of a value that cannot be written. -/
theorem blockVariables_of_not_isWritable
    (isVar : ∀ v ∈ vs, v.Built ∧ v.isVariable = true)
    (given : ∀ v ∈ vs, values.lookup v.name = some (.ofValue (μ v.name)))
    (own : ∀ v ∈ vs, ∀ s ∈ v.sort, s = (μ v.name).sort)
    (long : ∃ v ∈ vs, (μ v.name).isWritable = false) :
    blockVariables values vs = .error (.build .valueTooLong) := by
  have each (v : Expr) (hv : v ∈ vs) : literalFor values v = .error (.build .valueTooLong) ↔
      (μ v.name).isWritable = false := by
    cases short : (μ v.name).isWritable with
    | true =>
      obtain ⟨l, made, -⟩ := exists_stands (isVar v hv).1 (isVar v hv).2 (own v hv) short
      simp only [literalFor, given v hv, made, reduceCtorEq]
    | false => simp only [literalFor, given v hv, differing_of_not_isWritable v short]
  obtain ⟨u, hu, long⟩ := long
  cases made : vs.mapM (literalFor values) with
  | ok literals =>
    obtain ⟨l, -, literal⟩ :=
      Outcome.exists_of_mem_right (Outcome.mapM_eq_ok_iff.1 made).flip hu
    rw [(each u hu).2 long] at literal
    cases literal
  | error e =>
    -- the error is that of a variable, and no variable has another one
    obtain ⟨v, hv, failed⟩ := Outcome.exists_of_mapM_eq_error made
    have same : e = .build .valueTooLong := by
      cases short : (μ v.name).isWritable with
      | true =>
        obtain ⟨l, literal, -⟩ := exists_stands (isVar v hv).1 (isVar v hv).2 (own v hv) short
        simp only [literalFor, given v hv, literal, reduceCtorEq] at failed
      | false => exact Except.error.inj (failed.symm.trans ((each v hv).2 short))
    rw [blockVariables, made, same]
    rfl

/-- **A blocking clause excludes one assignment.** Let the members of a collection, of
which there are some, be variables, and let each have a value that its sort allows; a
variable may be there more than once. There is a clause when no value is an integer with
too many digits to be written, and else this is the error. Sort inference gives the
variables the sorts of their values, unless a constant has been declared at another sort
before. And under any values of these sorts the clause is false when they are the given
ones at all the variables, and true when they are not. -/
theorem block_excludes_one {decisions : Operand} (collected : collect decisions = .ok vs)
    (any : vs ≠ []) (isVar : ∀ v ∈ vs, v.Built ∧ v.isVariable = true)
    (given : ∀ v ∈ vs, values.lookup v.name = some (.ofValue (μ v.name)))
    (own : ∀ v ∈ vs, ∀ s ∈ v.sort, s = (μ v.name).sort) :
    ((∃ v ∈ vs, (μ v.name).isWritable = false) →
      block values decisions = .error (.build .valueTooLong)) ∧
    ((∀ v ∈ vs, (μ v.name).isWritable = true) → ∃ clause, block values decisions = .ok clause ∧
      (∀ declared : SortTable, (∀ v ∈ vs, ∀ s ∈ declared.sortOf? v.name, s = (μ v.name).sort) →
        Smt.inferSorts declared clause = .ok ((vars vs).map fun v => (v.name, (μ v.name).sort))) ∧
      ∀ ρ : Valuation, (∀ v ∈ vs, (ρ v.name).sort = (μ v.name).sort) →
        clause.valueUnder (fun x => some (ρ x)) =
          .ok (some (.bool (!decide (∀ v ∈ vs, ρ v.name = μ v.name))))) := by
  refine ⟨fun long => ?_, fun short => ?_⟩
  · rw [block, collected]
    exact blockVariables_of_not_isWritable isVar given own long
  obtain ⟨literals, row, made, whole⟩ := exists_clause any isVar given own short
  have stand : ∀ l ∈ literals, ∃ v ∈ vs, Stands v (μ v.name) l :=
    fun l hl => Outcome.exists_of_mem_right row hl
  have built := Built.of_combineExprs made rfl fun l hl => by
    obtain ⟨v, -, stands⟩ := stand l hl
    exact stands.differs.built
  have names : (node ⟨.or, derivedName .or literals, none, none, none⟩ literals).variableNames =
      vs.map name := (variableNames_inner (by nofun) _).trans (names_of_row row)
  refine ⟨_, by rw [block, collected]; exact whole, fun declared agree => ?_, fun ρ sorts => ?_⟩
  · have known := Smt.inferSorts_of_sorts (fun x => (μ x).sort) built
      (fun table known => .app rfl rfl fun l hl => ?_) (names ▸ List.forall_mem_map.2 agree)
    · rw [known, firstNames_eq_foldl, names, ← map_name_vars_eq isVar, List.map_map]
      rfl
    · obtain ⟨v, hv, stands⟩ := stand l hl
      exact stands.hasSort (known v.name (names ▸ List.mem_map_of_mem hv))
  · have valued := mapM_valueUnder_literals (fun x => some (μ x))
      (row.imp fun v l stands => ⟨_, rfl, stands.differs⟩) (by simpa using sorts)
    rw [valueUnder_inner _ _ rfl, valued, Outcome.bind_ok]
    show Except.ok (Value.disj _) = _
    rw [Value.disj_map_bool]
    have excluded : ((vs.map fun v => some (μ v.name) != some (ρ v.name)).any id) =
        !decide (∀ v ∈ vs, ρ v.name = μ v.name) := by
      have turned : (∃ v ∈ vs, ¬ μ v.name = ρ v.name) ↔ ∃ v ∈ vs, ¬ ρ v.name = μ v.name :=
        exists_congr fun v => and_congr_right fun _ => not_congr eq_comm
      rw [Bool.eq_iff_iff, List.any_map]
      simpa using turned
    rw [excluded]

/-- A truth value without a declared sort, twice, and a negative integer: the clause is
false at these values, and true when another integer stands for the one. -/
theorem block_excludes_one_repeated :
    let decisions : Operand :=
      .list [.expr (var "p" none), .tuple [.expr (var "n" (some .int)), .expr (var "p" none)]]
    ∃ clause, block [("p", .bool true), ("z", .absent), ("n", .int (-2))] decisions = .ok clause ∧
      Smt.inferSorts [("n", .int)] clause = .ok [("p", .bool), ("n", .int)] ∧
      clause.valueUnder (fun x => some (if x = "p" then .bool true else .int (-2))) =
        .ok (some (.bool false)) ∧
      clause.valueUnder (fun x => some (if x = "p" then .bool true else .int 2)) =
        .ok (some (.bool true)) := by
  intro decisions
  let vs : List Expr := [var "p" none, var "n" (some .int), var "p" none]
  let μ : Valuation := fun x => if x = "p" then .bool true else .int (-2)
  have isVar : ∀ v ∈ vs, v.Built ∧ v.isVariable = true :=
    List.forall_mem_cons.2 ⟨⟨.var .., rfl⟩, List.forall_mem_cons.2 ⟨⟨.var .., rfl⟩,
      List.forall_mem_singleton.2 ⟨.var .., rfl⟩⟩⟩
  have given : ∀ v ∈ vs, [("p", Operand.bool true), ("z", .absent), ("n", .int (-2))].lookup v.name =
      some (.ofValue (μ v.name)) :=
    List.forall_mem_cons.2 ⟨rfl, List.forall_mem_cons.2 ⟨rfl, List.forall_mem_singleton.2 rfl⟩⟩
  have collected : collect decisions = .ok vs := rfl
  have short : ∀ v ∈ vs, (μ v.name).isWritable = true :=
    List.forall_mem_cons.2 ⟨rfl, List.forall_mem_cons.2 ⟨rfl, List.forall_mem_singleton.2 rfl⟩⟩
  obtain ⟨clause, made, inferred, valued⟩ :=
    (block_excludes_one collected (List.cons_ne_nil _ _) isVar given (by decide)).2 short
  refine ⟨clause, made, inferred [("n", .int)] (by decide), valued μ fun _ _ => rfl, ?_⟩
  exact valued (fun x => if x = "p" then .bool true else .int 2) (by decide)

/-- A power of ten with one digit too many is a value of an integer that no clause
excludes. -/
theorem block_of_power : let x : Expr := var "x" (some .int)
    let w : Value := .int (Nat.pow 10 Text.longestNumeral)
    x.Built ∧ x.isVariable = true ∧ (∀ s ∈ x.sort, s = w.sort) ∧
    block [("x", .ofValue w)] (.list [.expr x]) = .error (.build .valueTooLong) := by
  intro x w
  have isVar : ∀ v ∈ [x], v.Built ∧ v.isVariable = true :=
    List.forall_mem_singleton.2 ⟨.var .., rfl⟩
  have own : ∀ s ∈ x.sort, s = w.sort := fun s known => (Option.some.inj known).symm
  have none : blockVariables [("x", .ofValue w)] [x] = .error (.build .valueTooLong) :=
    blockVariables_of_not_isWritable (μ := fun _ => w) isVar (List.forall_mem_singleton.2 rfl)
      (List.forall_mem_singleton.2 own) ⟨x, List.mem_singleton_self x, Answer.not_isWritable_pow⟩
  exact ⟨.var .., rfl, own, by rw [block]; exact none⟩

end Clause

end Enumeration

end SmtDialogue
