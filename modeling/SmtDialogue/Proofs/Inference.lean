import SmtDialogue.Proofs.Sorting

/-!
# Sort inference is exact

An assignment of sorts is a table that says of each name what the declarations
made before say of it and, where a variable carries a sort, what the variable
says (`SortedBy`). The pass over an asserted expression succeeds exactly when
there is one, and what it finds is the part of the assignment that is about the
expression: the names of its variables in the order of their first occurrence,
each at its sort. That part is the same for all assignments, since the sort of
every place of an expression follows from the places around it.

That the pass finds no more than an assignment has been shown along with what
it finds (`infer_spec`). The converse is a second induction over the expression:
as long as what has been found is a part of the assignment, no check fails
(`exists_infer_of_hasSort`). What is entered on the way does not depend on sorts
at all (`names_of_infer`).
-/

namespace SmtDialogue

namespace SortTable

variable {t u : SortTable}

/-- What a table says of some names, in their order. -/
def restrict (t : SortTable) (names : List String) : SortTable :=
  names.filterMap fun x => (t.sortOf? x).map (x, ·)

theorem restrict_cons {x : String} {s : SmtSort} (h : t.sortOf? x = some s) (names : List String) :
    t.restrict (x :: names) = (x, s) :: t.restrict names := by
  simp [restrict, h]

/-- A table in which each name is entered once is what any larger one says of
its names. -/
theorem restrict_names (once : t.names.Nodup) (h : t.Within u) : u.restrict t.names = t := by
  induction t with
  | nil => rfl
  | cons entry t ih =>
    obtain ⟨x, s⟩ := entry
    obtain ⟨new, once⟩ := List.nodup_cons.1 once
    have own : u.sortOf? x = some s := h x s (by rw [sortOf?_cons, if_pos rfl])
    have rest : Within t u := fun y s' found => by
      refine h y s' ?_
      rw [sortOf?_cons, if_neg, found]
      rintro rfl
      exact new (mem_names_of_sortOf? found)
    exact (restrict_cons own _).trans (congrArg _ (ih once rest))

/-- What a larger table says of a name can be entered. -/
theorem Within.enter {x : String} {s : SmtSort} (h : t.Within u) (known : u.sortOf? x = some s) :
    (t.enter x s).Within u := fun y s' found => by
  rw [sortOf?_enter] at found
  cases here : t.sortOf? y with
  | some s'' =>
    rw [here] at found
    exact h y s' (here.trans found)
  | none =>
    rw [here, Option.none_or] at found
    split at found
    · next same =>
      cases found
      exact same ▸ known
    · cases found

/-- A name added to some names, unless it is there already. -/
def addName (names : List String) (x : String) : List String :=
  if x ∈ names then names else names ++ [x]

theorem names_enter (t : SortTable) (x : String) (s : SmtSort) :
    (t.enter x s).names = addName t.names x := by
  unfold enter addName
  by_cases here : x ∈ t.names
  · rw [if_pos here, if_pos (contains_iff.2 here)]
  · rw [if_neg here, if_neg (mt contains_iff.1 here), names_append]
    rfl

end SortTable

open SortTable (addName)

namespace Expr

/-- The names of the variables of an expression in the order of their first
occurrence, where a node comes before its children. -/
def firstNames (e : Expr) : List String :=
  (vars [e]).map name

theorem map_name_addByName (found : List Expr) (e : Expr) :
    (addByName found e).map name = addName (found.map name) e.name := by
  unfold addByName addName
  have there : found.any (fun d => d.name == e.name) = true ↔ e.name ∈ found.map name := by
    simp [List.any_eq_true]
  by_cases here : e.name ∈ found.map name
  · rw [if_pos here, if_pos (there.2 here)]
  · rw [if_neg here, if_neg (mt there.1 here), List.map_append]
    rfl

theorem map_name_foldl_addByName (es found : List Expr) :
    (es.foldl addByName found).map name = (es.map name).foldl addName (found.map name) := by
  induction es generalizing found with
  | nil => rfl
  | cons e es ih =>
    rw [List.foldl_cons, ih, map_name_addByName]
    rfl

/-- The variables of several expressions are those of each, first occurrences. -/
theorem map_name_vars (es : List Expr) :
    (vars es).map name = (es.flatMap variableNames).foldl addName [] := by
  unfold vars variableNames
  rw [map_name_foldl_addByName, List.filter_flatMap, List.map_flatMap]
  rfl

/-- Each name is taken at its first occurrence. -/
theorem firstNames_eq_foldl (e : Expr) : e.firstNames = e.variableNames.foldl addName [] := by
  rw [firstNames, map_name_vars, List.flatMap_singleton]

/-- The variables of a compound node are those of its children. -/
theorem variableNames_inner {l : Label} (inner : l.op ≠ .identity) (cs : List Expr) :
    (node l cs).variableNames = cs.flatMap variableNames := by
  have noVariable : (node l cs).isVariable = false := beq_false_of_ne inner
  unfold variableNames
  rw [nodes_node, List.filter_cons_of_neg (by rw [noVariable]; exact Bool.false_ne_true),
    List.filter_flatMap, List.map_flatMap]

theorem variableNames_identity {l : Label} (leaf : l.op = .identity) :
    (node l []).variableNames = [l.name] := by
  have isVar : (node l []).isVariable = true := beq_iff_eq.2 leaf
  unfold variableNames
  rw [nodes_node, List.filter_cons_of_pos isVar]
  rfl

/-- A choice that builders make has a condition and two branches. -/
theorem Built.exists_of_ite {l : Label} {cs : List Expr} (built : (node l cs).Built)
    (choice : l.op = .ite) :
    ∃ condition thenBranch elseBranch, cs = [condition, thenBranch, elseBranch] := by
  have enough := built.accepts (by rw [op, label_node, choice]; rfl)
  rw [Op.accepts_iff, op, label_node, choice] at enough
  exact List.length_eq_three.1 (Nat.le_antisymm (enough.2 3 rfl) enough.1)

/-- **An assignment of sorts to an asserted expression**: a table that goes on
from what has been declared before and makes the expression a truth value. -/
def SortedBy (declared : SortTable) (e : Expr) (table : SortTable) : Prop :=
  declared.Within table ∧ e.HasSort table .bool

end Expr

namespace Smt

open SmtDialogue.Expr

/-! ## What is entered -/

/-- The passes over several expressions enter what each of them enters. -/
theorem names_of_inferAll {declared found found' : SortTable} {es : List Expr}
    {expected : SmtSort} (each : ∀ e ∈ es, ∀ found found', infer declared e expected found =
      .ok found' → found'.names = e.variableNames.foldl addName found.names)
    (h : inferAll declared es expected found = .ok found') :
    found'.names = (es.flatMap variableNames).foldl addName found.names := by
  induction es generalizing found with
  | nil =>
    cases h
    rfl
  | cons e es ih =>
    rw [inferAll] at h
    obtain ⟨middle, first, h⟩ := Outcome.bind_eq_ok_iff.1 h
    rw [List.flatMap_cons, List.foldl_append, ← each e List.mem_cons_self _ _ first]
    exact ih (fun d hd => each d (List.mem_cons_of_mem _ hd)) h

/-- **The names that a pass enters** are those of the variables that it meets,
each at its first occurrence. -/
theorem names_of_infer {declared found found' : SortTable} {e : Expr} {expected : SmtSort}
    (built : e.Built) (h : infer declared e expected found = .ok found') :
    found'.names = e.variableNames.foldl addName found.names := by
  induction e using Expr.induct generalizing expected found found' with
  | node l cs ih =>
    have each {expected : SmtSort} : ∀ c ∈ cs, ∀ found found',
        infer declared c expected found = .ok found' →
          found'.names = c.variableNames.foldl addName found.names :=
      fun c hc _ _ => ih c hc (built.child hc)
    rcases l.op.sorted_cases with leaf | leaf | choice | ⟨operand, result, takes, gives⟩
    · obtain rfl := built.children_of_identity leaf
      rw [infer_identity leaf] at h
      obtain ⟨⟨⟩, -, made⟩ := Outcome.bind_eq_ok_iff.1 h
      cases made
      rw [variableNames_identity leaf, SortTable.names_enter]
      rfl
    · obtain ⟨-, rfl⟩ := (infer_const leaf).1 h
      obtain ⟨v, rfl, -⟩ := built.exists_of_const leaf
      rw [variableNames_inner (by rw [leaf]; nofun)]
      rfl
    · obtain ⟨condition, thenBranch, elseBranch, rfl⟩ := built.exists_of_ite choice
      rw [infer_ite choice] at h
      obtain ⟨f₁, h₁, h⟩ := Outcome.bind_eq_ok_iff.1 h
      obtain ⟨f₂, h₂, h₃⟩ := Outcome.bind_eq_ok_iff.1 h
      rw [variableNames_inner (by rw [choice]; nofun), each _ (by simp) _ _ h₃,
        each _ (by simp) _ _ h₂, each _ (by simp) _ _ h₁]
      simp [List.foldl_append]
    · rw [variableNames_inner (by rintro leaf; rw [leaf] at takes; cases takes)]
      exact names_of_inferAll each ((infer_app takes gives).1 h).2

/-! ## No check fails -/

theorem exists_inferAll {declared table found : SortTable} {es : List Expr} {expected : SmtSort}
    (each : ∀ e ∈ es, ∀ {found : SortTable}, found.Within table →
      ∃ found', infer declared e expected found = .ok found' ∧ found'.Within table)
    (part : found.Within table) :
    ∃ found', inferAll declared es expected found = .ok found' ∧ found'.Within table := by
  induction es generalizing found with
  | nil => exact ⟨found, rfl, part⟩
  | cons e es ih =>
    obtain ⟨middle, first, part⟩ := each e List.mem_cons_self part
    obtain ⟨found', rest, part⟩ := ih (fun d hd => each d (List.mem_cons_of_mem _ hd)) part
    refine ⟨found', ?_, part⟩
    rw [inferAll, first]
    exact rest

/-- **The pass goes through under every assignment** that goes on from what has
been declared and from what has been found. -/
theorem exists_infer_of_hasSort {declared table found : SortTable}
    (extended : declared.Within table) {e : Expr} {expected : SmtSort}
    (typed : e.HasSort table expected) (part : found.Within table) :
    ∃ found', infer declared e expected found = .ok found' ∧ found'.Within table := by
  induction typed generalizing found with
  | @var l cs expected leaf known own =>
    have agrees {t : SortTable} (h : t.Within table) (s : SmtSort)
        (there : t.sortOf? l.name = some s) : s = expected :=
      Option.some.inj ((h l.name s there).symm.trans known)
    have passes : checkUse l.name expected [(.declared, l.sort),
        (.session, declared.sortOf? l.name), (.use, found.sortOf? l.name)] = .ok () := by
      simp only [checkUse_eq_ok_iff, List.forall_mem_cons]
      exact ⟨own, agrees extended, agrees part, nofun⟩
    refine ⟨found.enter l.name expected, ?_, part.enter known⟩
    rw [infer_identity leaf, passes]
    rfl
  | const leaf own => exact ⟨found, (infer_const leaf).2 ⟨own, rfl⟩, part⟩
  | ite choice _ _ _ test first second =>
    obtain ⟨f₁, h₁, part⟩ := test part
    obtain ⟨f₂, h₂, part⟩ := first part
    obtain ⟨f₃, h₃, part⟩ := second part
    refine ⟨f₃, ?_, part⟩
    rw [infer_ite choice, h₁, Outcome.bind_ok, h₂, Outcome.bind_ok, h₃]
  | app takes gives _ each =>
    obtain ⟨found', passes, part⟩ := exists_inferAll (fun e he _ => each e he) part
    exact ⟨found', (infer_app takes gives).2 ⟨rfl, passes⟩, part⟩

/-! ## Which checks fail -/

theorem kind_of_checkUse {name : String} {used : SmtSort}
    {sources : List (SortSource × Option SmtSort)} {cause : WriteError}
    (h : checkUse name used sources = .error cause) : cause.kind = .typeMismatch := by
  induction sources with
  | nil => cases h
  | cons source rest ih =>
    obtain ⟨source, known⟩ := source
    cases known with
    | none => exact ih h
    | some sort =>
      rw [checkUse] at h
      split at h
      · exact ih h
      · cases h
        rfl

/-- An operator fails at its own result or at an operand. -/
theorem kind_of_infer_app {declared found : SortTable} {l : Label} {cs : List Expr}
    {expected operand result : SmtSort} (takes : l.op.operandSort? = some operand)
    (gives : l.op.resultSort? = some result) {cause : WriteError}
    (h : infer declared (node l cs) expected found = .error cause) :
    cause.kind = .typeMismatch ∨ inferAll declared cs operand found = .error cause := by
  unfold infer at h
  cases hop : l.op <;> rw [hop] at takes gives h <;> cases takes <;> cases gives <;>
    dsimp only at h <;> split at h <;>
    first
    | exact .inr h
    | exact .inl (by cases h; rfl)

theorem kind_of_inferAll {declared found : SortTable} {es : List Expr} {expected : SmtSort}
    {cause : WriteError} (each : ∀ e ∈ es, ∀ found,
      infer declared e expected found = .error cause → cause.kind = .typeMismatch)
    (h : inferAll declared es expected found = .error cause) : cause.kind = .typeMismatch := by
  induction es generalizing found with
  | nil => cases h
  | cons e es ih =>
    rw [inferAll] at h
    rcases Outcome.bind_eq_error_iff.1 h with h | ⟨middle, -, h⟩
    · exact each e List.mem_cons_self _ h
    · exact ih (fun d hd => each d (List.mem_cons_of_mem _ hd)) h

/-- **A pass over an expression that builders make only fails by a sort.** -/
theorem kind_of_infer {declared found : SortTable} {e : Expr} {expected : SmtSort}
    (built : e.Built) {cause : WriteError}
    (h : infer declared e expected found = .error cause) : cause.kind = .typeMismatch := by
  induction e using Expr.induct generalizing expected found with
  | node l cs ih =>
    have each {c : Expr} (hc : c ∈ cs) {expected : SmtSort} {found : SortTable} :
        infer declared c expected found = .error cause → cause.kind = .typeMismatch :=
      ih c hc (built.child hc)
    rcases l.op.sorted_cases with leaf | leaf | choice | ⟨operand, result, takes, gives⟩
    · rw [infer_identity leaf] at h
      rcases Outcome.bind_eq_error_iff.1 h with h | ⟨_, -, h⟩
      · exact kind_of_checkUse h
      · cases h
    · obtain ⟨v, -, -, own, -⟩ := built.exists_of_const leaf
      unfold infer at h
      rw [leaf, own] at h
      dsimp only at h
      split at h
      · cases h
      · cases h
        rfl
    · obtain ⟨condition, thenBranch, elseBranch, rfl⟩ := built.exists_of_ite choice
      rw [infer_ite choice] at h
      rcases Outcome.bind_eq_error_iff.1 h with h | ⟨f₁, -, h⟩
      · exact each (by simp) h
      · rcases Outcome.bind_eq_error_iff.1 h with h | ⟨f₂, -, h⟩
        · exact each (by simp) h
        · exact each (by simp) h
    · rcases kind_of_infer_app takes gives h with wrong | h
      · exact wrong
      · exact kind_of_inferAll (fun c hc _ => each hc) h

/-! ## Exactness -/

/-- What is found is an assignment, when it is put on top of what has been
declared before. -/
theorem Finding.sortedBy {declared found : SortTable} {e : Expr}
    (finding : Finding declared e .bool [] found) :
    ∃ table, e.SortedBy declared table ∧ found.Within table := by
  have part : found.Within (declared ++ found.newIn declared) := fun x s hx => by
    rw [SortTable.sortOf?_append]
    cases hd : declared.sortOf? x with
    | none => rw [SortTable.sortOf?_newIn _ _ hd, hx]; rfl
    | some known => rw [finding.fits x s known rfl hx hd]; rfl
  exact ⟨_, ⟨SortTable.within_append _ _, finding.sorted.mono part⟩, part⟩

/-- Under an assignment the pass finds the part that is about the expression. -/
theorem inferSorts_of_sortedBy {declared table : SortTable} {e : Expr} (built : e.Built)
    (sorted : e.SortedBy declared table) :
    inferSorts declared e = .ok (table.restrict e.firstNames) := by
  have nothing : SortTable.Within [] table := nofun
  obtain ⟨found, passes, part⟩ := exists_infer_of_hasSort sorted.1 sorted.2 nothing
  have names : found.names = e.firstNames := by
    rw [firstNames_eq_foldl]
    exact names_of_infer built passes
  rw [← names, SortTable.restrict_names ((inferSorts_spec passes).once List.nodup_nil) part]
  exact passes

/-- **Sort inference is exact.** It succeeds exactly when there is an assignment
of sorts that goes on from the sorts declared before, agrees with the sorts that
the variables carry and makes the expression a truth value; it then finds what
the assignment says of the variables of the expression, in the order of their
first occurrence, which is the same for all assignments. When there is no
assignment, it fails by a sort that does not fit. -/
theorem inferSorts_eq_ok_iff {declared : SortTable} {e : Expr} (built : e.Built) :
    (∀ found, inferSorts declared e = .ok found ↔
      ∃ table, e.SortedBy declared table ∧ found = table.restrict e.firstNames) ∧
    (∀ t u, e.SortedBy declared t → e.SortedBy declared u →
      t.restrict e.firstNames = u.restrict e.firstNames) ∧
    ((¬ ∃ table, e.SortedBy declared table) →
      ∃ cause, inferSorts declared e = .error cause ∧ cause.kind = .typeMismatch) := by
  refine ⟨fun found => ⟨fun passes => ?_, ?_⟩, fun t u ht hu => ?_, fun none => ?_⟩
  · obtain ⟨table, sorted, -⟩ := (inferSorts_spec passes).sortedBy
    exact ⟨table, sorted, Except.ok.inj (passes.symm.trans (inferSorts_of_sortedBy built sorted))⟩
  · rintro ⟨table, sorted, rfl⟩
    exact inferSorts_of_sortedBy built sorted
  · exact Except.ok.inj
      ((inferSorts_of_sortedBy built ht).symm.trans (inferSorts_of_sortedBy built hu))
  · cases outcome : inferSorts declared e with
    | error cause => exact ⟨cause, rfl, kind_of_infer built outcome⟩
    | ok found =>
      obtain ⟨table, sorted, -⟩ := (inferSorts_spec outcome).sortedBy
      exact absurd ⟨table, sorted⟩ none

/-- A comparison of a choice with a constant that has been declared before; the
sorts of the condition and of the first branch follow from their places. -/
def chosenAtLeast : Expr :=
  .node ⟨.ge, "ge_ite_c_n_5_m", none, none, none⟩
    [.node ⟨.ite, "ite_c_n_5", some .int, none, none⟩
      [.var "c" none, .var "n" none, .constant (.int 5)],
     .var "m" none]

theorem built_chosenAtLeast : chosenAtLeast.Built := by
  have choice : Expr.combineExprs .ite [.var "c" none, .var "n" none, .constant (.int 5)] =
      .ok (.node ⟨.ite, "ite_c_n_5", some .int, none, none⟩
        [.var "c" none, .var "n" none, .constant (.int 5)]) := rfl
  have whole : Expr.combineExprs .ge chosenAtLeast.children = .ok chosenAtLeast := rfl
  refine .of_combineExprs whole rfl (List.forall_mem_cons.2 ⟨?_, List.forall_mem_singleton.2 ?_⟩)
  · refine .of_combineExprs choice rfl (List.forall_mem_cons.2 ⟨.var _ _ _ _,
      List.forall_mem_cons.2 ⟨.var _ _ _ _, List.forall_mem_singleton.2 (.const (.int 5) none)⟩⟩)
  · exact .var _ _ _ _

theorem inferSorts_chosenAtLeast : chosenAtLeast.Built ∧
    chosenAtLeast.SortedBy [("m", .int)] [("m", .int), ("c", .bool), ("n", .int)] ∧
    inferSorts [("m", .int)] chosenAtLeast = .ok [("c", .bool), ("n", .int), ("m", .int)] := by
  have sorted : chosenAtLeast.SortedBy [("m", .int)] [("m", .int), ("c", .bool), ("n", .int)] := by
    refine ⟨SortTable.within_append [("m", .int)] [("c", .bool), ("n", .int)],
      .app rfl rfl (List.forall_mem_cons.2 ⟨?_, List.forall_mem_singleton.2 (.var rfl rfl nofun)⟩)⟩
    exact .ite rfl (.var rfl rfl nofun) (.var rfl rfl nofun) (.const rfl rfl)
  exact ⟨built_chosenAtLeast, sorted,
    ((inferSorts_eq_ok_iff built_chosenAtLeast).1 _).2 ⟨_, sorted, rfl⟩⟩

end Smt

end SmtDialogue
