import SmtDialogue.Proofs.Built
import SmtDialogue.Proofs.Table
import SmtDialogue.Smt.Command

/-!
# Well-sorted expressions

`HasSort` is the typing relation of expressions over a table of sorts: logic
takes truth values to a truth value, comparison integers to a truth value,
arithmetic integers to an integer, and a choice has a truth value for its
condition and the sort of both branches. A variable has the sort that the table
gives it, which must be the one recorded at the node when there is one.

The pass that collects sorts goes through an expression once, from left to
right, and never goes back on an entry. `infer_spec` says what it does on the
way: the table found so far is kept, the expression is well-sorted in the table
found in the end, every entry fits what earlier assertions have declared, and
the names entered are those of the variables met.
-/

namespace SmtDialogue

/-- An operator is a variable, a constant or a choice, or fixes the sorts of its
operands and of its result. -/
theorem Op.sorted_cases (op : Op) :
    op = .identity ∨ op = .const ∨ op = .ite ∨
      ∃ operand result, op.operandSort? = some operand ∧ op.resultSort? = some result := by
  cases op with
  | identity => exact .inl rfl
  | const => exact .inr (.inl rfl)
  | ite => exact .inr (.inr (.inl rfl))
  | _ => exact .inr (.inr (.inr ⟨_, _, rfl, rfl⟩))

namespace Expr

/-- **An expression has a sort** in a table. -/
inductive HasSort (table : SortTable) : Expr → SmtSort → Prop
  | var {l : Label} {cs : List Expr} {sort : SmtSort} (leaf : l.op = .identity)
    (known : table.sortOf? l.name = some sort) (own : ∀ s ∈ l.sort, s = sort) :
    HasSort table (node l cs) sort
  | const {l : Label} {cs : List Expr} {sort : SmtSort} (leaf : l.op = .const)
    (own : l.sort = some sort) : HasSort table (node l cs) sort
  | ite {l : Label} {condition thenBranch elseBranch : Expr} {sort : SmtSort}
    (choice : l.op = .ite) (test : HasSort table condition .bool)
    (first : HasSort table thenBranch sort) (second : HasSort table elseBranch sort) :
    HasSort table (node l [condition, thenBranch, elseBranch]) sort
  | app {l : Label} {cs : List Expr} {operand result : SmtSort}
    (takes : l.op.operandSort? = some operand) (gives : l.op.resultSort? = some result)
    (parts : ∀ c ∈ cs, HasSort table c operand) : HasSort table (node l cs) result

/-- A larger table leaves every sort as it was. -/
theorem HasSort.mono {t u : SortTable} (h : t.Within u) {e : Expr} {sort : SmtSort}
    (typed : e.HasSort t sort) : e.HasSort u sort := by
  induction typed with
  | var leaf known own => exact .var leaf (h _ _ known) own
  | const leaf own => exact .const leaf own
  | ite choice _ _ _ test first second => exact .ite choice test first second
  | app takes gives _ parts => exact .app takes gives parts

/-- A variable has the sort that the table gives it. -/
theorem HasSort.sortOf? {table : SortTable} {l : Label} {cs : List Expr} {sort : SmtSort}
    (typed : (node l cs).HasSort table sort) (leaf : l.op = .identity) :
    table.sortOf? l.name = some sort := by
  cases typed with
  | var _ known => exact known
  | const other | ite other =>
    rw [leaf] at other
    cases other
  | app takes =>
    rw [leaf] at takes
    cases takes

/-- The operands of an operator have the sort that it asks. -/
theorem HasSort.operand {table : SortTable} {l : Label} {cs : List Expr} {sort operand : SmtSort}
    (typed : (node l cs).HasSort table sort) (takes : l.op.operandSort? = some operand) :
    ∀ c ∈ cs, c.HasSort table operand := by
  cases typed with
  | var other | const other | ite other =>
    rw [other] at takes
    cases takes
  | app takes' _ parts =>
    rw [Option.some.inj (takes.symm.trans takes')]
    exact parts

/-- The names of the variables of an expression, at each occurrence. -/
def variableNames (e : Expr) : List String :=
  (e.nodes.filter isVariable).map name

theorem mem_variableNames_node {l : Label} {cs : List Expr} {x : String} :
    x ∈ (node l cs).variableNames ↔
      (l.op = .identity ∧ x = l.name) ∨ ∃ c ∈ cs, x ∈ c.variableNames := by
  simp only [variableNames, List.mem_map, List.mem_filter, nodes_node, List.mem_cons,
    List.mem_flatMap]
  constructor
  · rintro ⟨n, ⟨rfl | ⟨c, hc, hn⟩, hv⟩, rfl⟩
    · exact .inl ⟨beq_iff_eq.1 hv, rfl⟩
    · exact .inr ⟨c, hc, n, ⟨hn, hv⟩, rfl⟩
  · rintro (⟨leaf, rfl⟩ | ⟨c, hc, n, ⟨hn, hv⟩, rfl⟩)
    · exact ⟨node l cs, ⟨.inl rfl, beq_iff_eq.2 leaf⟩, rfl⟩
    · exact ⟨n, ⟨.inr ⟨c, hc, hn⟩, hv⟩, rfl⟩

end Expr

namespace Smt

open SmtDialogue.Expr

/-! ## The checks of one use -/

/-- A use passes when every sort that is known is the one of the use. -/
theorem checkUse_eq_ok_iff {name : String} {used : SmtSort}
    {sources : List (SortSource × Option SmtSort)} :
    checkUse name used sources = .ok () ↔ ∀ source ∈ sources, ∀ s ∈ source.2, s = used := by
  induction sources with
  | nil => simp [checkUse]
  | cons source rest ih =>
    obtain ⟨source, known⟩ := source
    cases known with
    | none => simp [checkUse, ih]
    | some s =>
      rw [checkUse]
      by_cases same : s = used
      · simp [same, ih]
      · simp [same]

/-! ## The pass at each kind of node -/

theorem infer_identity {declared found : SortTable} {l : Label} {cs : List Expr}
    {expected : SmtSort} (leaf : l.op = .identity) :
    infer declared (node l cs) expected found =
      (checkUse l.name expected
        [(.declared, l.sort), (.session, declared.sortOf? l.name), (.use, found.sortOf? l.name)]
        >>= fun _ => .ok (found.enter l.name expected)) := by
  unfold infer
  simp only [leaf]
  rfl

theorem infer_const {declared found found' : SortTable} {l : Label} {cs : List Expr}
    {expected : SmtSort} (leaf : l.op = .const) :
    infer declared (node l cs) expected found = .ok found' ↔
      l.sort = some expected ∧ found' = found := by
  unfold infer
  simp only [leaf]
  cases l.sort with
  | none => simp
  | some actual =>
    by_cases same : actual = expected
    · simp [same, eq_comm]
    · simp [same]

theorem infer_ite {declared found : SortTable} {l : Label} {expected : SmtSort}
    {condition thenBranch elseBranch : Expr} (choice : l.op = .ite) :
    infer declared (node l [condition, thenBranch, elseBranch]) expected found =
      (infer declared condition .bool found >>= fun found =>
        infer declared thenBranch expected found >>= infer declared elseBranch expected) := by
  conv_lhs => unfold infer
  simp only [choice]

theorem infer_app {declared found found' : SortTable} {l : Label} {cs : List Expr}
    {expected operand result : SmtSort} (takes : l.op.operandSort? = some operand)
    (gives : l.op.resultSort? = some result) :
    infer declared (node l cs) expected found = .ok found' ↔
      result = expected ∧ inferAll declared cs operand found = .ok found' := by
  unfold infer
  cases hop : l.op <;> rw [hop] at takes gives <;> cases takes <;> cases gives <;>
    simp only [Op.resultSort?, Op.operandSort?, Op.isLogic, Op.isComparison, Op.isArithmetic,
      Bool.or_true, Bool.true_or, Bool.or_self, Bool.false_eq_true, if_true, if_false,
      Option.getD_some, beq_iff_eq] <;>
    split <;> simp_all

/-! ## What the pass finds -/

/-- What a pass over an expression of which a sort is expected makes of the
table found before. -/
structure Finding (declared : SortTable) (e : Expr) (expected : SmtSort)
    (found found' : SortTable) : Prop where
  /-- Nothing found before is lost. -/
  keeps : found.Within found'
  /-- The expression is well-sorted in what has been found. -/
  sorted : e.HasSort found' expected
  /-- What is new fits the sorts declared before. -/
  fits : ∀ (x : String) (s known : SmtSort), found.sortOf? x = none →
    found'.sortOf? x = some s → declared.sortOf? x = some known → known = s
  /-- Each name is entered once. -/
  once : found.names.Nodup → found'.names.Nodup
  /-- What is new are variables of the expression. -/
  names : ∀ x ∈ found'.names, x ∈ found.names ∨ x ∈ e.variableNames

/-- The passes over some expressions, one after the other. -/
structure FindingAll (declared : SortTable) (es : List Expr) (expected : SmtSort)
    (found found' : SortTable) : Prop where
  /-- Nothing found before is lost. -/
  keeps : found.Within found'
  /-- The expressions are well-sorted in what has been found. -/
  sorted : ∀ e ∈ es, e.HasSort found' expected
  /-- What is new fits the sorts declared before. -/
  fits : ∀ (x : String) (s known : SmtSort), found.sortOf? x = none →
    found'.sortOf? x = some s → declared.sortOf? x = some known → known = s
  /-- Each name is entered once. -/
  once : found.names.Nodup → found'.names.Nodup
  /-- What is new are variables of the expressions. -/
  names : ∀ x ∈ found'.names, x ∈ found.names ∨ ∃ e ∈ es, x ∈ e.variableNames

theorem FindingAll.nil (declared : SortTable) (expected : SmtSort) (found : SortTable) :
    FindingAll declared [] expected found found where
  keeps := .refl _
  sorted := fun _ h => nomatch h
  fits _ _ _ none some := by rw [none] at some; cases some
  once := id
  names _ := .inl

/-- One pass after another. A name that is new after both is new after one of
them, and that one has checked it. -/
theorem Finding.cons {declared found middle found' : SortTable} {e : Expr} {es : List Expr}
    {expected : SmtSort} (first : Finding declared e expected found middle)
    (rest : FindingAll declared es expected middle found') :
    FindingAll declared (e :: es) expected found found' where
  keeps := first.keeps.trans rest.keeps
  sorted c hc := by
    rcases List.mem_cons.1 hc with rfl | hc
    · exact first.sorted.mono rest.keeps
    · exact rest.sorted c hc
  fits x s known none some h := by
    cases hm : middle.sortOf? x with
    | none => exact rest.fits x s known hm some h
    | some t =>
      rw [rest.keeps x t hm] at some
      cases some
      exact first.fits x _ known none hm h
  once := rest.once ∘ first.once
  names x h := by
    rcases rest.names x h with h | ⟨c, hc, h⟩
    · exact (first.names x h).imp_right fun h => ⟨e, List.mem_cons_self, h⟩
    · exact .inr ⟨c, List.mem_cons_of_mem _ hc, h⟩

/-- The passes over the children of an operator node make the pass over the
node. -/
theorem FindingAll.toFinding {declared found found' : SortTable} {l : Label} {cs : List Expr}
    {operand result : SmtSort} (takes : l.op.operandSort? = some operand)
    (gives : l.op.resultSort? = some result)
    (all : FindingAll declared cs operand found found') :
    Finding declared (node l cs) result found found' where
  keeps := all.keeps
  sorted := .app takes gives all.sorted
  fits := all.fits
  once := all.once
  names x h := (all.names x h).imp_right fun h => mem_variableNames_node.2 (.inr h)

theorem Finding.var {declared found : SortTable} {l : Label} {cs : List Expr}
    {expected : SmtSort} (leaf : l.op = .identity)
    (passes : checkUse l.name expected
      [(.declared, l.sort), (.session, declared.sortOf? l.name), (.use, found.sortOf? l.name)] =
        .ok ()) :
    Finding declared (node l cs) expected found (found.enter l.name expected) := by
  simp only [checkUse_eq_ok_iff, List.forall_mem_cons] at passes
  obtain ⟨own, session, use, -⟩ := passes
  refine ⟨SortTable.within_enter _ _ _, .var leaf ?_ own, ?_, ?_, ?_⟩
  · rw [SortTable.sortOf?_enter, if_pos rfl]
    cases h : found.sortOf? l.name with
    | none => rfl
    | some s => rw [use s h]; rfl
  · intro x s known none some h
    rw [SortTable.sortOf?_enter, none, Option.none_or] at some
    split at some
    · next same =>
      cases some
      exact session known (same ▸ h)
    · cases some
  · exact fun once => SortTable.nodup_enter once _ _
  · intro x h
    exact (SortTable.mem_names_enter.1 h).imp_right fun h =>
      mem_variableNames_node.2 (.inl ⟨leaf, h⟩)

/-- **What one pass over an expression finds.** -/
theorem infer_spec {declared found found' : SortTable} {e : Expr} {expected : SmtSort}
    (h : infer declared e expected found = .ok found') :
    Finding declared e expected found found' := by
  induction e using Expr.induct generalizing expected found found' with
  | node l cs ih =>
    have inOrder : ∀ {expected found found'}, inferAll declared cs expected found = .ok found' →
        FindingAll declared cs expected found found' := by
      clear h
      induction cs with
      | nil =>
        intro expected found found' h
        cases h
        exact .nil declared expected found
      | cons c cs rest =>
        intro expected found found' h
        rw [inferAll] at h
        obtain ⟨middle, first, h⟩ := Outcome.bind_eq_ok_iff.1 h
        exact (ih c List.mem_cons_self first).cons
          (rest (fun d hd => ih d (List.mem_cons_of_mem _ hd)) h)
    rcases l.op.sorted_cases with leaf | leaf | choice | ⟨operand, result, takes, gives⟩
    · rw [infer_identity leaf] at h
      obtain ⟨⟨⟩, passes, made⟩ := Outcome.bind_eq_ok_iff.1 h
      cases made
      exact .var leaf passes
    · obtain ⟨own, rfl⟩ := (infer_const leaf).1 h
      refine ⟨.refl _, .const leaf own, fun _ _ _ none some => ?_, id, fun _ => .inl⟩
      rw [none] at some
      cases some
    · -- a choice asks different sorts of its operands, so it is no row of one sort
      match cs with
      | [condition, thenBranch, elseBranch] =>
        rw [infer_ite choice] at h
        obtain ⟨f₁, h₁, h⟩ := Outcome.bind_eq_ok_iff.1 h
        obtain ⟨f₂, h₂, h₃⟩ := Outcome.bind_eq_ok_iff.1 h
        have test := ih condition (by simp) h₁
        -- the branches are a row of two, the condition is a row of its own before them
        have branches := (ih thenBranch (by simp) h₂).cons
          ((ih elseBranch (by simp) h₃).cons (.nil declared expected found'))
        refine ⟨test.keeps.trans branches.keeps, .ite choice (test.sorted.mono branches.keeps)
          (branches.sorted _ (by simp)) (branches.sorted _ (by simp)), ?_,
          branches.once ∘ test.once, ?_⟩
        · intro x s known none some h
          cases hm : f₁.sortOf? x with
          | none => exact branches.fits x s known hm some h
          | some t =>
            rw [branches.keeps x t hm] at some
            cases some
            exact test.fits x _ known none hm h
        · intro x h
          rw [mem_variableNames_node]
          rcases branches.names x h with h | ⟨c, hc, h⟩
          · exact (test.names x h).imp_right fun h => .inr ⟨condition, by simp, h⟩
          · exact .inr (.inr ⟨c, List.mem_cons_of_mem _ hc, h⟩)
      | [] | [_] | [_, _] | _ :: _ :: _ :: _ :: _ => simp [infer, choice] at h
    · obtain ⟨rfl, passes⟩ := (infer_app takes gives).1 h
      exact (inOrder passes).toFinding takes gives

/-- **The sorts of an asserted expression** make it a truth value, each name has
one, and they fit what has been declared before. -/
theorem inferSorts_spec {declared found : SortTable} {e : Expr}
    (h : inferSorts declared e = .ok found) : Finding declared e .bool [] found :=
  infer_spec h

/-! ## Declarations -/

/-- What declaring the new variables of an asserted expression does. -/
structure Declaring (declared : SortTable) (e : Expr) (new : SortTable) : Prop where
  /-- The expression is a truth value under all declarations. -/
  sorted : e.HasSort (declared ++ new) .bool
  /-- Each new name is declared once. -/
  once : new.names.Nodup
  /-- No new name has been declared before. -/
  fresh : ∀ x ∈ new.names, x ∉ declared.names
  /-- New names can be written. -/
  writable : ∀ x ∈ new.names, isWritable x = true
  /-- New names are those of variables of the expression. -/
  names : ∀ x ∈ new.names, x ∈ e.variableNames

theorem checkWritable_eq_ok_iff {names : List String} :
    checkWritable names = .ok () ↔ ∀ x ∈ names, isWritable x = true := by
  unfold checkWritable
  rw [Outcome.forM_eq_ok_iff]
  refine forall₂_congr fun x _ => ?_
  cases isWritable x <;> simp

/-- The values of names that can be written can be asked for. -/
theorem getValueOf_of_writable {names : List String}
    (writable : ∀ x ∈ names, isWritable x = true) :
    getValueOf names = .ok (.getValue names) := by
  rw [getValueOf, checkWritable_eq_ok_iff.2 writable]
  rfl

/-- **New declarations** suffice for the expression and repeat nothing. -/
theorem newDeclarations_spec {declared new : SortTable} {e : Expr}
    (h : newDeclarations declared e = .ok new) : Declaring declared e new := by
  unfold newDeclarations at h
  obtain ⟨found, hf, h⟩ := Outcome.bind_eq_ok_iff.1 h
  obtain ⟨⟨⟩, hw, made⟩ := Outcome.bind_eq_ok_iff.1 h
  cases made
  have finding := inferSorts_spec hf
  refine ⟨finding.sorted.mono fun x s hx => ?_, SortTable.nodup_newIn (finding.once ?_) _,
    fun x hx => SortTable.not_mem_of_mem_newIn hx, checkWritable_eq_ok_iff.1 hw, ?_⟩
  · rw [SortTable.sortOf?_append]
    cases hd : declared.sortOf? x with
    | none => rw [SortTable.sortOf?_newIn _ _ hd, hx]; rfl
    | some known => rw [finding.fits x s known rfl hx hd]; rfl
  · exact List.nodup_nil
  · intro x hx
    rw [SortTable.names_newIn, List.mem_filter] at hx
    exact (finding.names x hx.1).resolve_left fun h => nomatch h

/-- Each constant is declared once, now as before. -/
theorem Declaring.nodup {declared new : SortTable} {e : Expr} (h : Declaring declared e new)
    (once : declared.names.Nodup) : (declared ++ new).names.Nodup := by
  rw [SortTable.names_append, List.nodup_append]
  exact ⟨once, h.once, fun x hx y hy same => h.fresh y hy (same ▸ hx)⟩

/-- An assertion is written when its term is and its new constants can be
declared. -/
theorem assertion_eq_ok_iff {declared declared' : SortTable} {e : Expr}
    {commands : List Command} :
    assertion declared e = .ok (commands, declared') ↔
      ∃ t new, Term.ofExpr e = .ok t ∧ newDeclarations declared e = .ok new ∧
        commands = declareAll new ++ [.assert t] ∧ declared' = declared ++ new := by
  unfold assertion
  rw [Outcome.bind_eq_ok_iff]
  refine exists_congr fun t => ?_
  rw [Outcome.bind_eq_ok_iff]
  simp only [pure, Except.pure, Except.ok.injEq, Prod.mk.injEq]
  constructor
  · rintro ⟨written, new, made, rfl, rfl⟩
    exact ⟨new, written, made, rfl, rfl⟩
  · rintro ⟨new, written, made, rfl, rfl⟩
    exact ⟨written, new, made, rfl, rfl⟩

end Smt

end SmtDialogue
