import SmtDialogue.Proofs.Grouping
import SmtDialogue.Proofs.Information
import SmtDialogue.Proofs.KnownSorts

/-!
# Pairwise difference

The conjunction that stands for pairwise difference has an inequality for every two
positions of the list (`forall_mem_pairs`). Each inequality is unknown until both of
its sides have values, and the conjunction is decided early by one that fails: so the
whole is false as soon as two positions have one value, true when all values are known
and no two are the same, and unknown in between (`valueUnder_distinct`).

An inequality of terms that are integers by some table is never refused, since a sort
that is known of a term is the one that the table gives it. So there is a conjunction
for any two or more such terms, of any shape.
-/

namespace SmtDialogue

namespace Value

/-- A conjunction is false when an operand is. -/
theorem conj_eq_false_iff {vs : List (Option Value)} :
    conj vs = some (bool false) ↔ some (bool false) ∈ vs := by
  unfold conj
  simp only [List.any_eq_true, beq_iff_eq, exists_eq_right]
  split
  · next fails => simp [fails]
  · next none =>
    simp only [none, iff_false]
    split <;> simp

/-- A conjunction is true when all operands are. -/
theorem conj_eq_true_iff {vs : List (Option Value)} :
    conj vs = some (bool true) ↔ ∀ v ∈ vs, v = some (bool true) := by
  unfold conj
  simp only [List.any_eq_true, List.all_eq_true, beq_iff_eq, exists_eq_right]
  split
  · next fails => simpa using ⟨_, fails, by simp⟩
  · split
    · next all => simpa using all
    · next other => simpa using other

end Value

namespace Expr

/-! ## Two positions -/

/-- **The pairs of a list are at all two of its positions**, as far as a symmetric
relation can tell. -/
theorem forall_mem_pairs {R : Expr → Expr → Prop} (symm : ∀ {a b}, R a b → R b a)
    (es : List Expr) :
    (∀ p ∈ pairs es, R p.1 p.2) ↔ ∀ i j : Fin es.length, i ≠ j → R es[i] es[j] := by
  have later : (∀ p ∈ pairs es, R p.1 p.2) ↔ es.Pairwise R := by
    induction es with
    | nil => simp [pairs]
    | cons e es ih =>
      rw [pairs, List.forall_mem_append, List.forall_mem_map, ih, List.pairwise_cons]
  rw [later, List.pairwise_iff_getElem]
  constructor
  · intro h i j other
    rcases Nat.lt_or_gt_of_ne (Fin.val_ne_of_ne other) with before | after
    · exact h i j i.isLt j.isLt before
    · exact symm (h j i j.isLt i.isLt after)
  · intro h i j hi hj before
    exact h ⟨i, hi⟩ ⟨j, hj⟩ (Fin.ne_of_val_ne (Nat.ne_of_lt before))

/-- Some pair is at two positions. -/
theorem exists_mem_pairs {R : Expr → Expr → Prop} (symm : ∀ {a b}, R a b → R b a)
    (es : List Expr) :
    (∃ p ∈ pairs es, R p.1 p.2) ↔ ∃ i j : Fin es.length, i ≠ j ∧ R es[i] es[j] := by
  have none := forall_mem_pairs (R := fun a b => ¬ R a b) (fun h other => h (symm other)) es
  simpa only [not_forall, not_not, exists_prop] using not_congr none

theorem mem_of_mem_pairs {p : Expr × Expr} {es : List Expr} (h : p ∈ pairs es) :
    p.1 ∈ es ∧ p.2 ∈ es := by
  induction es with
  | nil => cases h
  | cons e es ih =>
    rcases List.mem_append.1 h with h | h
    · obtain ⟨d, hd, rfl⟩ := List.mem_map.1 h
      exact ⟨List.mem_cons_self, List.mem_cons_of_mem _ hd⟩
    · exact (ih h).imp (List.mem_cons_of_mem _) (List.mem_cons_of_mem _)

/-! ## Inequalities -/

/-- The inequality of two terms. -/
def inequality (a b : Expr) : Expr :=
  node ⟨.ne, derivedName .ne [a, b], none, none, none⟩ [a, b]

/-- **A term of integers**: it is made by the constructors and is an integer by some
table. -/
def IsInteger (e : Expr) (table : SortTable) : Prop :=
  e.Built ∧ e.HasSort table .int

/-- An inequality of integers is accepted. -/
theorem combine_ne {a b : Expr} {t u : SortTable} (ha : a.IsInteger t) (hb : b.IsInteger u) :
    combine .ne [.expr a, .expr b] = .ok (inequality a b) := by
  have passes {e : Expr} {t : SortTable} (h : e.IsInteger t) : checkSort .ne .int e = .ok () :=
    checkSort_eq_ok_iff.2 fun _ known => h.2.eq_of_resultSort h.1 known
  refine (combine_map_expr rfl [a, b]).trans (combineExprs_of_passes rfl rfl ?_ ?_)
  · exact List.forall_mem_cons.2 ⟨passes ha, List.forall_mem_singleton.2 (passes hb)⟩
  · exact flatten_of_not_isFlattening rfl [a, b]

section Values

variable {ρ : String → Option Value}

/-- Two terms that have one known value. -/
def Coincide (ρ : String → Option Value) (a b : Expr) : Prop :=
  ∃ v, a.valueUnder ρ = .ok (some v) ∧ b.valueUnder ρ = .ok (some v)

/-- Two terms that have known values which are different. -/
def Separate (ρ : String → Option Value) (a b : Expr) : Prop :=
  ∃ v w, v ≠ w ∧ a.valueUnder ρ = .ok (some v) ∧ b.valueUnder ρ = .ok (some w)

theorem Coincide.symm {a b : Expr} : Coincide ρ a b → Coincide ρ b a := fun ⟨v, ha, hb⟩ =>
  ⟨v, hb, ha⟩

theorem Separate.symm {a b : Expr} : Separate ρ a b → Separate ρ b a := fun ⟨v, w, other, ha, hb⟩ =>
  ⟨w, v, other.symm, hb, ha⟩

/-- **An inequality of integers is decided when both of its sides are known.** -/
theorem exists_valueUnder_inequality {a b : Expr} {t u : SortTable} (ha : a.IsInteger t)
    (fits : t.FitsPartly ρ) (hb : b.IsInteger u) (fits' : u.FitsPartly ρ) :
    ∃ c, (inequality a b).valueUnder ρ = .ok c ∧
      (c = some (.bool false) ↔ Coincide ρ a b) ∧ (c = some (.bool true) ↔ Separate ρ a b) := by
  obtain ⟨x, hx⟩ := ha.1.exists_valueUnder ρ
  obtain ⟨y, hy⟩ := hb.1.exists_valueUnder ρ
  have applied : (inequality a b).valueUnder ρ = Value.apply .ne [x, y] := by
    rw [inequality, valueUnder_inner ρ _ rfl, List.mapM_cons, hx, List.mapM_cons, hy]
    rfl
  rw [applied]
  unfold Coincide Separate
  simp only [hx, hy, Except.ok.injEq]
  cases x with
  | none => exact ⟨none, rfl, by simp, by simp⟩
  | some x =>
    cases y with
    | none => exact ⟨none, rfl, by simp, by simp⟩
    | some y =>
      have sorts : x.sort = y.sort :=
        (ha.2.sort_of_valueUnder fits ha.1 hx).trans (hb.2.sort_of_valueUnder fits' hb.1 hy).symm
      have same : x.sameNumber y = true ↔ x = y :=
        ⟨Value.eq_of_sameNumber sorts, fun h => h ▸ beq_self_eq_true _⟩
      refine ⟨some (.bool (!x.sameNumber y)), rfl, ?_, ?_⟩
      · simpa using same.trans eq_comm
      · simpa using not_congr same

end Values

/-! ## The conjunction -/

section Conjunction

variable {es : List Expr}

/-- Of two or more terms there is a pair. -/
theorem pairs_ne_nil (many : 2 ≤ es.length) : pairs es ≠ [] := by
  match es, many with
  | a :: b :: es, _ => exact List.cons_ne_nil _ _

/-- **Two or more integers are accepted**; the result is the conjunction of the
inequalities of all pairs. -/
theorem distinct_eq_ok {operands : List Operand} (collected : collectAll operands = .ok es)
    (many : 2 ≤ es.length) (integers : ∀ e ∈ es, ∃ table, e.IsInteger table) :
    let parts := (pairs es).map fun p => inequality p.1 p.2
    distinct operands = .ok (node ⟨.and, derivedName .and parts, none, none, none⟩ parts) := by
  intro parts
  have each : (pairs es).mapM (fun p => combine .ne [.expr p.1, .expr p.2]) = .ok parts := by
    rw [Outcome.mapM_eq_ok_iff, List.forall₂_map_right_iff, List.forall₂_same]
    intro p hp
    obtain ⟨t, first⟩ := integers _ (mem_of_mem_pairs hp).1
    obtain ⟨u, second⟩ := integers _ (mem_of_mem_pairs hp).2
    exact combine_ne first second
  have whole : combineExprs .and parts =
      .ok (node ⟨.and, derivedName .and parts, none, none, none⟩ parts) := by
    have inequalities : ∀ e ∈ parts, e.op = .ne := fun e he => by
      obtain ⟨p, -, rfl⟩ := List.mem_map.1 he
      rfl
    refine combineExprs_of_passes rfl ?_ (fun e he => checkSort_eq_ok_iff.2 fun sort known => ?_)
      (flatten_of_apart fun e he => by rw [inequalities e he]; nofun)
    · rw [accepts_iff_of_isFlattening rfl, List.length_map]
      exact List.length_pos_iff.2 (pairs_ne_nil many)
    · rw [resultSort, inequalities e he] at known
      exact (Option.some.inj known).symm
  simp only [distinct, collected, Outcome.bind_ok, if_neg (Nat.not_lt.2 many)]
  show ((pairs es).mapM (fun p => combine .ne [.expr p.1, .expr p.2]) >>= _) = _
  rw [each, Outcome.bind_ok, combineAll_map_expr rfl, whole]

/-- The conjunction is false when two terms of a pair coincide, and true when those of
every pair are separate. -/
theorem exists_valueUnder_conjunction {ρ : String → Option Value} {l : Label} (conj : l.op = .and)
    (fit : ∀ e ∈ es, ∃ table, e.IsInteger table ∧ table.FitsPartly ρ) :
    ∃ value, (node l ((pairs es).map fun p => inequality p.1 p.2)).valueUnder ρ = .ok value ∧
      (value = some (.bool false) ↔ ∃ p ∈ pairs es, Coincide ρ p.1 p.2) ∧
      (value = some (.bool true) ↔ ∀ p ∈ pairs es, Separate ρ p.1 p.2) ∧
      (value = none ∨ value = some (.bool false) ∨ value = some (.bool true)) := by
  have each : ∀ p ∈ pairs es, ∃ c, (inequality p.1 p.2).valueUnder ρ = .ok c ∧
      (c = some (.bool false) ↔ Coincide ρ p.1 p.2) ∧
      (c = some (.bool true) ↔ Separate ρ p.1 p.2) := fun p hp => by
    obtain ⟨t, first, fits⟩ := fit _ (mem_of_mem_pairs hp).1
    obtain ⟨u, second, fits'⟩ := fit _ (mem_of_mem_pairs hp).2
    exact exists_valueUnder_inequality first fits second fits'
  obtain ⟨cs, row⟩ := Outcome.exists_row each
  refine ⟨Value.conj cs, ?_, Value.conj_eq_false_iff.trans ⟨fun h => ?_, ?_⟩,
    Value.conj_eq_true_iff.trans ⟨fun all p hp => ?_, fun all c hc => ?_⟩, ?_⟩
  · have values : ((pairs es).map fun p => inequality p.1 p.2).mapM (valueUnder ρ) = .ok cs := by
      rw [Outcome.mapM_eq_ok_iff, List.forall₂_map_left_iff]
      exact row.imp fun _ _ h => h.1
    rw [valueUnder_inner ρ _ (by rw [conj]; rfl), values, conj]
    rfl
  · obtain ⟨p, hp, -, same, -⟩ := Outcome.exists_of_mem_right row h
    exact ⟨p, hp, same.1 rfl⟩
  · rintro ⟨p, hp, same⟩
    obtain ⟨c, hc, -, fails, -⟩ := Outcome.exists_of_mem_right row.flip hp
    exact fails.2 same ▸ hc
  · obtain ⟨c, hc, -, -, holds⟩ := Outcome.exists_of_mem_right row.flip hp
    exact holds.1 (all c hc)
  · obtain ⟨p, hp, -, -, holds⟩ := Outcome.exists_of_mem_right row hc
    exact holds.2 (all p hp)
  · cases value : Value.conj cs with
    | none => exact .inl rfl
    | some v => rcases Value.eq_or_eq_of_decideBy value with rfl | rfl <;> simp

/-- Two or more terms are separate at all positions when each is known and no two are the
same. -/
theorem separate_iff {ρ : String → Option Value} (many : 2 ≤ es.length) :
    (∀ i j : Fin es.length, i ≠ j → Separate ρ es[i] es[j]) ↔
      (∀ e ∈ es, ∃ v, e.valueUnder ρ = .ok (some v)) ∧
        ∀ i j : Fin es.length, i ≠ j → es[i].valueUnder ρ ≠ es[j].valueUnder ρ := by
  constructor
  · intro separate
    refine ⟨fun e he => ?_, fun i j other same => ?_⟩
    · obtain ⟨i, hi, rfl⟩ := List.getElem_of_mem he
      -- there is another position, since there are two
      obtain ⟨j, other⟩ : ∃ j : Fin es.length, ⟨i, hi⟩ ≠ j := by
        by_cases first : i = 0
        · exact ⟨⟨1, many⟩, Fin.ne_of_val_ne (by simp [first])⟩
        · exact ⟨⟨0, Nat.lt_of_lt_of_le Nat.zero_lt_two many⟩, Fin.ne_of_val_ne first⟩
      obtain ⟨v, -, -, known, -⟩ := separate _ j other
      exact ⟨v, known⟩
    · obtain ⟨v, w, different, hv, hw⟩ := separate i j other
      rw [hv, hw] at same
      cases same
      exact different rfl
  · rintro ⟨known, different⟩ i j other
    obtain ⟨v, hv⟩ := known es[i] (List.getElem_mem i.isLt)
    obtain ⟨w, hw⟩ := known es[j] (List.getElem_mem j.isLt)
    refine ⟨v, w, fun same => different i j other ?_, hv, hw⟩
    rw [hv, hw, same]

end Conjunction

/-- **Pairwise difference, with three values.** Fewer than two terms are refused. Two or
more terms of a collection nested to any depth that are integers, each by some table, are
accepted. Under values for some of their variables, of the sorts of the tables, the
result is false exactly when the terms at two positions have one known value, true
exactly when all terms have known values, different ones at different positions, and
unknown otherwise. -/
theorem valueUnder_distinct {operands : List Operand} {es : List Expr}
    (collected : collectAll operands = .ok es) :
    (es.length < 2 → ∃ cause, distinct operands = .error cause ∧ cause.kind = .arityMismatch) ∧
    (2 ≤ es.length → (∀ e ∈ es, ∃ table, e.IsInteger table) → ∃ d, distinct operands = .ok d ∧
      ∀ ρ : String → Option Value,
        (∀ e ∈ es, ∃ table, e.IsInteger table ∧ table.FitsPartly ρ) →
        ∃ value, d.valueUnder ρ = .ok value ∧
          (value = some (.bool false) ↔ ∃ i j : Fin es.length, i ≠ j ∧
            ∃ v, es[i].valueUnder ρ = .ok (some v) ∧ es[j].valueUnder ρ = .ok (some v)) ∧
          (value = some (.bool true) ↔ (∀ e ∈ es, ∃ v, e.valueUnder ρ = .ok (some v)) ∧
            ∀ i j : Fin es.length, i ≠ j → es[i].valueUnder ρ ≠ es[j].valueUnder ρ) ∧
          (value = none ∨ value = some (.bool false) ∨ value = some (.bool true))) := by
  refine ⟨fun few => ?_, fun many integers => ⟨_, distinct_eq_ok collected many integers, ?_⟩⟩
  · refine ⟨.tooFewDistinct es.length, ?_, rfl⟩
    simp only [distinct, collected, Outcome.bind_ok, if_pos few]
    rfl
  · intro ρ fit
    obtain ⟨value, evaluated, fails, holds, cases⟩ :=
      exists_valueUnder_conjunction (l := ⟨.and, _, none, none, none⟩) rfl fit
    refine ⟨value, evaluated, fails.trans (exists_mem_pairs (R := Coincide ρ) Coincide.symm es), ?_, cases⟩
    rw [holds, forall_mem_pairs (R := Separate ρ) Separate.symm es, separate_iff many]

/-- Two variables and a literal, nested: the second variable is not needed when the first
has the value of the literal, and decides when it has not. -/
theorem valueUnder_distinct_early :
    ∃ d, distinct [.list [.expr (var "p" (some .int)), .int 3], .expr (var "q" none)] = .ok d ∧
      d.valueUnder (fun x => if x = "p" then some (.int 3) else none) =
        .ok (some (.bool false)) ∧
      d.valueUnder (fun x => some (.int (if x = "p" then 1 else 2))) = .ok (some (.bool true)) ∧
      d.valueUnder (fun x => if x = "p" then some (.int 1) else none) = .ok none := by
  let table : SortTable := [("p", .int), ("q", .int)]
  let es : List Expr := [var "p" (some .int), constant (.int 3), var "q" none]
  have integers : ∀ e ∈ es, e.IsInteger table := by
    refine List.forall_mem_cons.2 ⟨⟨.var .., .var rfl rfl ?_⟩, List.forall_mem_cons.2
      ⟨⟨.const (.int 3) none, .const rfl rfl⟩, List.forall_mem_singleton.2
        ⟨.var .., .var rfl rfl nofun⟩⟩⟩
    exact fun _ own => (Option.some.inj own).symm
  have fit (ρ : String → Option Value) (ints : ∀ x v, ρ x = some v → v.sort = .int) :
      ∀ e ∈ es, ∃ table, e.IsInteger table ∧ table.FitsPartly ρ := by
    refine fun e he => ⟨table, integers e he, fun x sort found v known => ?_⟩
    have entry := SortTable.mem_of_sortOf? found
    simp only [table, List.mem_cons, List.not_mem_nil, or_false, Prod.mk.injEq] at entry
    rcases entry with ⟨-, rfl⟩ | ⟨-, rfl⟩ <;> exact ints x v known
  have collected : collectAll [.list [.expr (var "p" (some .int)), .int 3],
      .expr (var "q" none)] = .ok es := rfl
  obtain ⟨d, made, law⟩ :=
    (valueUnder_distinct collected).2 (by decide) fun e he => ⟨table, integers e he⟩
  have ints {n : Int} (x : String) (v : Value)
      (known : (if x = "p" then some (Value.int n) else none) = some v) : v.sort = .int := by
    split at known <;> cases known
    rfl
  refine ⟨d, made, ?_, ?_, ?_⟩
  · obtain ⟨value, evaluated, fails, -, -⟩ :=
      law (fun x => if x = "p" then some (.int 3) else none) (fit _ ints)
    rw [evaluated, fails.2 ⟨⟨0, by decide⟩, ⟨1, by decide⟩, by decide, .int 3, rfl, rfl⟩]
  · let ρ : String → Option Value := fun x => some (.int (if x = "p" then 1 else 2))
    obtain ⟨value, evaluated, -, holds, -⟩ := law ρ (fit ρ fun _ _ known => by cases known; rfl)
    have values : ∀ i : Fin 3, es[i].valueUnder ρ = .ok (some (.int [1, 3, 2][i])) :=
      Fin.cases rfl (Fin.cases rfl (Fin.cases rfl fun i => i.elim0))
    have apart : ∀ i j : Fin 3, i ≠ j → ([1, 3, 2] : List Int)[i] ≠ [1, 3, 2][j] := by decide
    rw [evaluated, holds.2 ⟨fun e he => ?_, fun i j other same => ?_⟩]
    · obtain ⟨i, hi, rfl⟩ := List.getElem_of_mem he
      exact ⟨_, values ⟨i, hi⟩⟩
    · have same := (values i).symm.trans (same.trans (values j))
      exact apart i j other (by simpa using same)
  · let ρ : String → Option Value := fun x => if x = "p" then some (.int 1) else none
    obtain ⟨value, evaluated, fails, holds, rfl | rfl | rfl⟩ := law ρ (fit ρ ints)
    · exact evaluated
    · obtain ⟨i, j, other, v, hi, hj⟩ := fails.1 rfl
      let known : List (Option Value) := [some (.int 1), some (.int 3), none]
      have values : ∀ i : Fin 3, es[i].valueUnder ρ = .ok known[i] :=
        Fin.cases rfl (Fin.cases rfl (Fin.cases rfl fun i => i.elim0))
      have apart : ∀ i j : Fin 3, i ≠ j → known[i] = known[j] → known[i] = none := by decide
      have first := Except.ok.inj ((values i).symm.trans hi)
      have second := Except.ok.inj ((values j).symm.trans hj)
      cases first.symm.trans (apart i j other (first.trans second.symm))
    · obtain ⟨v, known⟩ := (holds.1 rfl).1 (var "q" none) (by simp [es])
      cases known

end Expr

end SmtDialogue
