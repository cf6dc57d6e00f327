import Mathlib.Data.List.FinRange
import Mathlib.Data.List.OfFn
import SmtDialogue.Proofs.Built

/-!
# Elementwise application

What an elementwise application makes of its operands, for any function that is
applied. The operands become columns of expressions, a single operand one of length
one, and the number of places is the longest length of a column. Three facts about the
columns are all that is needed: which number is the longest (`longest_le_iff`), when
the lengths are accepted (`broadcast_of_lengths`, `broadcast_of_length_ne`), and what
stands at a place (`argumentsAt_eq`).

A single operand makes the longest length at least one. Against collections without
members it is therefore longer than they are: the lengths are refused, although no
place is left at which the function would have to be applied. Without a single operand
collections without members give no results.
-/

namespace SmtDialogue

namespace Operand

/-- Whether the operand is one expression or one literal, and no collection. -/
def isSingle : Operand → Bool
  | expr _ | bool _ | int _ => true
  | real _ | absent | text _ | list _ | tuple _ | record _ => false

/-- **What an operand gives to each of `n` places**: one expression is repeated, a
literal as its constant, and a collection of `n` gives its members from left to
right. -/
inductive Supplies (n : Nat) : Operand → (Fin n → Expr) → Prop
  | single {o : Operand} {e : Expr} (one : o.isSingle = true) (lifted : Expr.lift o = .ok e) :
    Supplies n o fun _ => e
  | collection {o : Operand} {f : Fin n → Expr} (many : o.isSingle = false)
    (members : Expr.collect o = .ok (List.ofFn f)) : Supplies n o f

end Operand

namespace Expr

/-- A single operand is a collection of one. -/
theorem collect_of_isSingle {o : Operand} {e : Expr} (one : o.isSingle = true)
    (lifted : lift o = .ok e) : collect o = .ok [e] := by
  cases o with
  | expr c =>
    cases lifted
    rfl
  | bool b | int n => exact Outcome.bind_eq_ok_iff.2 ⟨e, lifted, rfl⟩
  | _ => cases one

/-! ## Lengths -/

/-- The longest length is the least number that no length exceeds. -/
theorem longest_le_iff {columns : List (List Expr)} {n : Nat} :
    longest columns ≤ n ↔ ∀ column ∈ columns, column.length ≤ n := by
  have fold (lengths : List Nat) (k : Nat) :
      lengths.foldl max k ≤ n ↔ k ≤ n ∧ ∀ l ∈ lengths, l ≤ n := by
    induction lengths generalizing k with
    | nil => simp
    | cons l lengths ih => rw [List.foldl_cons, ih, Nat.max_le, List.forall_mem_cons, and_assoc]
  rw [longest, fold, List.forall_mem_map]
  exact and_iff_right (Nat.zero_le n)

/-- No column is longer than the longest. -/
theorem length_le_longest {columns : List (List Expr)} {column : List Expr}
    (hc : column ∈ columns) : column.length ≤ longest columns :=
  longest_le_iff.1 le_rfl column hc

/-- A length that is reached and not exceeded is the longest. -/
theorem longest_eq {columns : List (List Expr)} {n : Nat}
    (most : ∀ column ∈ columns, column.length ≤ n) {column : List Expr} (hc : column ∈ columns)
    (reached : column.length = n) : longest columns = n :=
  (longest_le_iff.2 most).antisymm (reached ▸ length_le_longest hc)

/-- The check of one column: its length is one or the longest. -/
def checkLength (n : Nat) (column : List Expr) : Except BuildError Unit :=
  if column.length == 1 || column.length == n then .ok ()
  else .error (.lengthsDiffer column.length n)

theorem checkLength_eq_ok_iff {n : Nat} {column : List Expr} :
    checkLength n column = .ok () ↔ column.length = 1 ∨ column.length = n := by
  unfold checkLength
  split
  · next fits => simpa using fits
  · next fails => simpa using fails

section Columns

variable {α : Type} (apply : List Operand → Except BuildError α) {operands : List Operand}
  {columns : List (List Expr)}

/-- The columns are checked, and then the function is applied at each place. -/
theorem broadcast_of_collect (collected : operands.mapM collect = .ok columns)
    (given : columns ≠ []) :
    broadcast apply operands = (columns.forM (checkLength (longest columns)) >>= fun _ =>
      (List.range (longest columns)).mapM fun i => apply (argumentsAt columns i)) := by
  simp only [broadcast, collected, Outcome.bind_ok, List.isEmpty_eq_false_iff.2 given]
  rfl

/-- **Lengths that are accepted**: each is one or the longest. -/
theorem broadcast_of_lengths (collected : operands.mapM collect = .ok columns)
    (given : columns ≠ [])
    (fit : ∀ column ∈ columns, column.length = 1 ∨ column.length = longest columns) :
    broadcast apply operands =
      (List.range (longest columns)).mapM fun i => apply (argumentsAt columns i) := by
  rw [broadcast_of_collect apply collected given,
    Outcome.forM_eq_ok_iff.2 fun column hc => checkLength_eq_ok_iff.2 (fit column hc)]
  rfl

/-- **Lengths that are refused**: at least one is neither one nor the longest. -/
theorem broadcast_of_length_ne (collected : operands.mapM collect = .ok columns)
    {column : List Expr} (hc : column ∈ columns) (notOne : column.length ≠ 1)
    (notLongest : column.length ≠ longest columns) :
    ∃ first ∈ columns, first.length ≠ 1 ∧
      broadcast apply operands = .error (.lengthsDiffer first.length (longest columns)) := by
  cases checked : columns.forM (checkLength (longest columns)) with
  | ok _ =>
    have fits := checkLength_eq_ok_iff.1 (Outcome.forM_eq_ok_iff.1 checked column hc)
    exact absurd fits (not_or.2 ⟨notOne, notLongest⟩)
  | error cause =>
    obtain ⟨first, hf, failed⟩ := Outcome.exists_of_forM_eq_error checked
    unfold checkLength at failed
    split at failed
    · cases failed
    · next fails =>
      cases failed
      refine ⟨first, hf, fun one => fails (by simp [one]), ?_⟩
      rw [broadcast_of_collect apply collected (List.ne_nil_of_mem hc), checked]
      rfl

end Columns

/-! ## What stands at a place -/

/-- A column that gives an expression to each of `n` places: it is repeated when it has
length one. -/
def IsColumn {n : Nat} (f : Fin n → Expr) (column : List Expr) : Prop :=
  (∃ e, column = [e] ∧ f = fun _ => e) ∨ column = List.ofFn f

/-- What an operand supplies is one of its columns. -/
theorem exists_column {n : Nat} {o : Operand} {f : Fin n → Expr} (h : o.Supplies n f) :
    ∃ column, collect o = .ok column ∧ IsColumn f column ∧
      column.length = if o.isSingle then 1 else n := by
  cases h with
  | @single e one lifted =>
    exact ⟨[e], collect_of_isSingle one lifted, .inl ⟨e, rfl, rfl⟩, by rw [one]; rfl⟩
  | collection many members =>
    exact ⟨List.ofFn f, members, .inr rfl, by rw [many, List.length_ofFn]; rfl⟩

/-- At a place each column has what it gives to it. -/
theorem argumentsAt_eq {n : Nat} {functions : List (Fin n → Expr)} {columns : List (List Expr)}
    (row : List.Forall₂ IsColumn functions columns) (i : Fin n) :
    argumentsAt columns i = functions.map fun f => .expr (f i) := by
  unfold argumentsAt
  induction row with
  | nil => rfl
  | @cons f column _ _ first _ ih =>
    have here : (if column.length == 1 then column.head? else column[i.val]?) = some (f i) := by
      rcases first with ⟨e, rfl, rfl⟩ | rfl
      · rfl
      · split
        · next one =>
          obtain rfl : n = 1 := by simpa using one
          rw [Subsingleton.elim i 0]
          rfl
        · rw [List.getElem?_ofFn, dif_pos i.isLt]
    rw [List.filterMap_cons, here, Option.map_some, ih, List.map_cons]

/-- A step at each of `n` places succeeds when it does at each, with the results in the
order of the places. -/
theorem mapM_range_eq_ok_iff {ε α : Type} {f : Nat → Except ε α} {n : Nat} {results : List α} :
    (List.range n).mapM f = .ok results ↔
      ∃ g : Fin n → α, results = List.ofFn g ∧ ∀ i : Fin n, f i = .ok (g i) := by
  rw [Outcome.mapM_eq_ok_iff, List.forall₂_iff_get]
  constructor
  · rintro ⟨length, each⟩
    obtain rfl : n = results.length := by simpa using length
    refine ⟨results.get, (List.ofFn_get results).symm, fun i => ?_⟩
    simpa using each i (by simp) i.isLt
  · rintro ⟨g, rfl, each⟩
    refine ⟨by simp, fun i _ here => ?_⟩
    simpa using each ⟨i, by simpa using here⟩

section Supplies

variable {α : Type} (apply : List Operand → Except BuildError α) {n : Nat} {operands : List Operand}
  {functions : List (Fin n → Expr)}

/-- What operands supply to places is in their columns, of which a single operand has one
of length one and a collection one of length `n`. -/
theorem exists_columns (row : List.Forall₂ (Operand.Supplies n) operands functions) :
    ∃ columns, operands.mapM collect = .ok columns ∧ List.Forall₂ IsColumn functions columns ∧
      List.Forall₂ (fun o column => column.length = if o.isSingle then 1 else n) operands
        columns := by
  simp only [Outcome.mapM_eq_ok_iff]
  induction row with
  | nil => exact ⟨[], .nil, .nil, .nil⟩
  | cons first _ ih =>
    obtain ⟨column, collected, here, length⟩ := exists_column first
    obtain ⟨columns, rest, there, lengths⟩ := ih
    exact ⟨column :: columns, .cons collected rest, .cons here there, .cons length lengths⟩

/-- **Elementwise application over places**: where some operand is a collection, and
none is single when the collections have no members, the function is applied at each
place to what the operands supply there. -/
theorem broadcast_eq_ok_iff (row : List.Forall₂ (Operand.Supplies n) operands functions)
    (many : ∃ o ∈ operands, o.isSingle = false)
    (places : n = 0 → ∀ o ∈ operands, o.isSingle = false) {results : List α} :
    broadcast apply operands = .ok results ↔ ∃ f : Fin n → α, results = List.ofFn f ∧
      ∀ i, apply (functions.map fun g => .expr (g i)) = .ok (f i) := by
  obtain ⟨columns, collected, supplied, lengths⟩ := exists_columns row
  obtain ⟨o, ho, collection⟩ := many
  obtain ⟨column, hc, length⟩ := Outcome.exists_of_mem_right lengths.flip ho
  rw [collection] at length
  have each : ∀ column ∈ columns, column.length = n ∨ column.length = 1 ∧ n ≠ 0 := by
    intro column hc
    obtain ⟨o, ho, length⟩ := Outcome.exists_of_mem_right lengths hc
    cases single : o.isSingle with
    | false => exact .inl (by simpa [single] using length)
    | true =>
      refine .inr ⟨by simpa [single] using length, fun none => ?_⟩
      rw [places none o ho] at single
      cases single
  have longest : longest columns = n := by
    refine longest_eq (fun column hc => ?_) hc length
    have := each column hc
    omega
  rw [broadcast_of_lengths apply collected (List.ne_nil_of_mem hc) fun column hc => by
    rw [longest]
    exact (each column hc).symm.imp_left And.left, longest, mapM_range_eq_ok_iff]
  simp only [argumentsAt_eq supplied]

/-- **A single operand is longer than collections without members**, and these are
refused against it. -/
theorem broadcast_single_of_empty {functions : List (Fin 0 → Expr)}
    (row : List.Forall₂ (Operand.Supplies 0) operands functions)
    (many : ∃ o ∈ operands, o.isSingle = false) (one : ∃ o ∈ operands, o.isSingle = true) :
    broadcast apply operands = .error (.lengthsDiffer 0 1) := by
  obtain ⟨columns, collected, -, lengths⟩ := exists_columns row
  have each : ∀ column ∈ columns, column.length = 1 ∨ column.length = 0 := by
    intro column hc
    obtain ⟨o, -, length⟩ := Outcome.exists_of_mem_right lengths hc
    rw [length]
    cases o.isSingle <;> simp
  obtain ⟨o, ho, single⟩ := one
  obtain ⟨column, hc, length⟩ := Outcome.exists_of_mem_right lengths.flip ho
  rw [single] at length
  have longest : longest columns = 1 :=
    longest_eq (fun column hc => by have := each column hc; omega) hc length
  obtain ⟨o, ho, collection⟩ := many
  obtain ⟨column, hc, length⟩ := Outcome.exists_of_mem_right lengths.flip ho
  rw [collection] at length
  have empty : column.length = 0 := length
  obtain ⟨first, hf, notOne, refused⟩ :=
    broadcast_of_length_ne apply collected hc (by omega) (by omega)
  rw [refused, longest, (each first hf).resolve_left notOne]

end Supplies

/-- **Collections of different lengths**, neither of them one, are refused. -/
theorem broadcast_of_lengths_ne {α : Type} (apply : List Operand → Except BuildError α)
    {operands : List Operand} (collects : ∀ o ∈ operands, ∃ es, collect o = .ok es)
    {first second : Operand} (hf : first ∈ operands) (hs : second ∈ operands)
    {as bs : List Expr} (ha : collect first = .ok as) (hb : collect second = .ok bs)
    (differ : as.length ≠ bs.length) (one : as.length ≠ 1) (one' : bs.length ≠ 1) :
    ∃ given longest, broadcast apply operands = .error (.lengthsDiffer given longest) := by
  obtain ⟨columns, row⟩ := Outcome.exists_row collects
  have collected := Outcome.mapM_eq_ok_iff.2 row
  have member {o : Operand} {es : List Expr} (ho : o ∈ operands) (h : collect o = .ok es) :
      es ∈ columns := by
    obtain ⟨column, hc, same⟩ := Outcome.exists_of_mem_right row.flip ho
    cases h.symm.trans same
    exact hc
  -- at most one of the two lengths is the longest
  by_cases longest : as.length = Expr.longest columns
  · obtain ⟨column, -, -, refused⟩ := broadcast_of_length_ne apply collected (member hs hb) one'
      (longest ▸ differ.symm)
    exact ⟨_, _, refused⟩
  · obtain ⟨column, -, -, refused⟩ := broadcast_of_length_ne apply collected (member hf ha) one
      longest
    exact ⟨_, _, refused⟩

/-- **The law of elementwise application**, for every function that is applied. Let each
operand be single or a collection of `n`, and some operand a collection. When `n` is not
zero, or no operand is single, there are results exactly when the function accepts what
the operands supply to every place, and they are what it makes of this, `n` in the order
of the places. When `n` is zero and some operand is single, the lengths are refused.
Collections of different lengths, neither of them one, are refused, whatever the other
operands are. -/
theorem broadcast_law {α : Type} (apply : List Operand → Except BuildError α) :
    (∀ (n : Nat) (operands : List Operand) (functions : List (Fin n → Expr)),
      List.Forall₂ (Operand.Supplies n) operands functions →
      (∃ o ∈ operands, o.isSingle = false) →
      ((n = 0 → ∀ o ∈ operands, o.isSingle = false) → ∀ results : List α,
        broadcast apply operands = .ok results ↔ ∃ f : Fin n → α, results = List.ofFn f ∧
          ∀ i, apply (functions.map fun g => .expr (g i)) = .ok (f i)) ∧
      (n = 0 → (∃ o ∈ operands, o.isSingle = true) →
        broadcast apply operands = .error (.lengthsDiffer 0 1))) ∧
    ∀ (operands : List Operand), (∀ o ∈ operands, ∃ es, collect o = .ok es) →
      ∀ first ∈ operands, ∀ second ∈ operands, ∀ as bs : List Expr,
        collect first = .ok as → collect second = .ok bs →
        as.length ≠ bs.length → as.length ≠ 1 → bs.length ≠ 1 →
        ∃ cause, broadcast apply operands = .error cause ∧ cause.kind = .arityMismatch := by
  refine ⟨fun n operands functions row many => ⟨fun places results => ?_, ?_⟩, ?_⟩
  · exact broadcast_eq_ok_iff apply row many places
  · rintro rfl one
    exact broadcast_single_of_empty apply row many one
  · intro operands collects first hf second hs as bs ha hb differ one one'
    obtain ⟨given, longest, refused⟩ :=
      broadcast_of_lengths_ne apply collects hf hs ha hb differ one one'
    exact ⟨_, refused, rfl⟩

/-- One against collections: it is repeated against two members, however these are
nested; against none it is refused, and so are two members against three. Without it
there are no results for no members. -/
theorem broadcast_law_le :
    broadcast Builder.le.build
        [.int 1, .list [.expr (var "p" none), .tuple [.expr (var "q" none)]]] =
      .ok [node ⟨.le, "le_1_p", none, none, none⟩ [constant (.int 1), var "p" none],
        node ⟨.le, "le_1_q", none, none, none⟩ [constant (.int 1), var "q" none]] ∧
    broadcast Builder.le.build [.int 1, .list []] = .error (.lengthsDiffer 0 1) ∧
    broadcast Builder.le.build [.tuple [], .list []] = .ok [] ∧
    ∃ cause, broadcast Builder.le.build [.list [.int 1, .int 2], .list [.int 3, .int 4, .int 5]] =
      .error cause ∧ cause.kind = .arityMismatch := by
  have one {n : Nat} : Operand.Supplies n (.int 1) fun _ => constant (.int 1) := .single rfl rfl
  have two : Operand.Supplies 2 (.list [.expr (var "p" none), .tuple [.expr (var "q" none)]])
      (Fin.cases (var "p" none) fun _ => var "q" none) := .collection rfl rfl
  have empty : Operand.Supplies 0 (.list []) Fin.elim0 := .collection rfl rfl
  have empty' : Operand.Supplies 0 (.tuple []) Fin.elim0 := .collection rfl rfl
  refine ⟨?_, ?_, ?_, ?_⟩
  · refine (((broadcast_law Builder.le.build).1 2 _ _ (.cons one (.cons two .nil))
      ⟨_, List.mem_cons_of_mem _ List.mem_cons_self, rfl⟩).1 nofun _).2
      ⟨Fin.cases _ fun _ => _, rfl, Fin.cases rfl (Fin.cases rfl fun i => i.elim0)⟩
  · exact ((broadcast_law Builder.le.build).1 0 _ _ (.cons one (.cons empty .nil))
      ⟨_, List.mem_cons_of_mem _ List.mem_cons_self, rfl⟩).2 rfl ⟨_, List.mem_cons_self, rfl⟩
  · exact (((broadcast_law Builder.le.build).1 0 _ _ (.cons empty' (.cons empty .nil))
      ⟨_, List.mem_cons_self, rfl⟩).1 (by decide) _).2
      ⟨Fin.elim0, rfl, fun i => i.elim0⟩
  · exact (broadcast_law Builder.le.build).2 _
      (List.forall_mem_cons.2 ⟨⟨_, rfl⟩, List.forall_mem_singleton.2 ⟨_, rfl⟩⟩) _
      List.mem_cons_self _ (List.mem_cons_of_mem _ List.mem_cons_self) _ _ rfl rfl
      (by decide) (by decide) (by decide)

/-- A single operand against a collection without members has no results, although
there is no place at which the function could refuse what is supplied. -/
theorem broadcast_one_of_none :
    List.Forall₂ (Operand.Supplies 0) [.int 1, .list []] [fun _ => constant (.int 1), Fin.elim0] ∧
    (∀ i : Fin 0, ∃ e,
      Builder.le.build ([fun _ => constant (.int 1), Fin.elim0].map fun f => .expr (f i)) = .ok e) ∧
    ¬ ∃ results, broadcast Builder.le.build [.int 1, .list []] = .ok results := by
  refine ⟨.cons (.single rfl rfl) (.cons (.collection rfl rfl) .nil), fun i => i.elim0, ?_⟩
  rintro ⟨results, made⟩
  cases made

end Expr

end SmtDialogue
