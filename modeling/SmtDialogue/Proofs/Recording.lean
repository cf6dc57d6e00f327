import SmtDialogue.Proofs.Account
import SmtDialogue.Proofs.Constraints
import SmtDialogue.Proofs.Inference
import SmtDialogue.Proofs.Meaning

/-!
# The record of declared constants

All that is written for one solver goes through one record: the table of the
constants that have been declared. A request asks for the sorts of the variables
of an expression, for the declarations of those that are new, or for an assertion
with the declarations that it needs. It is carried out in steps, each of which may
fail, and a step that fails undoes nothing of what has been recorded before it.

What makes requests safe is the order of their steps: everything that can fail
comes before anything is recorded. So a request that fails has left the record as
it was, and a history of requests says what it would have said without those that
failed. Over any history each constant is declared once, and before anything is
asserted about it; a request that is made again declares nothing
(`Request.consistent`).

Expressions may have any shape here. What is asked of the sorts is `HasSort`, which
goes by the sorts that constants carry and lets operators have any number of
operands; of an expression that builders make, the term that is written is
well-sorted as well.
-/

namespace SmtDialogue.Smt

open SmtDialogue.Expr

/-! ## Requests in steps -/

/-- Steps on a record. A step that fails leaves what the steps before it have
recorded. -/
abbrev RecordM := ExceptT WriteError (StateM SortTable)

namespace RecordM

variable {α β : Type}

theorem bind_apply (x : RecordM α) (f : α → RecordM β) (record : SortTable) :
    (x >>= f) record =
      match x record with
      | (.ok a, record) => f a record
      | (.error cause, record) => (.error cause, record) := by
  show ExceptT.bindCont f (x record).1 (x record).2 = _
  rcases x record with ⟨_ | _, _⟩ <;> rfl

@[simp] theorem pure_apply (a : α) (record : SortTable) :
    (pure a : RecordM α) record = (.ok a, record) := rfl

@[simp] theorem map_apply (f : α → β) (x : RecordM α) (record : SortTable) :
    (f <$> x) record = ((x record).1.map f, (x record).2) := by
  show (x >>= fun a => pure (f a)) record = _
  rw [bind_apply]
  rcases x record with ⟨_ | _, _⟩ <;> rfl

@[simp] theorem get_apply (record : SortTable) :
    (get : RecordM SortTable) record = (.ok record, record) := rfl

@[simp] theorem modify_apply (f : SortTable → SortTable) (record : SortTable) :
    (modify f : RecordM Unit) record = (.ok (), f record) := rfl

@[simp] theorem liftExcept_apply (x : Except WriteError α) (record : SortTable) :
    (liftExcept x : RecordM α) record = (x, record) := by
  cases x <;> rfl

end RecordM

/-- The sorts of the variables of an asserted expression. -/
def sortsStep (e : Expr) : RecordM SortTable := do
  liftExcept (inferSorts (← get) e)

/-- The declarations of those variables of an asserted expression that have not
been declared. They are recorded when all of them have been written. -/
def declareStep (e : Expr) : RecordM (List Command) := do
  let found ← sortsStep e
  let new := found.newIn (← get)
  liftExcept (checkWritable new.names)
  modify (· ++ new)
  return declareAll new

/-- The assertion of an expression after the declarations that it needs. -/
def assertStep (e : Expr) : RecordM (List Command) := do
  let term ← liftExcept (Term.ofExpr e)
  let declarations ← declareStep e
  return declarations ++ [.assert term]

/-- A request to write something for one solver. -/
inductive Request where
  /-- The sorts of the variables of an asserted expression. -/
  | sorts (e : Expr)
  /-- Their declarations, as far as they are new. -/
  | declarations (e : Expr)
  /-- The assertion with these declarations. -/
  | assertion (e : Expr)

/-- What comes of a request. -/
inductive Output where
  /-- Sorts of variables. -/
  | sorts (found : SortTable)
  /-- Commands. -/
  | commands (block : List Command)

/-- A request on a record. -/
def Request.write : Request → RecordM Output
  | sorts e => do return .sorts (← sortsStep e)
  | declarations e => do return .commands (← declareStep e)
  | assertion e => do return .commands (← assertStep e)

/-- **What a request gives** when it does not fail, with the constants that it
declares. -/
inductive Request.Gives (record : SortTable) : Request → Output → SortTable → Prop
  | sorts {e : Expr} {found : SortTable} (inferred : inferSorts record e = .ok found) :
    Gives record (.sorts e) (.sorts found) []
  | declarations {e : Expr} {new : SortTable} (made : newDeclarations record e = .ok new) :
    Gives record (.declarations e) (.commands (declareAll new)) new
  | assertion {e : Expr} {t : Term} {new : SortTable} (written : Term.ofExpr e = .ok t)
    (made : newDeclarations record e = .ok new) :
    Gives record (.assertion e) (.commands (declareAll new ++ [.assert t])) new

/-- The sorts of variables are found without recording anything. -/
theorem sortsStep_apply (e : Expr) (record : SortTable) :
    sortsStep e record = (inferSorts record e, record) := by
  simp [sortsStep, RecordM.bind_apply]

/-- Declaring new constants step by step is recording them at once, or nothing. -/
theorem declareStep_apply (e : Expr) (record : SortTable) :
    declareStep e record =
      match newDeclarations record e with
      | .ok new => (.ok (declareAll new), record ++ new)
      | .error cause => (.error cause, record) := by
  unfold declareStep newDeclarations
  rw [RecordM.bind_apply, sortsStep_apply]
  cases inferSorts record e with
  | error cause => rfl
  | ok found =>
    simp only [RecordM.bind_apply, RecordM.get_apply, RecordM.liftExcept_apply, Outcome.bind_ok]
    cases checkWritable (found.newIn record).names with
    | error cause => rfl
    | ok => rfl

/-- Asserting step by step is asserting at once, or nothing. -/
theorem assertStep_apply (e : Expr) (record : SortTable) :
    assertStep e record =
      match Smt.assertion record e with
      | .ok (commands, record) => (.ok commands, record)
      | .error cause => (.error cause, record) := by
  unfold assertStep Smt.assertion
  rw [RecordM.bind_apply, RecordM.liftExcept_apply]
  cases Term.ofExpr e with
  | error cause => rfl
  | ok t =>
    simp only [Outcome.bind_ok]
    rw [RecordM.bind_apply, declareStep_apply]
    cases newDeclarations record e with
    | error cause => rfl
    | ok new => rfl

namespace Request

variable {record : SortTable} {r : Request} {output : Output} {new : SortTable}

/-- A request gives what it has declared for recording. -/
theorem Gives.write (given : r.Gives record output new) :
    r.write record = (.ok output, record ++ new) := by
  cases given with
  | sorts inferred =>
    simp [Request.write, sortsStep_apply, inferred, Except.map]
  | declarations made =>
    simp [Request.write, declareStep_apply, made, Except.map]
  | assertion written made =>
    simp [Request.write, assertStep_apply, assertion_eq_ok_iff.2 ⟨_, _, written, made, rfl, rfl⟩,
      Except.map]

/-- **What a request does**: it gives what it declares, or it fails and leaves the
record as it was. -/
theorem write_cases (r : Request) (record : SortTable) :
    (∃ output new, r.Gives record output new ∧ r.write record = (.ok output, record ++ new)) ∨
      ∃ cause, r.write record = (.error cause, record) := by
  have given {output : Output} {new : SortTable} (h : r.Gives record output new) :
      ∃ output new, r.Gives record output new ∧ r.write record = (.ok output, record ++ new) :=
    ⟨output, new, h, h.write⟩
  cases r with
  | sorts e =>
    cases inferred : inferSorts record e with
    | ok found => exact .inl (given (.sorts inferred))
    | error cause => exact .inr ⟨cause, by simp [write, sortsStep_apply, inferred, Except.map]⟩
  | declarations e =>
    cases made : newDeclarations record e with
    | ok new => exact .inl (given (.declarations made))
    | error cause => exact .inr ⟨cause, by simp [write, declareStep_apply, made, Except.map]⟩
  | assertion e =>
    cases asserted : Smt.assertion record e with
    | ok result =>
      obtain ⟨t, new, written, made, -, -⟩ := assertion_eq_ok_iff.1 asserted
      exact .inl (given (.assertion written made))
    | error cause => exact .inr ⟨cause, by simp [write, assertStep_apply, asserted, Except.map]⟩

/-- Whether a request declares the variables of an expression. -/
inductive Declares (e : Expr) : Request → Prop
  | declarations : Declares e (.declarations e)
  | assertion : Declares e (.assertion e)

end Request

/-! ## What requests declare -/

/-- The constants that some commands declare. -/
def declaredIn (commands : List Command) : SortTable :=
  commands.filterMap fun
    | .declare name sort => some (name, sort)
    | _ => none

theorem declaredIn_append (cs ds : List Command) :
    declaredIn (cs ++ ds) = declaredIn cs ++ declaredIn ds :=
  List.filterMap_append

@[simp] theorem declaredIn_declareAll (new : SortTable) : declaredIn (declareAll new) = new := by
  unfold declaredIn declareAll
  rw [List.filterMap_map]
  exact List.filterMap_some

@[simp] theorem declaredIn_assert (t : Term) : declaredIn [.assert t] = [] := rfl

/-- Whether a command asserts a term. -/
def Command.isAssertion : Command → Bool
  | assert _ => true
  | _ => false

theorem filter_isAssertion_declareAll (new : SortTable) :
    (declareAll new).filter Command.isAssertion = [] := by
  rw [List.filter_eq_nil_iff]
  intro c hc
  obtain ⟨_, -, rfl⟩ := List.mem_map.1 hc
  exact Bool.false_ne_true

/-- **Nothing is new to a record over which an expression is a truth value.** -/
theorem newDeclarations_of_hasSort {record : SortTable} {e : Expr}
    (typed : e.HasSort record .bool) :
    newDeclarations record e = .ok [] := by
  have nothing : SortTable.Within [] record := nofun
  obtain ⟨found, inferred, part⟩ := exists_infer_of_hasSort (.refl record) typed nothing
  have known : found.newIn record = [] := by
    refine List.filter_eq_nil_iff.2 fun entry here => ?_
    obtain ⟨sort, there⟩ := SortTable.exists_sortOf? (SortTable.mem_names.2 ⟨entry.2, here⟩)
    simp [SortTable.contains, part _ _ there]
  unfold newDeclarations inferSorts
  rw [inferred, Outcome.bind_ok, known]
  rfl

namespace Output

/-- The commands of an output. -/
def said : Output → List Command
  | sorts _ => []
  | commands block => block

/-- What is left of an output when there is nothing to declare. -/
def withoutDeclarations : Output → Output
  | sorts found => sorts found
  | commands block => commands (block.filter Command.isAssertion)

end Output

namespace Request

variable {record grown : SortTable} {r : Request} {output : Output} {new : SortTable} {e : Expr}

/-- What a request records is what it says to be declared. -/
theorem Gives.declaredIn_said (given : r.Gives record output new) :
    declaredIn output.said = new := by
  cases given with
  | sorts => rfl
  | declarations => exact declaredIn_declareAll _
  | assertion =>
    show declaredIn (declareAll _ ++ [_]) = _
    rw [declaredIn_append, declaredIn_declareAll, declaredIn_assert, List.append_nil]

/-- A request records no constant twice, and none that has been recorded. -/
theorem Gives.nodup (given : r.Gives record output new) (once : record.names.Nodup) :
    (record ++ new).names.Nodup := by
  cases given with
  | sorts => rwa [List.append_nil]
  | declarations made => exact (newDeclarations_spec made).nodup once
  | assertion _ made => exact (newDeclarations_spec made).nodup once

/-- An expression whose variables have been declared is a truth value. -/
theorem Gives.hasSort (given : r.Gives record output new) (declares : r.Declares e) :
    e.HasSort (record ++ new) .bool := by
  cases declares with
  | declarations =>
    cases given with
    | declarations made => exact (newDeclarations_spec made).sorted
  | assertion =>
    cases given with
    | assertion _ made => exact (newDeclarations_spec made).sorted

/-- **A request that is made again** declares nothing. What has been recorded in
the meantime does not matter, except that sorts are only asked for again at once. -/
theorem Gives.again (given : r.Gives record output new) (kept : (record ++ new).Within grown)
    (still : (∃ e, r.Declares e) ∨ grown = record ++ new) :
    r.Gives grown output.withoutDeclarations [] := by
  have nothing {e : Expr} (made : newDeclarations record e = .ok new) :
      newDeclarations grown e = .ok [] :=
    newDeclarations_of_hasSort ((newDeclarations_spec made).sorted.mono kept)
  cases given with
  | sorts inferred =>
    rcases still with ⟨_, ⟨⟩⟩ | rfl
    · rw [List.append_nil]
      exact .sorts inferred
  | declarations made =>
    have said := Gives.declarations (nothing made)
    rwa [Output.withoutDeclarations, filter_isAssertion_declareAll]
  | assertion written made =>
    have said := Gives.assertion written (nothing made)
    rwa [Output.withoutDeclarations, List.filter_append, filter_isAssertion_declareAll]

/-! ## Histories of requests -/

/-- The record after some requests. -/
def after (record : SortTable) : List Request → SortTable
  | [] => record
  | r :: rs => after (r.write record).2 rs

/-- What comes of some requests, one after the other. -/
def outcomes (record : SortTable) : List Request → List (Except WriteError Output)
  | [] => []
  | r :: rs => (r.write record).1 :: outcomes (r.write record).2 rs

/-- Those of some requests that do not fail. -/
def accepted (record : SortTable) : List Request → List Request
  | [] => []
  | r :: rs =>
    if (r.write record).1.isOk then r :: accepted (r.write record).2 rs
    else accepted (r.write record).2 rs

/-- The commands that some requests have given. -/
def said (record : SortTable) (rs : List Request) : List Command :=
  (outcomes record rs).flatMap fun
    | .ok output => output.said
    | .error _ => []

variable {rs earlier later : List Request}

theorem after_append (record : SortTable) (rs more : List Request) :
    after record (rs ++ more) = after (after record rs) more := by
  induction rs generalizing record with
  | nil => rfl
  | cons r rs ih => exact ih _

theorem outcomes_append (record : SortTable) (rs more : List Request) :
    outcomes record (rs ++ more) = outcomes record rs ++ outcomes (after record rs) more := by
  induction rs generalizing record with
  | nil => rfl
  | cons r rs ih => exact congrArg _ (ih _)

theorem said_append (record : SortTable) (rs more : List Request) :
    said record (rs ++ more) = said record rs ++ said (after record rs) more := by
  rw [said, outcomes_append, List.flatMap_append]
  rfl

/-- A request that fails says nothing and records nothing. -/
theorem said_cons_of_error {cause : WriteError} (failed : r.write record = (.error cause, record))
    (rs : List Request) : said record (r :: rs) = said record rs := by
  unfold said
  rw [outcomes, failed]
  rfl

theorem said_cons_of_gives (given : r.Gives record output new) (rs : List Request) :
    said record (r :: rs) = output.said ++ said (record ++ new) rs := by
  unfold said
  rw [outcomes, given.write]
  rfl

/-- **What is recorded is what has been declared**, on top of what was recorded
before. -/
theorem after_eq (record : SortTable) (rs : List Request) :
    after record rs = record ++ declaredIn (said record rs) := by
  induction rs generalizing record with
  | nil => exact (List.append_nil _).symm
  | cons r rs ih =>
    rcases r.write_cases record with ⟨output, new, given, wrote⟩ | ⟨cause, failed⟩
    · rw [after, wrote, ih, said_cons_of_gives given, declaredIn_append, given.declaredIn_said,
        List.append_assoc]
    · rw [after, failed, ih, said_cons_of_error failed]

/-- Requests only add to the record. -/
theorem within_after (record : SortTable) (rs : List Request) :
    record.Within (after record rs) := by
  rw [after_eq]
  exact SortTable.within_append _ _

theorem nodup_after (once : record.names.Nodup) (rs : List Request) :
    (after record rs).names.Nodup := by
  induction rs generalizing record with
  | nil => exact once
  | cons r rs ih =>
    rcases r.write_cases record with ⟨output, new, given, wrote⟩ | ⟨cause, failed⟩
    · rw [after, wrote]
      exact ih (given.nodup once)
    · rw [after, failed]
      exact ih once

theorem accepted_cons_of_error {cause : WriteError}
    (failed : r.write record = (.error cause, record)) (rs : List Request) :
    accepted record (r :: rs) = accepted record rs := by
  rw [accepted, failed]
  rfl

theorem accepted_cons_of_gives (given : r.Gives record output new) (rs : List Request) :
    accepted record (r :: rs) = r :: accepted (record ++ new) rs := by
  rw [accepted, given.write]
  rfl

/-- **Requests that fail can be left out**: the others have the same outcomes and
leave the same record. -/
theorem accepted_spec (record : SortTable) (rs : List Request) :
    outcomes record (accepted record rs) = (outcomes record rs).filter Except.isOk ∧
      after record (accepted record rs) = after record rs := by
  induction rs generalizing record with
  | nil => exact ⟨rfl, rfl⟩
  | cons r rs ih =>
    rcases r.write_cases record with ⟨output, new, given, wrote⟩ | ⟨cause, failed⟩
    · obtain ⟨same, left⟩ := ih (record ++ new)
      rw [accepted_cons_of_gives given]
      simp only [outcomes, after, wrote]
      exact ⟨by rw [same, List.filter_cons_of_pos rfl], left⟩
    · obtain ⟨same, left⟩ := ih record
      rw [accepted_cons_of_error failed]
      simp only [outcomes, after, failed]
      exact ⟨by rw [same, List.filter_cons_of_neg Bool.false_ne_true], left⟩

/-- A request that has been accepted was made at some time. -/
theorem exists_of_mem_accepted (member : r ∈ accepted record rs) :
    ∃ earlier later output new, rs = earlier ++ r :: later ∧
      r.Gives (after record earlier) output new := by
  induction rs generalizing record with
  | nil => cases member
  | cons first rs ih =>
    rcases first.write_cases record with ⟨output, new, given, wrote⟩ | ⟨cause, failed⟩
    · rw [accepted_cons_of_gives given, List.mem_cons] at member
      rcases member with rfl | member
      · exact ⟨[], rs, output, new, rfl, given⟩
      · obtain ⟨earlier, later, output, new, rfl, given⟩ := ih member
        exact ⟨first :: earlier, later, output, new, rfl, by rwa [after, wrote]⟩
    · rw [accepted_cons_of_error failed] at member
      obtain ⟨earlier, later, output, new, rfl, given⟩ := ih member
      exact ⟨first :: earlier, later, output, new, rfl, by rwa [after, failed]⟩

/-- An assertion that a request says is what it says last, after its declarations. -/
theorem Gives.of_said_assert (given : r.Gives record output new) {t : Term}
    {first last : List Command} (split : output.said = first ++ .assert t :: last) :
    ∃ e, r = .assertion e ∧ Term.ofExpr e = .ok t ∧ newDeclarations record e = .ok new ∧
      declaredIn first = new := by
  have declares {first last : List Command} (split : declareAll new = first ++ .assert t :: last) :
      False := by
    have member : Command.assert t ∈ declareAll new := by simp [split]
    obtain ⟨_, -, other⟩ := List.mem_map.1 member
    cases other
  cases given with
  | sorts => cases (List.append_eq_nil_iff.1 split.symm).2
  | declarations => exact (declares split).elim
  | @assertion e u new written made =>
    rcases List.eq_nil_or_concat last with rfl | ⟨init, c, rfl⟩
    · obtain ⟨rfl, same⟩ := List.append_inj' split rfl
      cases same
      exact ⟨e, rfl, written, made, declaredIn_declareAll new⟩
    · rw [List.concat_eq_append, ← List.cons_append, ← List.append_assoc] at split
      exact (declares (List.append_inj' split rfl).1).elim

/-- **An assertion comes from a request**, which has said the declarations that it
needs before it. -/
theorem exists_of_said_assert {t : Term} {first last : List Command}
    (split : said record rs = first ++ .assert t :: last) :
    ∃ e earlier later new, rs = earlier ++ .assertion e :: later ∧ Term.ofExpr e = .ok t ∧
      newDeclarations (after record earlier) e = .ok new ∧
      after record earlier ++ new = record ++ declaredIn first := by
  induction rs generalizing record first with
  | nil => cases (List.append_eq_nil_iff.1 split.symm).2
  | cons r rs ih =>
    rcases r.write_cases record with ⟨output, recorded, given, wrote⟩ | ⟨cause, failed⟩
    · rw [said_cons_of_gives given] at split
      -- the assertion is said by a later request, or by this one
      have elsewhere (rest : List Command) (before : first = output.said ++ rest)
          (split : said (record ++ recorded) rs = rest ++ .assert t :: last) :
          ∃ e earlier later new, r :: rs = earlier ++ .assertion e :: later ∧
            Term.ofExpr e = .ok t ∧ newDeclarations (after record earlier) e = .ok new ∧
            after record earlier ++ new = record ++ declaredIn first := by
        obtain ⟨e, earlier, later, new, rfl, written, made, same⟩ := ih split
        refine ⟨e, r :: earlier, later, new, rfl, written, by rwa [after, wrote], ?_⟩
        rw [after, wrote, same, before, declaredIn_append, given.declaredIn_said,
          List.append_assoc]
      rcases List.append_eq_append_iff.1 split with ⟨rest, before, split⟩ | ⟨rest, here, split⟩
      · exact elsewhere rest before split
      · cases rest with
        | nil => exact elsewhere [] (by simpa using here.symm) (by simpa using split.symm)
        | cons c rest =>
          cases (List.cons.inj split).1
          obtain ⟨e, rfl, written, made, same⟩ := given.of_said_assert here
          exact ⟨e, [], rs, recorded, rfl, written, made, by rw [same]; rfl⟩
    · rw [said_cons_of_error failed] at split
      obtain ⟨e, earlier, later, new, rfl, written, made, same⟩ := ih split
      exact ⟨e, r :: earlier, later, new, rfl, written, by rwa [after, failed],
        by rwa [after, failed]⟩

/-- An expression whose variables a request has declared is a truth value over the
record from then on. -/
theorem hasSort_after (given : r.Gives (after record earlier) output new)
    (declares : r.Declares e) (later : List Request) :
    e.HasSort (after record (earlier ++ r :: later)) .bool := by
  have typed := given.hasSort declares
  rw [after_append, after, given.write]
  exact typed.mono (within_after _ later)

/-- **What a history of requests keeps to**, on a record that was empty. -/
structure Consistent (rs : List Request) : Prop where
  /-- A request that fails leaves the record as it was. -/
  refused : ∀ earlier r later cause, rs = earlier ++ r :: later →
    (r.write (after [] earlier)).1 = .error cause → after [] (earlier ++ [r]) = after [] earlier
  /-- Without the requests that fail, the others have the same outcomes and leave the
  same record. -/
  without : outcomes [] (accepted [] rs) = (outcomes [] rs).filter Except.isOk ∧
    after [] (accepted [] rs) = after [] rs
  /-- What has been declared is what is recorded, each constant once. -/
  once : declaredIn (said [] rs) = after [] rs ∧ (after [] rs).names.Nodup
  /-- The variables of an expression have been declared when the request that
  declares them has been carried out. -/
  declared : ∀ earlier r later output e, rs = earlier ++ r :: later → r.Declares e →
    (r.write (after [] earlier)).1 = .ok output →
    e.HasSort (declaredIn (said [] (earlier ++ [r]))) .bool ∧
      (e.Built → ∀ x ∈ e.variableNames, x ∈ (declaredIn (said [] (earlier ++ [r]))).names)
  /-- An assertion is the term of an expression that is a truth value over what has
  been declared before it. Its variables are among that, and when builders have made
  the expression, the term is well-sorted. -/
  asserted : ∀ first t last, said [] rs = first ++ .assert t :: last →
    ∃ e, .assertion e ∈ rs ∧ Term.ofExpr e = .ok t ∧ e.HasSort (declaredIn first) .bool ∧
      (∀ x ∈ t.names, x ∈ (declaredIn first).names) ∧
      (e.Built → t.sort? (declaredIn first) = some .bool)
  /-- All that has been asserted is well-sorted over what is recorded in the end. -/
  sorted : ∀ e, .assertion e ∈ accepted [] rs → e.HasSort (after [] rs) .bool ∧
    ∃ t, Term.ofExpr e = .ok t ∧ .assert t ∈ said [] rs ∧
      (e.Built → t.sort? (after [] rs) = some .bool)
  /-- A request that is made again declares nothing and asserts the same. -/
  again : ∀ earlier r later output, rs = earlier ++ r :: later →
    (r.write (after [] earlier)).1 = .ok output → (∃ e, r.Declares e) ∨ later = [] →
    r.write (after [] rs) = (.ok output.withoutDeclarations, after [] rs)

/-- A request that has been carried out gives what it was asked for. -/
theorem gives_of_write (wrote : (r.write record).1 = .ok output) :
    ∃ new, r.Gives record output new := by
  rcases r.write_cases record with ⟨_, new, given, same⟩ | ⟨cause, failed⟩
  · rw [same] at wrote
    cases wrote
    exact ⟨new, given⟩
  · rw [failed] at wrote
    cases wrote

/-- **Histories of requests are consistent**, whatever is asked for and whichever of
the requests fail. -/
theorem consistent (rs : List Request) : Consistent rs where
  refused earlier r later cause _ failed := by
    rcases r.write_cases (after [] earlier) with ⟨output, new, -, wrote⟩ | ⟨_, left⟩
    · rw [wrote] at failed
      cases failed
    · rw [after_append, after, left]
      rfl
  without := accepted_spec [] rs
  once := ⟨(after_eq [] rs).symm,
    nodup_after (show (SortTable.names []).Nodup from List.nodup_nil) rs⟩
  declared earlier r later output e _ declares wrote := by
    obtain ⟨new, given⟩ := gives_of_write wrote
    have typed := hasSort_after given declares []
    rw [after_eq, List.nil_append] at typed
    exact ⟨typed, fun built => typed.mem_names built⟩
  asserted first t last split := by
    obtain ⟨e, earlier, later, new, rfl, written, made, same⟩ := exists_of_said_assert split
    have typed := (newDeclarations_spec made).sorted
    rw [same, List.nil_append] at typed
    exact ⟨e, by simp, written, typed, Term.mem_names_of_hasSort typed written,
      fun built => sort?_ofExpr built typed written⟩
  sorted e member := by
    obtain ⟨earlier, later, output, new, rfl, given⟩ := exists_of_mem_accepted member
    have typed := hasSort_after given .assertion later
    refine ⟨typed, ?_⟩
    rw [said_append, said_cons_of_gives given]
    cases given with
    | @assertion _ t _ written made =>
      exact ⟨t, written, by simp [Output.said], fun built => sort?_ofExpr built typed written⟩
  again earlier r later output split wrote repeats := by
    subst split
    obtain ⟨new, given⟩ := gives_of_write wrote
    have last : after [] (earlier ++ r :: later) = after (after [] earlier ++ new) later := by
      rw [after_append, after, given.write]
    have kept : (after [] earlier ++ new).Within (after [] (earlier ++ r :: later)) :=
      last ▸ within_after _ later
    have repeated := given.again kept (repeats.imp_right fun none => by rw [last, none]; rfl)
    simpa using repeated.write

end Request

end SmtDialogue.Smt
