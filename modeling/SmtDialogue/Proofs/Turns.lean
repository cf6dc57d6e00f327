import SmtDialogue.Enumeration.Enumerator
import SmtDialogue.Proofs.Scoping

/-!
# What a turn does

All that a turn of an iteration can do, whatever the session is like and whatever
its solver answers: one case for each way in which a turn can end
(`Enumerator.advance_cases`). Each case says what has been done to the session. A
turn that goes on after a solution first excludes it (`Enumerator.Resumes`); one
that finds a solution has had a check answered and all values given
(`Enumerator.Retrieves`); and where an error comes from is said by
`Enumerator.BreaksOff`. So what is known of the turns of an enumerator follows
from these cases, and nothing else needs to look into a turn.
-/

namespace SmtDialogue

/-! ## Operations of the dialogue -/

/-- **What a session comes to** by operations of the dialogue: neither opening nor
closing is among them. -/
def Session.Reaches (s s' : Session) : Prop :=
  ∃ ops : List Operation, (∀ op ∈ ops, op.IsInner) ∧ s' = Operation.runAll s ops

namespace Session.Reaches

variable {s s' s'' : Session}

theorem refl (s : Session) : s.Reaches s :=
  ⟨[], List.forall_mem_nil _, rfl⟩

theorem trans (h : s.Reaches s') (k : s'.Reaches s'') : s.Reaches s'' := by
  obtain ⟨first, inner, rfl⟩ := h
  obtain ⟨second, inner', rfl⟩ := k
  refine ⟨first ++ second, List.forall_mem_append.2 ⟨inner, inner'⟩, ?_⟩
  simp [Operation.runAll]

/-- One operation. -/
theorem of_run (op : Operation) (inner : op.IsInner) {outcome : Except SessionError Unit}
    (h : op.run s = (outcome, s')) : s.Reaches s' := by
  refine ⟨[op], List.forall_mem_singleton.2 inner, ?_⟩
  show s' = (op.run s).2
  rw [h]

/-- An operation whose result is left aside. -/
theorem of_forget (op : Operation) {α : Type} {act : SessionM α} (inner : op.IsInner)
    (same : op.run = act >>= fun _ => pure ()) {outcome : Except SessionError α}
    (h : act s = (outcome, s')) : s.Reaches s' := by
  cases outcome with
  | error e =>
    have ran : op.run s = (.error e, s') := by rw [same, SessionM.bind_apply, h]
    exact of_run op inner ran
  | ok a =>
    have ran : op.run s = (.ok (), s') := by
      rw [same, SessionM.bind_apply, h]
      rfl
    exact of_run op inner ran

theorem assert {e : Expr} {outcome : Except SessionError Unit}
    (h : Session.assert e s = (outcome, s')) : s.Reaches s' :=
  of_run (.assert e) trivial h

theorem check {outcome : Except SessionError Status} (h : Session.check s = (outcome, s')) :
    s.Reaches s' :=
  of_forget .check trivial rfl h

theorem model {vars : Option Operand} {outcome : Except SessionError Model}
    (h : Session.model vars s = (outcome, s')) : s.Reaches s' :=
  of_forget (.model vars) trivial rfl h

/-- Assertions one after the other. -/
theorem assertAll {es : List Expr} {outcome : Except SessionError Unit}
    (h : Session.assertAll es s = (outcome, s')) : s.Reaches s' := by
  induction es generalizing s with
  | nil =>
    cases h
    exact refl _
  | cons e es ih =>
    rw [Session.assertAll, SessionM.bind_apply] at h
    rcases first : Session.assert e s with ⟨e' | ⟨⟩, middle⟩
    · rw [first] at h
      cases h
      exact assert first
    · rw [first] at h
      exact (assert first).trans (ih h)

end Session.Reaches

namespace Enumerator

/-! ## The parts of a turn -/

/-- **How a turn goes on from where an iteration is**: at the start nothing is
done, and after a solution the clause that excludes it is asserted. Without decision
variables there is no such clause. -/
inductive Resumes (vs : List Expr) : Cursor → Session → Session → Prop
  /-- Nothing has been handed out. -/
  | start (s : Session) : Resumes vs .fresh s s
  /-- What has been handed out is excluded. -/
  | exclude {m : Model} {clause : Expr} {s s' : Session} (decides : vs ≠ [])
    (made : Enumeration.blockModel m vs = .ok clause)
    (asserted : Session.assert clause s = (.ok (), s')) : Resumes vs (.handedOut m) s s'

/-- **A solution is retrieved**: a check is answered by sat, and then all requests
for the values of the decision variables are. -/
def Retrieves (vs : List Expr) (s : Session) (m : Model) (s' : Session) : Prop :=
  ∃ between, Session.check s = (.ok .sat, between) ∧
    Session.model (some (.list (vs.map .expr))) between = (.ok m, s')

/-- Whether a limit allows more than a number of solutions. -/
def HasRoom (limit : Option Nat) (count : Nat) : Prop :=
  ∀ L, limit = some L → count < L

/-- **How a turn breaks off** when a number of solutions have been found: with an
error at one of the places where there can be one. -/
inductive BreaksOff (vs : List Expr) (limit : Option Nat) (count : Nat) :
    Cursor → Session → SessionError → Session → Prop
  /-- There is no clause that excludes the solution handed out last. -/
  | clause {m : Model} {s : Session} {e : SessionError} (decides : vs ≠ [])
    (unmade : Enumeration.blockModel m vs = .error e) :
    BreaksOff vs limit count (.handedOut m) s e s
  /-- The clause cannot be asserted. -/
  | assertion {m : Model} {clause : Expr} {s s' : Session} {e : SessionError} (decides : vs ≠ [])
    (made : Enumeration.blockModel m vs = .ok clause)
    (failed : Session.assert clause s = (.error e, s')) :
    BreaksOff vs limit count (.handedOut m) s e s'
  /-- The check fails. -/
  | check {c : Cursor} {s s₁ s' : Session} {e : SessionError} (resumes : Resumes vs c s s₁)
    (room : HasRoom limit count) (failed : Session.check s₁ = (.error e, s')) :
    BreaksOff vs limit count c s e s'
  /-- The solver does not know. -/
  | unknown {c : Cursor} {s s₁ s' : Session} (resumes : Resumes vs c s s₁)
    (room : HasRoom limit count) (answered : Session.check s₁ = (.ok .unknown, s')) :
    BreaksOff vs limit count c s (.undecided count) s'
  /-- Not all values are given. -/
  | values {c : Cursor} {s s₁ s₂ s' : Session} {e : SessionError} (resumes : Resumes vs c s s₁)
    (room : HasRoom limit count) (answered : Session.check s₁ = (.ok .sat, s₂))
    (failed : Session.model (some (.list (vs.map .expr))) s₂ = (.error e, s')) :
    BreaksOff vs limit count c s e s'

/-- **What a turn does**, by the way in which it ends. -/
inductive Advances (n : Enumerator) (c : Cursor) (s : Session) : Turn → Prop
  /-- The iteration has ended before. -/
  | finished (place : c = .ended) : Advances n c s (n.stop s)
  /-- Without decision variables there is nothing after the one solution. -/
  | bare {m : Model} (none : n.decisions = []) (place : c = .handedOut m) :
    Advances n c s ({ n with exhausted := true }.stop s)
  /-- The limit allows no further solution. -/
  | limit {s' : Session} (resumes : Resumes n.decisions c s s') (full : n.atLimit = true) :
    Advances n c s ({ n with limitReached := true }.stop s')
  /-- The solver finds that nothing is left. -/
  | unsat {s₁ s' : Session} (resumes : Resumes n.decisions c s s₁)
    (room : HasRoom n.limit n.solutions.length)
    (answered : Session.check s₁ = (.ok .unsat, s')) :
    Advances n c s ({ n with exhausted := true }.stop s')
  /-- A solution is handed out. -/
  | found {m : Model} {s₁ s' : Session} (resumes : Resumes n.decisions c s s₁)
    (room : HasRoom n.limit n.solutions.length) (retrieves : Retrieves n.decisions s₁ m s') :
    Advances n c s
      { outcome := .ok (some m)
        cursor := .handedOut m
        enumerator := { n with solutions := n.solutions ++ [m] }
        session := s' }
  /-- An error ends it. -/
  | broken {i : Interruption} {s' : Session}
    (breaks : BreaksOff n.decisions n.limit n.solutions.length c s i.error s') :
    Advances n c s (n.interrupt s' i)

variable {vs : List Expr} {n : Enumerator} {c : Cursor} {s s' : Session}

theorem atLimit_eq_false_iff : n.atLimit = false ↔ HasRoom n.limit n.solutions.length := by
  unfold atLimit HasRoom
  cases n.limit <;> simp

/-- A search, once the solution handed out last has been excluded. -/
theorem advances_seek (resumes : Resumes n.decisions c s s') : Advances n c s (n.seek s') := by
  unfold seek
  split
  · next full => exact .limit resumes full
  · next below =>
    have room := atLimit_eq_false_iff.1 (Bool.eq_false_iff.2 below)
    rcases checked : Session.check s' with ⟨e | status, s₁⟩
    · exact .broken (.check resumes room checked)
    · cases status with
      | unsat => exact .unsat resumes room checked
      | unknown => exact .broken (.unknown resumes room checked)
      | sat =>
        dsimp only
        rcases asked : n.modelOf s₁ with ⟨e | m, s₂⟩
        · exact .broken (.values resumes room checked asked)
        · exact .found resumes room ⟨s₁, checked, asked⟩

/-- **What a turn does.** -/
theorem advance_cases (n : Enumerator) (c : Cursor) (s : Session) :
    Advances n c s (n.advance c s) := by
  cases c with
  | ended => exact .finished rfl
  | fresh => exact advances_seek (.start s)
  | handedOut m =>
    unfold advance
    dsimp only
    split
    · next none => exact .bare (List.isEmpty_iff.1 none) rfl
    · next some =>
      have decides : n.decisions ≠ [] := mt List.isEmpty_iff.2 some
      cases made : Enumeration.blockModel m n.decisions with
      | error e =>
        have failed : n.exclude m s = (.error e, s) := by
          rw [exclude, made]
          rfl
        rw [failed]
        exact .broken (.clause decides made)
      | ok clause =>
        have same : n.exclude m s = Session.assert clause s := by rw [exclude, made]
        rw [same]
        rcases asserted : Session.assert clause s with ⟨e | ⟨⟩, s₁⟩
        · exact .broken (.assertion decides made asserted)
        · exact advances_seek (.exclude decides made asserted)

/-! ## Turns that are known by their parts -/

/-- Going on from where an iteration is leads to a search. -/
theorem Resumes.advance_eq (h : Resumes n.decisions c s s') : n.advance c s = n.seek s' := by
  cases h with
  | start => rfl
  | exclude decides made asserted =>
    unfold advance
    dsimp only
    rw [if_neg (mt List.isEmpty_iff.1 decides), Enumerator.exclude, made]
    dsimp only
    rw [asserted]

/-- A turn that retrieves a solution hands it out. -/
theorem Retrieves.advance_eq {m : Model} {s₁ : Session} (resumes : Resumes n.decisions c s s₁)
    (room : HasRoom n.limit n.solutions.length) (h : Retrieves n.decisions s₁ m s') :
    n.advance c s =
      { outcome := .ok (some m)
        cursor := .handedOut m
        enumerator := { n with solutions := n.solutions ++ [m] }
        session := s' } := by
  obtain ⟨between, checked, given⟩ := h
  have asked : n.modelOf between = (.ok m, s') := given
  rw [resumes.advance_eq, seek, atLimit_eq_false_iff.2 room, checked]
  dsimp only
  rw [asked]
  rfl

/-- A turn that breaks off is interrupted by the error. -/
theorem BreaksOff.advance_eq {e : SessionError}
    (h : BreaksOff n.decisions n.limit n.solutions.length c s e s') :
    ∃ i : Interruption, i.error = e ∧ n.advance c s = n.interrupt s' i := by
  cases h with
  | clause decides unmade =>
    refine ⟨{ error := e }, rfl, ?_⟩
    unfold advance
    dsimp only
    rw [if_neg (mt List.isEmpty_iff.1 decides), exclude, unmade]
    rfl
  | assertion decides made failed =>
    refine ⟨{ error := e }, rfl, ?_⟩
    unfold advance
    dsimp only
    rw [if_neg (mt List.isEmpty_iff.1 decides), exclude, made]
    dsimp only
    rw [failed]
  | check resumes room failed =>
    refine ⟨{ error := e }, rfl, ?_⟩
    rw [resumes.advance_eq, seek, atLimit_eq_false_iff.2 room, failed]
    rfl
  | unknown resumes room answered =>
    refine ⟨{ error := .undecided n.solutions.length, found := n.solutions }, rfl, ?_⟩
    rw [resumes.advance_eq, seek, atLimit_eq_false_iff.2 room, answered]
    rfl
  | @values _ _ _ s₂ _ _ resumes room answered failed =>
    have asked : n.modelOf s₂ = (.error e, s') := failed
    refine ⟨{ error := e }, rfl, ?_⟩
    rw [resumes.advance_eq, seek, atLimit_eq_false_iff.2 room, answered]
    dsimp only
    rw [asked]
    rfl

/-! ## What is done to the session -/

theorem Resumes.reaches (h : Resumes vs c s s') : s.Reaches s' := by
  cases h with
  | start => exact .refl s
  | exclude _ _ asserted => exact .assert asserted

theorem Retrieves.reaches {m : Model} (h : Retrieves vs s m s') : s.Reaches s' := by
  obtain ⟨between, checked, given⟩ := h
  exact (Session.Reaches.check checked).trans (.model given)

theorem BreaksOff.reaches {limit : Option Nat} {count : Nat} {e : SessionError}
    (h : BreaksOff vs limit count c s e s') : s.Reaches s' := by
  cases h with
  | clause => exact .refl s
  | assertion _ _ failed => exact .assert failed
  | check resumes _ failed => exact resumes.reaches.trans (.check failed)
  | unknown resumes _ answered => exact resumes.reaches.trans (.check answered)
  | values resumes _ answered failed =>
    exact resumes.reaches.trans ((Session.Reaches.check answered).trans (.model failed))

end Enumerator

end SmtDialogue
