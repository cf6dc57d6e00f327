import SmtDialogue.Enumeration.Block
import SmtDialogue.Session.Assertion
import SmtDialogue.Session.Model

/-!
# Enumerators

An enumerator goes through the assignments of some decision variables that the
assertions of a session allow. Each turn checks, takes the model of the decision
variables, and hands it out; the next turn first excludes it by a blocking
clause. It ends when nothing is left, or at a limit.

The place of an iteration is a cursor. An enumerator can have any number of
cursors, each of which is advanced on its own, and all of them add to the one
list of solutions. With no decision variables there is one assignment, the empty
one, and no clause could exclude it, so the turn after it ends the enumeration.
-/

namespace SmtDialogue

/-- An error with the solutions that were found before it. -/
structure Interruption where
  /-- The error. -/
  error : SessionError
  /-- The solutions found before it. -/
  found : List Model := []

/-- An enumeration of the assignments of some variables. -/
structure Enumerator where
  /-- The decision variables. -/
  decisions : List Expr
  /-- The most solutions, if there is a limit. -/
  limit : Option Nat := none
  /-- The solutions handed out so far, oldest first. -/
  solutions : List Model := []
  /-- Whether nothing was left after the solutions. -/
  exhausted : Bool := false
  /-- Whether the limit was reached. -/
  limitReached : Bool := false

/-- The place of an iteration. -/
inductive Cursor where
  /-- Before the first turn. -/
  | fresh
  /-- After a solution was handed out that is still to be excluded. -/
  | handedOut (model : Model)
  /-- Ended. -/
  | ended

/-- What comes of a turn. -/
structure Turn where
  /-- The solution handed out, or none at the end, or an interruption. -/
  outcome : Except Interruption (Option Model)
  /-- The place after the turn. -/
  cursor : Cursor
  /-- The enumerator after the turn. -/
  enumerator : Enumerator
  /-- The session after the turn. -/
  session : Session

namespace Enumerator

/-- An enumerator over a collection of variables, with at most a number of
solutions if one is given. The refusal of a limit below zero shows it, if it can
be written. -/
def create (decisions : Operand) (limit : Option Int) : Except SessionError Enumerator :=
  match Expr.collect decisions with
  | .error cause => .error (.build cause)
  | .ok es =>
    match es.find? fun e => !e.isVariable with
    | some e => .error (.decisionOnNonVariable e.name)
    | none =>
      match limit with
      | none => .ok { decisions := es }
      | some n =>
        if 0 ≤ n then .ok { decisions := es, limit := some n.toNat }
        else if (Value.int n).isWritable then .error (.negativeLimit n)
        else .error (.build .valueTooLong)

/-- Whether the limit allows no further solution. -/
def atLimit (n : Enumerator) : Bool :=
  n.limit.any (· ≤ n.solutions.length)

/-- A turn that hands out nothing. -/
def stop (n : Enumerator) (s : Session) : Turn :=
  { outcome := .ok none, cursor := .ended, enumerator := n, session := s }

/-- A turn that an error ends. -/
def interrupt (n : Enumerator) (s : Session) (i : Interruption) : Turn :=
  { outcome := .error i, cursor := .ended, enumerator := n, session := s }

/-- The values of the decision variables. -/
def modelOf (n : Enumerator) : SessionM Model :=
  Session.model (some (.list (n.decisions.map .expr)))

/-- Looks for one more solution. -/
def seek (n : Enumerator) (s : Session) : Turn :=
  if n.atLimit then { n with limitReached := true }.stop s
  else
    match Session.check s with
    | (.error e, s) => n.interrupt s { error := e }
    | (.ok .unsat, s) => { n with exhausted := true }.stop s
    | (.ok .unknown, s) =>
      n.interrupt s { error := .undecided n.solutions.length, found := n.solutions }
    | (.ok .sat, s) =>
      match n.modelOf s with
      | (.error e, s) => n.interrupt s { error := e }
      | (.ok model, s) =>
        { outcome := .ok (some model)
          cursor := .handedOut model
          enumerator := { n with solutions := n.solutions ++ [model] }
          session := s }

/-- Asserts the clause that excludes a solution. -/
def exclude (n : Enumerator) (model : Model) : SessionM Unit := do
  match Enumeration.blockModel model n.decisions with
  | .ok clause => Session.assert clause
  | .error e => throw e

/-- One turn of an iteration. -/
def advance (n : Enumerator) (cursor : Cursor) (s : Session) : Turn :=
  match cursor with
  | .ended => n.stop s
  | .fresh => n.seek s
  | .handedOut model =>
    if n.decisions.isEmpty then { n with exhausted := true }.stop s
    else
      match n.exclude model s with
      | (.error e, s) => n.interrupt s { error := e }
      | (.ok (), s) => n.seek s

/-- The turns of an iteration up to its end or its first error, at most a given
number of them; none when there are more. The result lists the solutions handed
out. -/
def drain (rounds : Nat) (n : Enumerator) (cursor : Cursor) (s : Session)
    (handedOut : List Model) : Option (Turn × List Model) :=
  match rounds with
  | 0 => none
  | rounds + 1 =>
    let turn := n.advance cursor s
    match turn.outcome with
    | .ok (some model) =>
      drain rounds turn.enumerator turn.cursor turn.session (handedOut ++ [model])
    | _ => some (turn, handedOut)

/-- A new enumerator is over variables, has the limit that is given, and has found nothing
yet. -/
theorem eq_of_create {operand : Operand} {limit : Option Int} {n : Enumerator}
    (created : create operand limit = .ok n) :
    (∀ v ∈ n.decisions, v.isVariable = true) ∧ n.limit = limit.map Int.toNat ∧
      n.solutions = [] ∧ n.exhausted = false ∧ n.limitReached = false := by
  unfold create at created
  cases collected : Expr.collect operand with
  | error cause => simp [collected] at created
  | ok es =>
    cases other : es.find? fun e => !e.isVariable with
    | some e => simp [collected, other] at created
    | none =>
      have vars : ∀ v ∈ es, v.isVariable = true := by simpa using List.find?_eq_none.1 other
      simp only [collected, other] at created
      split at created
      · cases created
        exact ⟨vars, rfl, rfl, rfl, rfl⟩
      · split at created
        · cases created
          exact ⟨vars, rfl, rfl, rfl, rfl⟩
        · split at created <;> cases created

end Enumerator

end SmtDialogue
