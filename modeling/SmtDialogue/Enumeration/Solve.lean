import SmtDialogue.Enumeration.Enumerator
import SmtDialogue.Expr.Graph
import SmtDialogue.Session.LifeCycle

/-!
# Solving

Two ways to use a session once and close it: finding all assignments of some
variables that satisfy given constraints, and deciding the constraints once,
with the values of a model stored in their nodes.
-/

namespace SmtDialogue

/-- The result of finding all solutions. -/
structure Enumeration where
  /-- The solutions. -/
  solutions : List Model := []
  /-- Whether there are no others. -/
  exhausted : Bool := false
  /-- Whether the search stopped at its limit. -/
  limitReached : Bool := false

namespace Enumeration

/-- What an enumerator has found. -/
def ofEnumerator (n : Enumerator) : Enumeration :=
  { solutions := n.solutions, exhausted := n.exhausted, limitReached := n.limitReached }

/-- The number of solutions. -/
def size (e : Enumeration) : Nat :=
  e.solutions.length

/-- How the search ended, in words. -/
def ending (e : Enumeration) : String :=
  if e.exhausted then "complete" else if e.limitReached then "limit reached" else "partial"

/-- The result in words. -/
def summary (e : Enumeration) : String :=
  s!"{e.size} solutions ({e.ending})"

end Enumeration

/-- What ends a search after some solutions. An error of the library's own
carries them, any other error carries nothing. -/
def Interruption.ofSearch (error : SessionError) (solutions : List Model) : Interruption :=
  { error, found := if error.kind.isOwn then solutions else [] }

namespace Solve

/-- The search for all solutions in an open session, in at most a given number
of rounds. -/
def search (rounds : Nat) (constraints decisions : Operand) (limit : Option Int) (s : Session) :
    Option (Except Interruption Enumeration) × Session :=
  let prepare : SessionM Enumerator := do
    Session.assertAll (← Session.built (Expr.collect constraints))
    match Enumerator.create decisions limit with
    | .ok n => return n
    | .error e => throw e
  match prepare s with
  | (.error e, s) => (some (.error { error := e }), s)
  | (.ok n, s) =>
    match n.drain rounds .fresh s [] with
    | none => (none, s)
    | some (turn, _) =>
      match turn.outcome with
      | .error i => (some (.error (.ofSearch i.error turn.enumerator.solutions)), turn.session)
      | .ok _ => (some (.ok (.ofEnumerator turn.enumerator)), turn.session)

/-- All assignments of some variables that satisfy some constraints, found in a
session that is opened for it and closed after it. An error of the library's own
carries the solutions found before it. No result means that the given number of
rounds did not suffice. -/
def allSolutions (rounds : Nat) (host : Host) (constraints decisions : Operand)
    (limit : Option Int) (s : Session) : Option (Except Interruption Enumeration) × Session :=
  match Session.openOn host s with
  | (.error e, s) => (some (.error { error := e }), s)
  | (.ok (), s) =>
    let (result, s) := search rounds constraints decisions limit s
    (result, s.close)

/-- Decides some constraints; the values of their variables come with a
satisfiable result. -/
def decideAll (constraints : List Expr) : SessionM (Status × Option Model) := do
  Session.assertAll constraints
  let status ← Session.check
  if status == .sat then
    let values ← Session.model (some (.list ((Expr.vars constraints).map .expr)))
    return (status, some values)
  else return (status, none)

/-- Decides some constraints in a session that is opened for it and closed
after it. When they are satisfiable, the values of a model are stored in their
nodes; for a constraint that has no value this ends in an error. -/
def sat (host : Host) (constraints : Operand) (g : Graph) (s : Session) :
    Except SessionError Status × Graph × Session :=
  match Expr.collect constraints with
  | .error cause => (.error (.build cause), g, s)
  | .ok roots =>
    match Session.during host (decideAll roots) s with
    | (.error e, s) => (.error e, g, s)
    | (.ok (status, none), s) => (.ok status, g, s)
    | (.ok (status, some values), s) =>
      match g.assign values.toAssignment roots with
      | (.ok (), g) => (.ok status, g, s)
      | (.error cause, g) => (.error (.evaluation cause), g, s)

end Solve

end SmtDialogue
