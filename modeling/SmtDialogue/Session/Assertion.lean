import SmtDialogue.Session.Basic
import SmtDialogue.Smt.Command

/-!
# Assertions, scopes and checks

What is asserted is written in full before anything is sent, so that a refused
expression has no effect. What the last check found is forgotten whenever the
assertions change, and survives every refused operation.
-/

namespace SmtDialogue.Session

/-- Asserts an expression, with the declarations that it needs. The commands
are sent line by line. -/
def assert (e : Expr) : SessionM Unit := do
  requireRunning "assert"
  let (commands, declared) ← written (Smt.assertion (← get).declared e)
  modify fun s => { s with declared }
  sendAll (Text.lines (Smt.textOf commands))
  modify fun s => { s with status := none }

/-- Asserts several expressions. -/
def assertAll : List Expr → SessionM Unit
  | [] => pure ()
  | e :: es => do
    assert e
    assertAll es

/-- Asks whether what has been asserted is satisfiable. -/
def check : SessionM Status := do
  requireRunning "check satisfiability"
  let s ← get
  let response ← exchange (Channel.askStatus s.options.deadline)
  let status ← interpret (Answer.status s.name response)
  modify fun s => { s with status := some status }
  return status

/-- Opens a scope. What is declared and asserted in it lasts until it is
closed. -/
def push : SessionM Unit := do
  requireRunning "push"
  send Smt.Command.push.text
  modify fun s => { s with scopes := s.declared :: s.scopes, status := none }

/-- Closes the innermost scope. -/
def pop : SessionM Unit := do
  requireRunning "pop"
  match (← get).scopes with
  | [] => throw .noScope
  | saved :: outer =>
    send Smt.Command.pop.text
    modify fun s => { s with declared := saved, scopes := outer, status := none }

end SmtDialogue.Session
