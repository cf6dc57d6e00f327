import SmtDialogue.Session.Binding
import SmtDialogue.Session.Process

/-!
# Channels

The solver at the other end of a dialogue, a process or an in-process solver,
behind the same three exchanges: a command without an answer, a check, and a
request for values.
-/

namespace SmtDialogue

/-- What a session talks to: a process or an in-process solver. -/
inductive Channel where
  /-- A process. -/
  | process (p : Process)
  /-- An in-process solver. -/
  | inProcess (b : InProcess)

namespace Channel

/-- Sends a command that has no answer. -/
def send (command : String) : Channel → Reply Channel Unit
  | process p => (p.send command).mapState process
  | inProcess b => (b.send command).mapState inProcess

/-- Asks for satisfiability. -/
def askStatus (deadline : Option Seconds) : Channel → Reply Channel String
  | process p => (p.ask deadline Smt.Command.checkSat.text).mapState process
  | inProcess b => b.check.mapState inProcess

/-- Asks for the values of some constants of the given sorts. -/
def askValues (deadline : Option Seconds) (sorts : SortTable) (names : List String) :
    Channel → Reply Channel String
  | process p => (p.ask deadline (Smt.Command.getValue names).text).mapState process
  | inProcess b => { outcome := .ok (b.valuesText sorts names), state := inProcess b }

/-- Releases the solver; the events of doing so. -/
def release (graceful : Bool) : Channel → List Event
  | process p => (p.stop graceful).2
  | inProcess _ => []

end Channel

end SmtDialogue
