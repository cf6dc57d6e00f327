import SmtDialogue.Smt.SortTable
import SmtDialogue.Solver.Fault

/-!
# Events

What can be seen of a dialogue from the solver's side: that a process has been
started, which commands it has taken and that it has been killed; and for an
in-process solver, the calls made on it. An operation that the solver refuses
is no event.
-/

namespace SmtDialogue

/-- One thing that a solver has seen. -/
inductive Event where
  /-- A process has been started with a command line. -/
  | spawned (argv : List String)
  /-- A process has taken a command. -/
  | written (command : String)
  /-- A process has been killed. -/
  | killed
  /-- An in-process solver has been made. -/
  | solverMade
  /-- An in-process solver has been made for a logic. -/
  | solverMadeFor (logic : String)
  /-- An in-process solver has been given a deadline. -/
  | deadlineSet (milliseconds : Int)
  /-- An in-process solver has taken an assertion, with the constants that it
  could use. -/
  | asserted (command : String) (constants : SortTable)
  /-- An in-process solver has opened a scope. -/
  | pushed
  /-- An in-process solver has closed a scope. -/
  | popped
  /-- An in-process solver has been asked for satisfiability. -/
  | checked
deriving DecidableEq, Repr

/-- What comes of an operation on a solver: its outcome, the solver after it and
the events on the way. A fault keeps the events before it. -/
structure Reply (σ α : Type) where
  /-- The result, or the fault that ends the dialogue. -/
  outcome : Except Fault α
  /-- The solver after the operation. -/
  state : σ
  /-- The events, oldest first. -/
  events : List Event := []

namespace Reply

variable {σ τ α β : Type}

/-- One operation after another, unless the first has a fault. -/
def andThen (r : Reply σ α) (next : α → σ → Reply σ β) : Reply σ β :=
  match r.outcome with
  | .error fault => { outcome := .error fault, state := r.state, events := r.events }
  | .ok a =>
    let s := next a r.state
    { s with events := r.events ++ s.events }

/-- After a fault nothing more happens. -/
theorem andThen_of_error {r : Reply σ α} {fault : Fault} (h : r.outcome = .error fault)
    (next : α → σ → Reply σ β) :
    r.andThen next = { outcome := .error fault, state := r.state, events := r.events } := by
  simp [andThen, h]

/-- The events of one operation after another are those of both, in order. -/
theorem andThen_of_ok {r : Reply σ α} {a : α} (h : r.outcome = .ok a)
    (next : α → σ → Reply σ β) :
    r.andThen next =
      { next a r.state with events := r.events ++ (next a r.state).events } := by
  simp [andThen, h]

/-- The reply about a part as a reply about the whole. -/
def mapState (f : σ → τ) (r : Reply σ α) : Reply τ α :=
  { outcome := r.outcome, state := f r.state, events := r.events }

@[simp] theorem outcome_mapState (f : σ → τ) (r : Reply σ α) :
    (r.mapState f).outcome = r.outcome := rfl

@[simp] theorem events_mapState (f : σ → τ) (r : Reply σ α) :
    (r.mapState f).events = r.events := rfl

end Reply

end SmtDialogue
