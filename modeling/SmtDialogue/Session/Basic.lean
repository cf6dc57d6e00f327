import SmtDialogue.Session.Channel
import SmtDialogue.Session.Error
import SmtDialogue.Solver.Backend

/-!
# Sessions

A session is one dialogue with one solver. It is created, opened once, runs
until it fails or is closed, and in the end is closed for good:

* *created*: no solver yet;
* *running*: the solver takes commands and answers;
* *failed*: a fault has ended the dialogue, and the solver is still to be
  released;
* *closed*: the solver has been released.

The solver is held exactly in the two middle phases, and so it is part of them.

Operations are functions from a session to an outcome and a session. A fault
that ends the dialogue ends the running phase; any other error leaves the phase
and the status as they were.
Everything that the solver has seen is kept in the session's trace.
-/

namespace SmtDialogue

/-- The phase of a session, with the solver while it is held. -/
inductive Phase where
  /-- Not opened yet. -/
  | created
  /-- In dialogue with a solver. -/
  | running (channel : Channel)
  /-- Ended by a fault. -/
  | failed (channel : Channel)
  /-- Closed. -/
  | closed

/-- The word for a phase. -/
def Phase.word : Phase → String
  | created => "created"
  | running _ => "running"
  | failed _ => "failed"
  | closed => "closed"

/-- Whether the session is in dialogue. -/
def Phase.isRunning : Phase → Bool
  | running _ => true
  | _ => false

/-- How the solver of a session is started. -/
inductive Launch where
  /-- As a process. -/
  | process (backend : Backend)
  /-- In the same process. -/
  | inProcess
deriving DecidableEq, Repr

/-- What a session finds when it starts its solver. -/
structure Host where
  /-- The executables that are there. -/
  world : World
  /-- Why no process can be started, if so. -/
  launchError : Option String := none
  /-- How a process behaves. -/
  behaviour : Behaviour
  /-- How the ends of the lines that a process prints arrive. -/
  newlines : Newlines := .universal
  /-- How an in-process solver behaves. -/
  binding : Binding

/-- The process of a backend as it is started. -/
def Host.started (host : Host) (backend : Backend) : Process :=
  { solver := backend.name, behaviour := host.behaviour, newlines := host.newlines }

/-- A session. -/
structure Session where
  /-- How its solver is started. -/
  launch : Launch
  /-- Its options. -/
  options : SessionOptions
  /-- Its phase. -/
  phase : Phase := .created
  /-- The constants declared so far, in the scopes that are open. -/
  declared : SortTable := []
  /-- For each open scope the constants declared when it was opened, innermost
  first. -/
  scopes : List SortTable := []
  /-- What the last check found, as long as that is still true. -/
  status : Option Status := none
  /-- What its solver has seen. -/
  trace : History := .empty

/-- An operation on a session. -/
abbrev SessionM := ExceptT SessionError (StateM Session)

namespace SessionM

variable {α β : Type}

/-- One operation after another goes on from the session that the first leaves,
unless the first ends in an error. -/
theorem bind_apply (x : SessionM α) (f : α → SessionM β) (s : Session) :
    (x >>= f) s =
      match x s with
      | (.ok a, s') => f a s'
      | (.error e, s') => (.error e, s') := by
  show ExceptT.bindCont f (x s).1 (x s).2 = _
  rcases x s with ⟨_ | _, _⟩ <;> rfl

@[simp] theorem pure_apply (a : α) (s : Session) : (pure a : SessionM α) s = (.ok a, s) := rfl

@[simp] theorem throw_apply (e : SessionError) (s : Session) :
    (throw e : SessionM α) s = (.error e, s) := rfl

@[simp] theorem get_apply (s : Session) : (get : SessionM Session) s = (.ok s, s) := rfl

@[simp] theorem modify_apply (f : Session → Session) (s : Session) :
    (modify f : SessionM Unit) s = (.ok (), f s) := rfl

end SessionM

namespace Session

/-- The name of the session, as messages give it. -/
def name (s : Session) : String :=
  match s.launch with
  | .process backend => backend.name
  | .inProcess => Backend.inProcess

/-- The command line of the session's process. -/
def argv (s : Session) (backend : Backend) : List String :=
  backend.argv ++ s.options.extraArgs

/-- A session that has not been opened, for a solver by its name, or for the
default one when the name is empty. -/
def create (world : World) (solver : String) (options : SessionOptions) : Session :=
  let solver := if solver.isEmpty then world.defaultSolver else solver
  if solver == Backend.inProcess then { launch := .inProcess, options }
  else { launch := .process (Backend.resolve solver options.command), options }

/-! ## Exchanges with the solver -/

/-- Refuses an operation unless the session is running. -/
def requireRunning (operation : String) : SessionM Unit := fun s =>
  if s.phase.isRunning then (.ok (), s)
  else (.error (.notRunning operation s.name s.phase.word), s)

/-- The session after a fault: what it held is still to be released, and what
the last check found is forgotten. -/
def fail (s : Session) : Session :=
  { s with
    phase := match s.phase with
      | .running channel => .failed channel
      | other => other
    status := none }

/-- Gives up an operation, and with it the dialogue when the fault ends
that. -/
def giveUp {α : Type} (fault : Fault) : SessionM α := fun s =>
  (.error (.fault fault), if fault.endsDialogue then s.fail else s)

/-- One exchange with the solver of a running session. A fault may end the
running phase. -/
def exchange {α : Type} (act : Channel → Reply Channel α) : SessionM α := fun s =>
  match s.phase with
  | .running channel =>
    let reply := act channel
    let s := { s with phase := .running reply.state, trace := s.trace.addAll reply.events }
    match reply.outcome with
    | .ok a => (.ok a, s)
    | .error fault => giveUp fault s
  | _ => (.error (.notRunning "send" s.name s.phase.word), s)

/-- The interpretation of an answer. A fault may end the running phase as
well. -/
def interpret {α : Type} : Except Fault α → SessionM α
  | .ok a => pure a
  | .error fault => giveUp fault

/-- Sends a command that has no answer. -/
def send (command : String) : SessionM Unit :=
  exchange (Channel.send command)

/-- Sends several commands that have no answer. -/
def sendAll : List String → SessionM Unit
  | [] => pure ()
  | command :: rest => do
    send command
    sendAll rest

/-- A construction inside an operation. -/
def built {α : Type} : Except BuildError α → SessionM α
  | .ok a => pure a
  | .error cause => throw (.build cause)

/-- A piece of writing inside an operation. -/
def written {α : Type} : Except WriteError α → SessionM α
  | .ok a => pure a
  | .error cause => throw (.write cause)

/-- Whoever runs has a solver. -/
theorem exists_of_isRunning {s : Session} (h : s.phase.isRunning = true) :
    ∃ c, s.phase = .running c := by
  cases phase : s.phase with
  | running c => exact ⟨c, rfl⟩
  | created | failed | closed =>
    rw [phase] at h
    cases h

/-- An operation that needs a running session changes no other one. -/
theorem requireRunning_of_not {operation : String} {s : Session} (h : s.phase.isRunning = false) :
    requireRunning operation s = (.error (.notRunning operation s.name s.phase.word), s) := by
  simp [requireRunning, h]

end Session

end SmtDialogue
