import SmtDialogue.Session.Basic

/-!
# The life of a session

A session starts its solver when it is opened, says what kind of answers it
wants, and releases the solver when it is closed. A solver that cannot be
started leaves the session as it was created, so that opening can be tried
again; a fault in the first words closes it. Closing is always possible, does
nothing the second time, and leaves nothing running.
-/

namespace SmtDialogue.Session

/-- Releases the solver and closes the session for good. A running process is
asked to end first, a failed one is not. -/
def close (s : Session) : Session :=
  match s.phase with
  | .closed => s
  | .created => { s with phase := .closed, status := none }
  | .running channel =>
    { s with phase := .closed, status := none, trace := s.trace.addAll (channel.release true) }
  | .failed channel =>
    { s with phase := .closed, status := none, trace := s.trace.addAll (channel.release false) }

/-- Starts the solver. A solver that cannot be started leaves the session in its
phase. -/
def start (host : Host) : SessionM Unit := fun s =>
  match s.launch with
  | .process backend =>
    let argv := s.argv backend
    let exe := argv.headD ""
    if !host.world.canRun exe then (.error (.executableNotFound exe), s)
    else
      match host.launchError with
      | some reason => (.error (.launchFailed backend.name reason), s)
      | none =>
        (.ok (), { s with
          phase := .running (.process (host.started backend))
          trace := s.trace.add (.spawned argv) })
  | .inProcess =>
    let reply := InProcess.start host.binding s.options.deadline
    let s := { s with trace := s.trace.addAll reply.events }
    match reply.outcome with
    | .ok () => (.ok (), { s with phase := .running (.inProcess reply.state) })
    | .error fault => (.error (.fault fault), s)

/-- What is said to the solver before anything else. -/
def greet : SessionM Unit := do
  send Smt.Command.produceModels.text
  let logic := (← get).options.logic
  unless logic.isEmpty do
    send (Smt.Command.setLogic logic).text

/-- Starts the solver and makes the session running. A session that has been
opened before is refused; a fault at the start closes it. -/
def openOn (host : Host) : SessionM Unit := fun s =>
  match s.phase with
  | .created =>
    match start host s with
    | (.error e, s) => (.error e, s)
    | (.ok (), s) =>
      match greet s with
      | (.error e, s) => (.error e, s.close)
      | (.ok (), s) => (.ok (), s)
  | phase => (.error (.alreadyOpened phase.word), s)

/-- Opens the session unless it has been opened before. -/
def openIfNew (host : Host) : SessionM Unit := fun s =>
  match s.phase with
  | .created => openOn host s
  | _ => (.ok (), s)

/-- Opens a session, performs an operation on it, and closes it whatever comes
of the operation. -/
def during {α : Type} (host : Host) (body : SessionM α) : SessionM α := fun s =>
  match openOn host s with
  | (.error e, s) => (.error e, s)
  | (.ok (), s) =>
    let (outcome, s) := body s
    (outcome, s.close)

/-- A closed session stays as it is. -/
theorem close_of_closed {s : Session} (h : s.phase = .closed) : s.close = s := by
  simp [close, h]

/-- Closing ends in the closed phase. -/
@[simp] theorem phase_close (s : Session) : s.close.phase = .closed := by
  unfold close
  split
  · assumption
  · rfl
  · rfl
  · rfl

end SmtDialogue.Session
