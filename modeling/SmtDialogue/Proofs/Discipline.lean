import SmtDialogue.Proofs.Course
import SmtDialogue.Proofs.Scoping

/-!
# The discipline of sessions

A session fails or stays as it is. What the solver does wrong ends the dialogue,
so that nothing more can be asked; what is wrong with a request is found out
before anything is said, so that the session is the same as before
(`Operation.Disciplined`). This holds of every operation after any others, with
any solver (`Operation.disciplined_run`).

The one thing that could be found out late is a name that has no written form,
in a request for values after other requests. All declared names have one, and
so have those that were declared when scopes were opened (`Session.Writable`).
-/

namespace SmtDialogue

open Smt

/-! ## Kinds of errors -/

/-- Whether an error of this kind is the end of a dialogue: an answer that is
wrong, ends too early or does not come. -/
def ErrorKind.endsDialogue : ErrorKind → Bool
  | protocolError | incompleteInput | solverTimeout => true
  | _ => false

theorem Fault.kind_deadlineUnusable (deadline : Seconds) :
    (deadlineUnusable deadline).kind = .outOfRange ∨
      (deadlineUnusable deadline).kind = .wrongValue := by
  show (if deadline.isNumber then _ else _) = _ ∨ (if deadline.isNumber then _ else _) = _
  split
  · exact .inl rfl
  · exact .inr rfl

/-- The faults that end a dialogue are those of such a kind. -/
theorem Fault.endsDialogue_kind (fault : Fault) : fault.kind.endsDialogue = fault.endsDialogue := by
  cases fault with
  | deadlineUnusable deadline =>
    rcases kind_deadlineUnusable deadline with kind | kind
    · rw [kind]
      rfl
    · rw [kind]
      rfl
  | _ => rfl

/-- A fault is no refusal: it ends the dialogue, or is a limit and no condition
of the library's own. -/
theorem Fault.not_refusal (fault : Fault) {P : Prop} (own : fault.kind.isOwn = true)
    (goesOn : fault.kind.endsDialogue = false) : P := by
  cases fault with
  | numeralTooLong => cases own
  | deadlineUnusable deadline =>
    rcases kind_deadlineUnusable deadline with kind | kind
    · rw [kind] at own
      cases own
    · rw [kind] at own
      cases own
  | _ => cases goesOn

/-- Nothing but a fault ends a dialogue. -/
theorem SessionError.endsDialogue_kind {e : SessionError} (noFault : ∀ fault, e ≠ .fault fault) :
    e.kind.endsDialogue = false := by
  cases e with
  | fault cause => exact absurd rfl (noFault cause)
  | build cause => cases cause <;> rfl
  | write cause => cases cause <;> rfl
  | evaluation cause =>
    obtain ⟨op, given⟩ := cause
    cases op <;> rfl
  | _ => rfl

/-! ## Phases -/

/-- **How the phase of a session may change** in one operation. -/
inductive Phase.Moves : Phase → Phase → Prop
  /-- A session that has not been opened may stay so. -/
  | waits : Moves created created
  /-- It is opened. -/
  | opens (c : Channel) : Moves created (running c)
  /-- It is closed without having been opened, or as soon as it is opened. -/
  | givesUp : Moves created closed
  /-- The dialogue goes on. -/
  | goesOn (c c' : Channel) : Moves (running c) (running c')
  /-- The dialogue fails. -/
  | fails (c c' : Channel) : Moves (running c) (failed c')
  /-- A running session is closed. -/
  | ends (c : Channel) : Moves (running c) closed
  /-- A failed session may stay so. -/
  | lingers (c : Channel) : Moves (failed c) (failed c)
  /-- A failed session is closed. -/
  | releases (c : Channel) : Moves (failed c) closed
  /-- A closed session stays so. -/
  | rests : Moves closed closed

theorem Phase.Moves.refl (phase : Phase) : phase.Moves phase := by
  cases phase with
  | created => exact .waits
  | running c => exact .goesOn c c
  | failed c => exact .lingers c
  | closed => exact .rests

/-- **The discipline of an operation** on a session, by its outcome and the
session after it. -/
structure Operation.Disciplined (op : Operation) (s : Session)
    (r : Except SessionError Unit × Session) : Prop where
  /-- The phase changes as it may. -/
  moves : s.phase.Moves r.2.phase
  /-- A closed session stays as it is. -/
  closed : s.phase = .closed → r.2 = s
  /-- Without a dialogue there is nothing to be done in it, and nothing is. -/
  idle : op.IsInner → s.phase.isRunning = false →
    ∃ e, e.kind = .sessionState ∧ r = (.error e, s)
  /-- An error of the solver's fails a running session, which forgets what the
  last check found. -/
  failed : ∀ c e, s.phase = .running c → r.1 = .error e → e.kind.endsDialogue = true →
    (∃ c', r.2.phase = .failed c') ∧ r.2.status = none
  /-- A session that is not opened in the end is closed, unless its solver could
  not be started. -/
  opening : ∀ host e, op = .openOn host → s.phase = .created → r.1 = .error e →
    (Session.start host s).1 = .error e ∧ r.2.phase = .created ∨
      (Session.start host s).1 = .ok () ∧ r.2.phase = .closed ∧ r.2.status = none
  /-- Any other error of the library's own leaves the session as it is. -/
  refused : ∀ e, r.1 = .error e → e.kind.isOwn = true → e.kind.endsDialogue = false → r.2 = s

namespace Session

variable {s : Session} {c : Channel}

/-! ## Names that can be written -/

/-- Whether the names of all constants that are declared, or were when a scope
was opened, can be written. -/
structure Writable (s : Session) : Prop where
  /-- Those of the declared constants. -/
  declared : ∀ x ∈ s.declared.names, isWritable x = true
  /-- Those that have been saved. -/
  scopes : ∀ t ∈ s.scopes, ∀ x ∈ SortTable.names t, isWritable x = true

/-- What holds of a session whatever the solver has seen holds of it after a
course, if what is done with the result keeps it. -/
theorem Exchanged.preserves {α : Type} {texts : List String} {limits : Fault → Prop}
    {after : α → Session → Session → Prop} {r : Except SessionError α × Session}
    {P : Session → Prop} (course : Exchanged s c texts limits after r)
    (saying : ∀ c' events, P (s.saying c' events)) (fail : ∀ t, P t → P t.fail)
    (next : ∀ a t s', after a t s' → P t → P s') : P r.2 := by
  cases course with
  | done a c' events s' _ _ done same =>
    rw [same]
    exact next a _ s' done (saying c' events)
  | ended fault c' events part _ _ _ _ same =>
    rw [same]
    exact fail _ (saying c' events)
  | limited fault c' events part _ _ _ _ _ same =>
    rw [same]
    exact saying c' events

theorem Writable.fail (h : s.Writable) : s.fail.Writable := ⟨h.declared, h.scopes⟩

theorem Writable.close (h : s.Writable) : s.close.Writable := by
  unfold Session.close
  split
  · exact h
  all_goals exact ⟨h.declared, h.scopes⟩

theorem Writable.saying (h : s.Writable) (c : Channel) (events : List Event) :
    (s.saying c events).Writable := ⟨h.declared, h.scopes⟩

/-- What is declared for an assertion can be written. -/
theorem Writable.declaring (h : s.Writable) {e : Expr} {commands : List Command}
    {declared : SortTable} (accepted : assertion s.declared e = .ok (commands, declared)) :
    ({ s with declared } : Session).Writable := by
  obtain ⟨t, new, -, made, -, rfl⟩ := assertion_eq_ok_iff.1 accepted
  refine ⟨?_, h.scopes⟩
  show ∀ x ∈ (s.declared ++ new).names, _
  rw [SortTable.names_append]
  exact List.forall_mem_append.2 ⟨h.declared, (newDeclarations_spec made).writable⟩

/-! ## Running sessions -/

/-- **What an operation in a dialogue comes to**: it goes through or reaches a
limit, and the dialogue goes on; it fails by the solver; or it is refused, and
nothing has happened. -/
inductive Settled (s : Session) : Except SessionError Unit × Session → Prop
  /-- It goes through. -/
  | done {s' : Session} {c : Channel} (running : s'.phase = .running c) : Settled s (.ok (), s')
  /-- The dialogue fails. -/
  | failed {fault : Fault} {s' : Session} {c : Channel} (ends : fault.endsDialogue = true)
    (failed : s'.phase = .failed c) (forgotten : s'.status = none) :
    Settled s (.error (.fault fault), s')
  /-- A limit is reached. -/
  | limited {fault : Fault} {s' : Session} {c : Channel} (goesOn : fault.endsDialogue = false)
    (running : s'.phase = .running c) : Settled s (.error (.fault fault), s')
  /-- It is refused. -/
  | refused {e : SessionError} (noFault : ∀ fault, e ≠ .fault fault) : Settled s (.error e, s)

/-- What comes of a course, when what is done with the result leaves the phase
as it is. -/
theorem Exchanged.settled {s₀ : Session} {texts : List String} {limits : Fault → Prop}
    {after : Unit → Session → Session → Prop} {r : Except SessionError Unit × Session}
    (course : Exchanged s₀ c texts limits after r)
    (stays : ∀ t s', after () t s' → s'.phase = t.phase) : Settled s r := by
  cases course with
  | done a c' events s' _ _ next same =>
    rw [same]
    exact .done (stays _ s' next)
  | ended fault c' events part _ _ _ ends same =>
    rw [same]
    exact .failed ends rfl rfl
  | limited fault c' events part _ _ _ goesOn _ same =>
    rw [same]
    exact .limited goesOn rfl

/-- **An operation in a dialogue** settles, and its constants can be written. -/
theorem settled_run (h : s.Writable) (running : s.phase = .running c) {op : Operation}
    (inner : op.IsInner) : Settled s (op.run s) ∧ (op.run s).2.Writable := by
  cases op with
  | openOn | close => exact inner.elim
  | assert e =>
    rcases assert_course running e with ⟨cause, -, same⟩ | ⟨commands, declared, accepted, course⟩
    · rw [show Operation.run (.assert e) s = _ from same]
      exact ⟨.refused nofun, h⟩
    · have entered := h.declaring accepted
      refine ⟨course.settled fun t s' next => by rw [next],
        course.preserves (fun _ _ => entered.saying _ _) (fun _ h => h.fail) ?_⟩
      rintro - t s' rfl ⟨declared, scopes⟩
      exact ⟨declared, scopes⟩
  | check =>
    have course := (check_course running).forget
    refine ⟨course.settled fun t s' ⟨_, _, next⟩ => by rw [next],
      course.preserves (fun _ _ => h.saying _ _) (fun _ h => h.fail) ?_⟩
    rintro - t s' ⟨status, -, rfl⟩ ⟨declared, scopes⟩
    exact ⟨declared, scopes⟩
  | model vars =>
    rcases model_course running h.declared vars with ⟨e, noFault, -, same⟩ | ⟨-, requests, course⟩
    · rw [show Operation.run (.model vars) s = _ from SessionM.bind_of_error same _]
      exact ⟨.refused noFault, h⟩
    · refine ⟨course.forget.settled fun t s' ⟨_, _, next⟩ => by rw [next],
        course.forget.preserves (fun _ _ => h.saying _ _) (fun _ h => h.fail) ?_⟩
      rintro - t s' ⟨found, -, rfl⟩ writable
      exact writable
  | push =>
    have course := push_course running
    refine ⟨course.settled fun t s' next => by rw [next],
      course.preserves (fun _ _ => h.saying _ _) (fun _ h => h.fail) ?_⟩
    rintro - t s' rfl ⟨declared, scopes⟩
    exact ⟨declared, List.forall_mem_cons.2 ⟨declared, scopes⟩⟩
  | pop =>
    rcases pop_course running with ⟨-, same⟩ | ⟨saved, outer, opened, course⟩
    · rw [show Operation.run .pop s = _ from same]
      exact ⟨.refused nofun, h⟩
    · obtain ⟨declared, scopes⟩ := List.forall_mem_cons.1 (opened ▸ h.scopes)
      refine ⟨course.settled fun t s' next => by rw [next],
        course.preserves (fun _ _ => h.saying _ _) (fun _ h => h.fail) ?_⟩
      rintro - t s' rfl -
      exact ⟨declared, scopes⟩

/-! ## Opening and closing -/

/-- **What opening comes to**: the session runs; or its solver could not be
started, and it has not been opened; or it has been closed at once. -/
inductive Opening (host : Host) (s : Session) : Except SessionError Unit × Session → Prop
  /-- It runs. -/
  | opened {s' : Session} {c : Channel} (running : s'.phase = .running c)
    (kept : s'.status = s.status) : Opening host s (.ok (), s')
  /-- There is no solver. -/
  | unavailable {e : SessionError} (noFault : ∀ fault, e ≠ .fault fault)
    (unstarted : (start host s).1 = .error e) : Opening host s (.error e, s)
  /-- The solver cannot be given its deadline. -/
  | unusable {d : Seconds} {s' : Session} (waits : s'.phase = .created)
    (kept : s'.status = s.status)
    (unstarted : (start host s).1 = .error (.fault (.deadlineUnusable d))) :
    Opening host s (.error (.fault (.deadlineUnusable d)), s')
  /-- The first words fail. -/
  | closed {fault : Fault} {s' : Session} (started : (start host s).1 = .ok ())
    (closed : s'.phase = .closed) (forgotten : s'.status = none) :
    Opening host s (.error (.fault fault), s')

theorem status_close (opened : s.phase ≠ .closed) : s.close.status = none := by
  unfold Session.close
  split
  · next closed => exact absurd closed opened
  all_goals rfl

/-- Opening a session that has not been opened. -/
theorem openOn_cases (h : s.Writable) (created : s.phase = .created) (host : Host) :
    Opening host s (openOn host s) ∧ (openOn host s).2.Writable := by
  unfold openOn
  rw [created]
  dsimp only
  rcases start_cases host s with ⟨e, kind, started⟩ | ⟨d, events, -, started⟩ |
    ⟨c, events, -, started⟩
  · have noFault : ∀ fault, e ≠ .fault fault := by
      rintro fault rfl
      have kind : fault.kind = .solverUnavailable := kind
      exact fault.not_refusal (by rw [kind]; rfl) (by rw [kind]; rfl)
    rw [started]
    exact ⟨.unavailable noFault (by rw [started]), h⟩
  · rw [started]
    exact ⟨.unusable created rfl (by rw [started]), ⟨h.declared, h.scopes⟩⟩
  · rw [started]
    dsimp only
    have ready : (start host s).1 = .ok () := by rw [started]
    cases greet_course (s := s.saying c events) rfl with
    | done a c' more s' _ _ next same =>
      obtain rfl : s' = _ := next
      rw [same]
      exact ⟨.opened rfl rfl, ⟨h.declared, h.scopes⟩⟩
    | ended fault c' more part _ _ _ _ same =>
      rw [same]
      exact ⟨.closed ready (phase_close _) (status_close nofun), ⟨h.declared, h.scopes⟩⟩
    | limited fault c' more part _ _ _ _ _ same =>
      rw [same]
      exact ⟨.closed ready (phase_close _) (status_close nofun), ⟨h.declared, h.scopes⟩⟩

end Session

namespace Operation

open Session

variable {s : Session}

/-- A refusal keeps the discipline, if it is one of the session's state when
there is no dialogue. -/
theorem disciplined_of_refused {op : Operation} {e : SessionError}
    (noFault : ∀ fault, e ≠ .fault fault)
    (idle : op.IsInner → s.phase.isRunning = false → e.kind = .sessionState)
    (opening : ∀ host, op = .openOn host → s.phase = .created → (start host s).1 = .error e) :
    op.Disciplined s (.error e, s) where
  moves := .refl s.phase
  closed _ := rfl
  idle inner quiet := ⟨e, idle inner quiet, rfl⟩
  failed c e' _ same ends := by
    cases same
    exact absurd (ends.symm.trans (SessionError.endsDialogue_kind noFault)) (by decide)
  opening host e' opens created same := by
    cases same
    exact .inl ⟨opening host opens created, created⟩
  refused _ _ _ _ := rfl

/-- What settles keeps the discipline. -/
theorem disciplined_of_settled {op : Operation} {c : Channel} (running : s.phase = .running c)
    (inner : op.IsInner) {r : Except SessionError Unit × Session} (settled : Settled s r) :
    op.Disciplined s r := by
  have busy : s.phase.isRunning = true := by
    rw [running]
    rfl
  have idle {P : Prop} (quiet : s.phase.isRunning = false) : P :=
    absurd (busy.symm.trans quiet) (by decide)
  have other {P : Prop} {phase : Phase} (h : s.phase = phase) (apart : ∀ c, phase ≠ .running c) :
      P := absurd (h.symm.trans running) (apart c)
  cases settled with
  | refused noFault =>
    refine disciplined_of_refused noFault (fun _ => idle) fun host opens _ => ?_
    subst opens
    exact inner.elim
  | @done s' c' going =>
    refine ⟨?_, fun h => other h nofun, fun _ => idle, fun _ _ _ same => (by cases same),
      fun _ _ _ h => other h nofun, fun _ same => (by cases same)⟩
    rw [running, going]
    exact .goesOn c c'
  | @failed fault s' c' ends failed forgotten =>
    refine ⟨?_, fun h => other h nofun, fun _ => idle, fun _ _ _ _ _ => ⟨⟨c', failed⟩, forgotten⟩,
      fun _ _ _ h => other h nofun, fun e same own goesOn => ?_⟩
    · rw [running, failed]
      exact .fails c c'
    · cases same
      exact fault.not_refusal own goesOn
  | @limited fault s' c' goesOn going =>
    refine ⟨?_, fun h => other h nofun, fun _ => idle, fun _ e _ same ends => ?_,
      fun _ _ _ h => other h nofun, fun e same own goesOn => ?_⟩
    · rw [running, going]
      exact .goesOn c c'
    · cases same
      exact absurd (ends.symm.trans ((Fault.endsDialogue_kind fault).trans goesOn)) (by decide)
    · cases same
      exact fault.not_refusal own goesOn

/-- Opening keeps the discipline. -/
theorem disciplined_openOn (h : s.Writable) (host : Host) :
    (openOn host).Disciplined s ((openOn host).run s) := by
  show (openOn host).Disciplined s (Session.openOn host s)
  by_cases created : s.phase = .created
  · have opening := (openOn_cases h created host).1
    generalize Session.openOn host s = r at opening
    have other {P : Prop} {phase : Phase} (h : s.phase = phase) (apart : phase ≠ .created) : P :=
      absurd (h.symm.trans created) apart
    cases opening with
    | @unavailable e noFault unstarted =>
      refine disciplined_of_refused noFault False.elim fun _ opens _ => ?_
      cases opens
      exact unstarted
    | @opened s' c running kept =>
      refine ⟨?_, fun h => other h nofun, False.elim,
        fun _ _ _ same => (by cases same), fun _ _ _ _ same => (by cases same),
        fun _ same => (by cases same)⟩
      rw [created, running]
      exact .opens c
    | @unusable d s' waits kept unstarted =>
      refine ⟨?_, fun h => other h nofun, False.elim, fun _ _ h => other h nofun,
        fun host' e opens _ same => ?_, fun e same own goesOn => ?_⟩
      · rw [created, waits]
        exact .waits
      · cases opens
        cases same
        exact .inl ⟨unstarted, waits⟩
      · cases same
        exact (Fault.deadlineUnusable d).not_refusal own goesOn
    | @closed fault s' started closed forgotten =>
      refine ⟨?_, fun h => other h nofun, False.elim, fun _ _ h => other h nofun,
        fun host' e opens _ same => ?_, fun e same own goesOn => ?_⟩
      · rw [created, closed]
        exact .givesUp
      · cases opens
        exact .inr ⟨started, closed, forgotten⟩
      · cases same
        exact fault.not_refusal own goesOn
  · rw [openOn_of_opened created host]
    exact disciplined_of_refused nofun False.elim fun _ _ h => absurd h created

/-- So does closing. -/
theorem disciplined_close : close.Disciplined s (close.run s) := by
  show close.Disciplined s (.ok (), s.close)
  refine ⟨?_, Session.close_of_closed, False.elim, fun _ _ _ same => (by cases same),
    fun _ _ _ _ same => (by cases same), fun _ same => (by cases same)⟩
  show s.phase.Moves s.close.phase
  rw [phase_close]
  cases s.phase with
  | created => exact .givesUp
  | running c => exact .ends c
  | failed c => exact .releases c
  | closed => exact .rests

/-- **Every operation** on a session whose constants can be written keeps the
discipline. -/
theorem disciplined (h : s.Writable) (op : Operation) : op.Disciplined s (op.run s) := by
  rcases op.isInner_or with inner | ⟨host, rfl⟩ | rfl
  · cases phase : s.phase with
    | running c => exact disciplined_of_settled phase inner (settled_run h phase inner).1
    | created | failed | closed =>
      obtain ⟨operation, same⟩ := run_of_idle (by rw [phase]; rfl) inner
      rw [same]
      refine disciplined_of_refused nofun (fun _ _ => rfl) ?_
      rintro host rfl -
      exact inner.elim
  · exact disciplined_openOn h host
  · exact disciplined_close

end Operation

namespace Session

/-! ## Whole runs -/

/-- No operation makes the names of constants unwritable. -/
theorem Writable.run (h : s.Writable) (op : Operation) : (op.run s).2.Writable := by
  rcases op.isInner_or with inner | ⟨host, rfl⟩ | rfl
  · cases phase : s.phase with
    | running c => exact (settled_run h phase inner).2
    | created | failed | closed =>
      obtain ⟨operation, same⟩ := run_of_idle (by rw [phase]; rfl) inner
      rw [same]
      exact h
  · by_cases created : s.phase = .created
    · exact (openOn_cases h created host).2
    · rw [show (Operation.openOn host).run s = _ from openOn_of_opened created host]
      exact h
  · exact h.close

/-- A new session has declared nothing, and so after any operations all names
can be written. -/
theorem Writable.runAll (h : s.Writable) (ops : List Operation) :
    (Operation.runAll s ops).Writable := by
  induction ops generalizing s with
  | nil => exact h
  | cons op ops ih => exact ih (h.run op)

theorem writable_new (launch : Launch) (options : SessionOptions) :
    ({ launch, options } : Session).Writable := ⟨nofun, nofun⟩

end Session

/-- **The discipline of sessions.** Whatever a session has been through and
whatever its solver does, every operation keeps the discipline. -/
theorem Operation.disciplined_run (launch : Launch) (options : SessionOptions)
    (ops : List Operation) (op : Operation) :
    op.Disciplined (runAll { launch, options } ops) (op.run (runAll { launch, options } ops)) :=
  disciplined ((Session.writable_new launch options).runAll ops) op

/-- A solver that does not answer a check fails the session, and then nothing but
closing is left. -/
example : [[], [.openOn muteHost], [.openOn muteHost, .check], [.openOn muteHost, .check, .push],
    [.openOn muteHost, .check, .close]].map (fun ops => (Operation.runAll
      { launch := .process ⟨"z3", ["z3"]⟩, options := {} } ops).phase.word) =
    ["created", "running", "failed", "failed", "closed"] := by decide +kernel

end SmtDialogue
