import SmtDialogue.Proofs.Dialogue

/-!
# Dialogues are well scoped

Whatever is done with a session whose solver is a process, in whatever order and
with whatever outcome, the commands that the process has taken can be replayed
(`replay_commands`): no scope is closed that has not been opened, no constant is
declared that is live, and what is asserted or asked for is well sorted over the
constants that are live then. While the session is running, what it believes to
be declared, and to have been declared when scopes were opened, is what the
replay gives.

The process may behave in any way. Nothing is asked of the operations but that
expressions have been made by the constructors, and that the names of their
variables hold no line separator.
-/

namespace SmtDialogue

open Smt

open Smt.Scopes (replay)

/-- An operation on a session, with all that its caller gives. -/
inductive Operation where
  /-- Opens the session. -/
  | openOn (host : Host)
  /-- Asserts an expression. -/
  | assert (e : Expr)
  /-- Asks for satisfiability. -/
  | check
  /-- Asks for the values of variables. -/
  | model (vars : Option Operand)
  /-- Opens a scope. -/
  | push
  /-- Closes a scope. -/
  | pop
  /-- Closes the session. -/
  | close

namespace Operation

/-- An operation on a session. -/
def run : Operation → SessionM Unit
  | openOn host => Session.openOn host
  | assert e => Session.assert e
  | check => Session.check >>= fun _ => pure ()
  | model vars => Session.model vars >>= fun _ => pure ()
  | push => Session.push
  | pop => Session.pop
  | close => fun s => (.ok (), s.close)

/-- Whether an operation is part of the dialogue: any but opening and closing. -/
def IsInner : Operation → Prop
  | openOn _ | close => False
  | _ => True

theorem isInner_or (op : Operation) : op.IsInner ∨ (∃ host, op = openOn host) ∨ op = close := by
  cases op with
  | openOn host => exact .inr (.inl ⟨host, rfl⟩)
  | close => exact .inr (.inr rfl)
  | _ => exact .inl trivial

/-- What is asked of an operation: asserted expressions have been made by the
constructors, and no variable has a line separator in its name. -/
def WellFormed : Operation → Prop
  | assert e => e.Built ∧ ∀ x ∈ e.variableNames, Text.BreakFree x
  | _ => True

/-- The session after some operations, whatever has come of them. -/
def runAll (s : Session) (ops : List Operation) : Session :=
  ops.foldl (fun s op => (op.run s).2) s

end Operation

/-- Whether the solver is a process and the events are about it: the commands
among them are those that it has taken. -/
def Recorded (trace : History) (c : Channel) : Prop :=
  ∃ p, c = .process p ∧ trace.commands = p.history.commands

/-- Exchanges with a process are recorded. -/
theorem stable_recorded (deadline : Option Seconds) : Channel.Stable deadline Recorded where
  send := by
    rintro trace _ text - ⟨p, rfl, same⟩
    refine ⟨(p.send text).state, rfl, ?_⟩
    rw [History.commands_addAll, same, p.history_send]
    rfl
  status := by
    rintro trace _ ⟨p, rfl, same⟩
    refine ⟨(p.ask deadline Command.checkSat.text).state, rfl, ?_⟩
    rw [History.commands_addAll, same, p.history_ask]
    rfl
  values := by
    rintro trace _ sorts names ⟨p, rfl, same⟩
    refine ⟨(p.ask deadline (Command.getValue names).text).state, rfl, ?_⟩
    rw [History.commands_addAll, same, p.history_ask]
    rfl

namespace Session

/-- **What holds of a session with a process between operations**, by its
phase. -/
def Speaking (s : Session) : Prop :=
  match s.phase with
  | .created => (∃ backend, s.launch = .process backend) ∧ s.declared = [] ∧ s.scopes = [] ∧
      s.trace.commands = []
  | .running _ => ∃ deadline scopes, s.InStep deadline Recorded scopes
  | .failed _ => s.Broken Recorded
  | .closed => ∃ scopes, replay s.trace.commands = some scopes

variable {s : Session} {scopes : Scopes}

theorem InStep.speaking {deadline : Option Seconds} (h : s.InStep deadline Recorded scopes) :
    s.Speaking := by
  obtain ⟨c, running, -⟩ := h.heard
  unfold Speaking
  rw [running]
  exact ⟨deadline, scopes, h⟩

theorem Broken.speaking (h : s.Broken Recorded) : s.Speaking := by
  obtain ⟨c, -, -, failed, -⟩ := id h
  unfold Speaking
  rw [failed]
  exact h

theorem Leads.speaking {α : Type} {deadline : Option Seconds} {after : α → Scopes → Prop}
    {r : Except SessionError α × Session} (h : Leads deadline Recorded scopes after r) :
    r.2.Speaking := by
  rcases r with ⟨_ | a, s'⟩
  · exact h.elim InStep.speaking Broken.speaking
  · obtain ⟨scopes', -, next⟩ := h
    exact next.speaking

/-- An operation whose result is of no interest. -/
theorem Leads.forget {α : Type} {deadline : Option Seconds} {kept : History → Channel → Prop}
    {x : SessionM α}
    (h : Leads deadline kept scopes (fun _ scopes' => scopes' = scopes) (x s)) :
    Leads deadline kept scopes (fun _ scopes' => scopes' = scopes)
      ((x >>= fun _ => pure ()) s) :=
  h.bind fun _ _ _ next => ⟨scopes, rfl, next⟩

/-- Releasing a process says nothing more than that it should end. -/
theorem commands_release (p : Process) (graceful : Bool) :
    ((Channel.process p).release graceful).filterMap Event.command? = [] ∨
      ((Channel.process p).release graceful).filterMap Event.command? = [Command.exit.text] := by
  show ((p.stop graceful).2).filterMap _ = [] ∨ ((p.stop graceful).2).filterMap _ = _
  unfold Process.stop
  split
  · rcases p.send_cases "(exit)" with ⟨reason, h⟩ | ⟨r, -, h⟩
    · rw [h]
      left
      simp [Process.commands_kill]
    · rw [h]
      right
      simp [Process.commands_kill, Event.command?]
      rfl
  · left
    simp [Process.commands_kill]

/-- What has been said can be replayed after the release as well. -/
theorem exists_replay_release {p : Process} {trace : History} {pending : SortTable}
    (heard : (Channel.process p).Heard scopes pending)
    (same : trace.commands = p.history.commands) (graceful : Bool) :
    ∃ scopes, replay (trace.addAll ((Channel.process p).release graceful)).commands =
      some scopes := by
  have replayed : replay trace.commands = some (scopes.declaring pending) := by
    rw [same]
    exact heard
  rw [History.commands_addAll]
  rcases commands_release p graceful with none | exit
  · rw [none, List.append_nil]
    exact ⟨_, replayed⟩
  · rw [exit, Scopes.replay_text replayed (c := .exit) trivial]
    exact ⟨_, rfl⟩

/-- A closed session. -/
theorem Speaking.close (h : s.Speaking) : s.close.Speaking := by
  unfold Speaking at h
  unfold Session.close
  cases phase : s.phase with
  | closed =>
    unfold Speaking
    rw [phase] at h ⊢
    exact h
  | created =>
    rw [phase] at h
    exact ⟨{}, by rw [show ({ s with phase := .closed, status := none } : Session).trace.commands =
      [] from h.2.2.2]; rfl⟩
  | running c =>
    rw [phase] at h
    obtain ⟨deadline, scopes, inStep⟩ := h
    obtain ⟨c', running, heard, p, rfl, same⟩ := inStep.heard
    obtain rfl := Phase.running.inj (phase.symm.trans running)
    exact exists_replay_release heard same true
  | failed c =>
    rw [phase] at h
    obtain ⟨c', scopes, pending, failed, heard, p, rfl, same⟩ := h
    obtain rfl := Phase.failed.inj (phase.symm.trans failed)
    exact exists_replay_release heard same false

/-- An operation that needs a running session leaves any other as it is. -/
theorem requireRunning_bind {α : Type} {operation : String} (idle : s.phase.isRunning = false)
    (f : Unit → SessionM α) :
    (requireRunning operation >>= f) s =
      (.error (.notRunning operation s.name s.phase.word), s) :=
  SessionM.bind_of_error (requireRunning_of_not idle) f

/-- An operation other than opening and closing is about running sessions. -/
theorem run_of_idle (idle : s.phase.isRunning = false) {op : Operation} (inner : op.IsInner) :
    ∃ operation, op.run s = (.error (.notRunning operation s.name s.phase.word), s) := by
  cases op with
  | openOn | close => exact inner.elim
  | assert | push | pop => exact ⟨_, requireRunning_bind idle _⟩
  | check | model => exact ⟨_, SessionM.bind_of_error (requireRunning_bind idle _) _⟩

/-- A session is opened once. -/
theorem openOn_of_opened (opened : s.phase ≠ .created) (host : Host) :
    Session.openOn host s = (.error (.alreadyOpened s.phase.word), s) := by
  unfold Session.openOn
  cases phase : s.phase with
  | created => exact absurd phase opened
  | running | failed | closed => rfl

/-- Opening a session. -/
theorem Speaking.openOn (h : s.Speaking) (host : Host) : (openOn host s).2.Speaking := by
  by_cases created : s.phase = .created
  · unfold Speaking at h
    rw [created] at h
    obtain ⟨⟨backend, launch⟩, declared, saved, silent⟩ := h
    have starts : ∀ c s', start host s = (.ok (), s') → s'.phase = .running c →
        Recorded s'.trace c := by
      intro c s' started running
      unfold start at started
      simp only [launch] at started
      split at started
      · cases started
      · split at started
        · cases started
        · cases started
          obtain rfl := Phase.running.inj running
          refine ⟨_, rfl, ?_⟩
          show (s.trace.addAll [_]).commands = _
          rw [History.commands_addAll, silent]
          rfl
    have opened := openOn_leads (stable_recorded s.options.deadline) created
      ⟨rfl, declared, saved⟩ starts
    rcases hs : Session.openOn host s with ⟨e | ⟨⟩, s'⟩
    · rw [hs] at opened
      rcases opened with unstarted | ⟨s'', rfl, before⟩
      · have same : s' = s := by
          unfold start at unstarted
          simp only [launch] at unstarted
          split at unstarted
          · cases unstarted
            rfl
          · split at unstarted <;> cases unstarted
            rfl
        rw [same]
        unfold Speaking
        rw [created]
        exact ⟨⟨backend, launch⟩, declared, saved, silent⟩
      · exact (before.elim InStep.speaking Broken.speaking).close
    · rw [hs] at opened
      exact opened.speaking
  · rw [openOn_of_opened created host]
    exact h

/-- **One operation** keeps the session speaking well. -/
theorem Speaking.run (h : s.Speaking) {op : Operation} (wellFormed : op.WellFormed) :
    (op.run s).2.Speaking := by
  have stable := stable_recorded
  -- by phase: a running session is in step, and only opening and closing change any other
  cases phase : s.phase with
  | running c =>
    have inStep := h
    unfold Speaking at inStep
    rw [phase] at inStep
    obtain ⟨deadline, scopes, inStep⟩ := inStep
    cases op with
    | openOn host => exact h.openOn host
    | close => exact h.close
    | assert e => exact (inStep.assert (stable _) wellFormed.1 wellFormed.2).speaking
    | push => exact (inStep.push (stable _)).speaking
    | pop => exact (inStep.pop (stable _)).speaking
    | check => exact (inStep.check (stable _)).forget.speaking
    | model vars => exact (inStep.model (stable _) vars).forget.speaking
  | created | failed | closed =>
    have idle : s.phase.isRunning = false := by
      rw [phase]
      rfl
    rcases op.isInner_or with inner | ⟨host, rfl⟩ | rfl
    · obtain ⟨operation, same⟩ := run_of_idle idle inner
      rw [same]
      exact h
    · exact h.openOn host
    · exact h.close

/-- **Any operations** keep the session speaking well. -/
theorem Speaking.runAll (h : s.Speaking) {ops : List Operation}
    (wellFormed : ∀ op ∈ ops, op.WellFormed) : (Operation.runAll s ops).Speaking := by
  induction ops generalizing s with
  | nil => exact h
  | cons op ops ih =>
    exact ih (h.run (wellFormed op List.mem_cons_self)) fun op' hop =>
      wellFormed op' (List.mem_cons_of_mem _ hop)

/-- What has been said can be replayed, and gives what a running session
believes. -/
theorem Speaking.exists_replay (h : s.Speaking) :
    ∃ scopes, replay s.trace.commands = some scopes ∧
      (s.phase.isRunning = true → scopes.live = s.declared ∧ scopes.saved = s.scopes) := by
  unfold Speaking at h
  cases phase : s.phase with
  | created =>
    rw [phase] at h
    exact ⟨{}, by rw [h.2.2.2]; rfl, nofun⟩
  | running c =>
    rw [phase] at h
    obtain ⟨deadline, scopes, inStep⟩ := h
    obtain ⟨c', -, heard, p, rfl, same⟩ := inStep.heard
    refine ⟨scopes, ?_, fun _ => ⟨inStep.live, inStep.saved⟩⟩
    rw [same, ← scopes.declaring_nil]
    exact heard
  | failed c =>
    rw [phase] at h
    obtain ⟨c', scopes, pending, -, heard, p, rfl, same⟩ := h
    refine ⟨scopes.declaring pending, ?_, nofun⟩
    rw [same]
    exact heard
  | closed =>
    rw [phase] at h
    obtain ⟨scopes, replayed⟩ := h
    exact ⟨scopes, replayed, nofun⟩

end Session

/-- **Every run of a session speaks well-scoped commands.** After any operations
on a session with a process, whatever the process does and whatever comes of the
operations, the commands that the process has taken can be replayed; and while
the session is running, the constants that are live in the replay are those
that the session believes to be declared, in the same order, what was live when
each open scope was opened is what the session has saved, and so there are as
many open scopes as saved tables. -/
theorem replay_commands (backend : Backend) (options : SessionOptions) (ops : List Operation)
    (wellFormed : ∀ op ∈ ops, op.WellFormed) :
    let s := Operation.runAll { launch := .process backend, options } ops
    ∃ scopes, replay s.trace.commands = some scopes ∧
      (s.phase.isRunning = true → scopes.live = s.declared ∧ scopes.saved = s.scopes ∧
        scopes.outer.length = s.scopes.length) := by
  have fresh : Session.Speaking { launch := .process backend, options } :=
    ⟨⟨backend, rfl⟩, rfl, rfl, rfl⟩
  obtain ⟨scopes, replayed, believed⟩ := (fresh.runAll wellFormed).exists_replay
  refine ⟨scopes, replayed, fun running => ?_⟩
  obtain ⟨live, saved⟩ := believed running
  exact ⟨live, saved, by rw [← saved, Scopes.length_saved]⟩

/-- A host on which a process takes everything and says nothing. -/
def muteHost : Host where
  world := { executables := ["z3"] }
  behaviour := fun _ _ => .taken {}
  binding :=
    { verdict := fun _ => .unknown ""
      value := fun _ _ _ => .other ""
      rejection := fun _ _ => none }

/-- A session in which a variable is declared in a scope, and again at another
sort when the scope has been closed. -/
def redeclaring : List Operation :=
  [.openOn muteHost, .push, .assert (.var "x" (some .bool)), .pop, .pop,
   .assert (.node ⟨.le, "le_x_x", none, none, none⟩ [.var "x" none, .var "x" none])]

theorem replay_redeclaring :
    let s := Operation.runAll { launch := .process ⟨"z3", ["z3"]⟩, options := {} } redeclaring
    ∃ scopes, replay s.trace.commands = some scopes ∧
      (s.phase.isRunning = true → scopes.live = s.declared ∧ scopes.saved = s.scopes ∧
        scopes.outer.length = s.scopes.length) := by
  refine replay_commands _ _ redeclaring ?_
  have bool : (Expr.var "x" (some .bool)).Built := .var _ _ _ _
  have untyped : (Expr.var "x" none).Built := .var _ _ _ _
  have atMost : (Expr.node ⟨.le, "le_x_x", none, none, none⟩
      [.var "x" none, .var "x" none]).Built := by
    have made : Expr.combineExprs .le [.var "x" none, .var "x" none] =
      .ok (.node ⟨.le, "le_x_x", none, none, none⟩ [.var "x" none, .var "x" none]) := rfl
    refine .of_combineExprs made rfl fun c hc => ?_
    rcases List.mem_pair.1 hc with rfl | rfl <;> exact untyped
  simp only [redeclaring, List.forall_mem_cons, Operation.WellFormed, List.not_mem_nil]
  exact ⟨trivial, trivial, ⟨bool, by decide⟩, trivial, trivial, ⟨atMost, by decide⟩, nofun⟩

example : (Operation.runAll { launch := .process ⟨"z3", ["z3"]⟩, options := {} }
    redeclaring).declared = [("x", .int)] := by decide +kernel

end SmtDialogue
