import SmtDialogue.Proofs.EndOfOutput

/-!
# One session, one process

A session starts at most one process. It holds this process exactly while it runs or
has failed, and whatever it does with it, it takes turns: something is said, or
something is asked and an answer read. All turns of a session, up to the last word, are
turns with this one process (`Session.Served`).

A process may end at any time, take nothing more, print nothing or print on after its
last answer. What must not happen is that a session waits for an output that has ended,
since that would be for ever. The one who reads the end of the output fails the session,
and so no turn is ever taken with a process whose end has been read.

When a session is closed, whoever closes it and why ever, the process has ended by
itself or is killed. It is asked to end first if the session is in dialogue, and this
is the last that is said to it. The same words can be said to it before in one way only:
an assertion is said line by line, and a line of a quoted name is a line like any other
(`Step.IsBroken`).
-/

namespace SmtDialogue

open Smt

/-! ## One process -/

theorem History.startsOf_addAll (h : History) (es : List Event) :
    startsOf (h.addAll es).toList = startsOf h.toList ++ startsOf es := by
  rw [History.toList_addAll, startsOf_append]

/-- **What becomes of a process** of a session in some turns: the session runs, and the
output lasts; or it has failed and still holds the process; or it is closed, and the
process has ended. The end of the output may have been read in the last turn. -/
inductive Session.Leaves (s : Session) (deadline : Option Seconds) (p : Process)
    (turns : List Process.Turn) : Prop
  /-- The session runs. -/
  | running (phase : s.phase = .running (.process (p.through deadline turns)))
    (lasts : p.Lasts deadline turns)
  /-- It has failed. -/
  | failed (phase : s.phase = .failed (.process (p.through deadline turns)))
    (lasts : p.Lasts deadline turns.dropLast)
  /-- It is closed. -/
  | closed (phase : s.phase = .closed) (lasts : p.Lasts deadline turns.dropLast)
    (dead : (p.through deadline turns).alive = true → s.trace.toList.getLast? = some .killed)

/-- **How a session has been served** in a history: it has not been opened; or it has
been closed without a process; or one process has been started and has taken all
turns. -/
inductive Session.Served (backend : Backend) (options : SessionOptions) (s : Session)
    (past : List Step) : Prop
  /-- It has not been opened. -/
  | unopened (new : s = { launch := .process backend, options }) (silent : conversation past = [])
  /-- It has been closed without a process. -/
  | unused (closed : s.phase = .closed) (starts : startsOf s.trace.toList = [])
    (silent : conversation past = [])
  /-- It has had one process. -/
  | once (host : Host) (opened : ∃ st ∈ past, st.op = .openOn host) (chosen : s.options = options)
    (starts : startsOf s.trace.toList = [backend.argv ++ options.extraArgs])
    (leaves : s.Leaves options.deadline (host.started backend) (conversation past))

namespace Session

variable {s : Session} {deadline : Option Seconds} {p : Process} {turns : List Process.Turn}
  {backend : Backend} {options : SessionOptions} {past : List Step} {st : Step}

theorem conversation_concat (past : List Step) (st : Step) :
    conversation (past ++ [st]) = conversation past ++ st.turns := by
  simp [conversation]

/-- Closing a session ends the process that it holds. -/
theorem Leaves.close (h : s.Leaves deadline p turns) (opened : s.phase ≠ .closed) :
    ∃ events, s.close.trace = s.trace.addAll events ∧ startsOf events = [] ∧
      s.close.Leaves deadline p (turns ++ (commandsOf events).map .said) := by
  have dead {graceful : Bool}
      (trace : s.close.trace = s.trace.addAll ((p.through deadline turns).stop graceful).2) :
      (p.through deadline (turns ++ (commandsOf ((p.through deadline turns).stop graceful).2).map
        .said)).alive = true → s.close.trace.toList.getLast? = some .killed := by
    intro alive
    rw [Process.through_append] at alive
    rw [trace, History.toList_addAll, List.getLast?_append,
      ((p.through deadline turns).stop_spec deadline graceful).2 alive]
    rfl
  cases h with
  | running phase lasts =>
    have trace : s.close.trace = s.trace.addAll ((p.through deadline turns).stop true).2 := by
      unfold Session.close
      rw [phase]
      rfl
    refine ⟨_, trace, (Process.stop_spec deadline _ true).1,
      .closed (phase_close s) ?_ (dead trace)⟩
    exact lasts.dropLast_append _
      ((Process.lasts_said deadline _ _).of_part _ (List.dropLast_prefix _))
  | failed phase lasts =>
    have trace : s.close.trace = s.trace.addAll ((p.through deadline turns).stop false).2 := by
      unfold Session.close
      rw [phase]
      rfl
    have silent : commandsOf ((p.through deadline turns).stop false).2 = [] :=
      List.prefix_nil.1 (commandsOf_release (.process (p.through deadline turns)) false)
    refine ⟨_, trace, (Process.stop_spec deadline _ false).1,
      .closed (phase_close s) ?_ (dead trace)⟩
    rw [silent, List.map_nil, List.append_nil]
    exact lasts
  | closed phase => exact absurd phase opened

/-! ## One step -/

/-- A step that changes nothing. -/
theorem Served.still (h : st.before.Served backend options past) (same : st.after = st.before) :
    st.after.Served backend options (past ++ [st]) := by
  have added : st.after.trace = st.before.trace.addAll [] := by
    rw [same]
    rfl
  have silent : st.turns = [] := Step.turns_eq added
  have all : conversation (past ++ [st]) = conversation past := by
    rw [conversation_concat, silent, List.append_nil]
  rw [same]
  cases h with
  | unopened new none => exact .unopened new (all.trans none)
  | unused closed starts none => exact .unused closed starts (all.trans none)
  | once host opened chosen starts leaves =>
    obtain ⟨st', member, op⟩ := opened
    exact .once host ⟨st', List.mem_append_left _ member, op⟩ chosen starts (all.symm ▸ leaves)

/-- A step in which the process takes the turns. -/
theorem served_of_turns {host : Host} (opened : ∃ st ∈ past, st.op = .openOn host)
    (chosen : st.before.options = options)
    (starts : startsOf st.before.trace.toList = [backend.argv ++ options.extraArgs])
    {events : List Event} (trace : st.after.trace = st.before.trace.addAll events)
    (none : startsOf events = []) (same : st.after.options = st.before.options)
    (leaves : st.after.Leaves options.deadline (host.started backend)
      (conversation past ++ (commandsOf events).map st.op.turn)) :
    st.after.Served backend options (past ++ [st]) := by
  obtain ⟨st', member, op⟩ := opened
  refine .once host ⟨st', List.mem_append_left _ member, op⟩ (same.trans chosen) ?_ ?_
  · rw [trace, History.startsOf_addAll, none, starts, List.append_nil]
  · rw [conversation_concat, Step.turns_eq trace]
    exact leaves

/-- An operation in the dialogue takes turns with the process. -/
theorem Served.next_inner {c : Channel} (h : st.before.Served backend options past)
    (running : st.before.phase = .running c) (inner : st.op.IsInner) :
    st.after.Served backend options (past ++ [st]) := by
  cases h with
  | unopened new =>
    rw [new] at running
    cases running
  | unused closed => cases closed.symm.trans running
  | once host opened chosen starts leaves =>
    cases leaves with
    | failed phase => cases phase.symm.trans running
    | closed phase => cases phase.symm.trans running
    | running phase lasts =>
      obtain ⟨events, trace, same, none, goesOn⟩ := Operation.conversed phase inner
      refine served_of_turns opened chosen starts trace none same ?_
      rw [chosen] at goesOn
      dsimp only at goesOn
      rw [← Process.through_append] at goesOn
      rcases goesOn with ⟨phase', lasts'⟩ | ⟨-, phase', lasts'⟩
      · exact .running phase' ((Process.lasts_append _).2 ⟨lasts, lasts'⟩)
      · exact .failed phase' (lasts.dropLast_append _ lasts')

/-- Opening a session starts its process, or there is none. -/
theorem served_openOn (host : Host) (silent : conversation past = []) :
    Served backend options
      (Step.mk (.openOn host) { launch := .process backend, options }).after
      (past ++ [⟨.openOn host, { launch := .process backend, options }⟩]) := by
  let st : Step := ⟨.openOn host, { launch := .process backend, options }⟩
  show Served backend options st.after (past ++ [st])
  have opening : Operation.OpensProcess host backend st.before (openOn host st.before) :=
    Operation.opensProcess host rfl rfl
  have after : st.after = (openOn host st.before).2 := rfl
  have opened : ∃ st' ∈ past ++ [st], st'.op = .openOn host :=
    ⟨st, List.mem_append_right _ (List.mem_singleton_self st), rfl⟩
  have started {events : List Event} (none : startsOf events = [])
      (trace : st.after.trace =
        st.before.trace.addAll (.spawned (st.before.argv backend) :: events)) :
      startsOf st.after.trace.toList = [backend.argv ++ options.extraArgs] := by
    rw [trace, History.startsOf_addAll]
    exact congrArg (_ :: ·) none
  have turns {events : List Event}
      (trace : st.after.trace =
        st.before.trace.addAll (.spawned (st.before.argv backend) :: events)) :
      conversation (past ++ [st]) = (commandsOf events).map .said := by
    rw [conversation_concat, silent, Step.turns_eq trace]
    rfl
  generalize openOn host st.before = r at opening after
  cases opening with
  | unavailable e => exact (Served.unopened rfl silent).still after
  | opened none trace same running =>
    have trace := (congrArg Session.trace after).trans trace
    refine .once host opened ((congrArg Session.options after).trans same) (started none trace) ?_
    rw [turns trace, after]
    exact .running running (Process.lasts_said _ _ _)
  | @closed s' events e none trace same holds =>
    have leaves : s'.Leaves options.deadline (host.started backend)
        ((commandsOf events).map .said) :=
      holds.elim (fun phase => .running phase (Process.lasts_said _ _ _)) fun phase =>
        .failed phase ((Process.lasts_said _ _ _).of_part _ (List.dropLast_prefix _))
    have held : s'.phase ≠ .closed := by
      rcases holds with phase | phase <;> rw [phase] <;> nofun
    obtain ⟨more, trace', none', left⟩ := leaves.close held
    have trace : st.after.trace =
        st.before.trace.addAll (.spawned (st.before.argv backend) :: (events ++ more)) := by
      rw [after]
      show s'.close.trace = _
      rw [trace', trace, ← History.addAll_append]
      rfl
    have none : startsOf (events ++ more) = [] := by rw [startsOf_append, none, none']; rfl
    refine .once host opened ?_ (started none trace) ?_
    · rw [after]
      exact s'.writes_close.options.trans same
    · rw [turns trace, commandsOf_append, List.map_append, after]
      exact left

/-- Closing a session that has not been closed. -/
theorem Served.next_close (h : st.before.Served backend options past) (closes : st.op = .close)
    (opened : st.before.phase ≠ .closed) : st.after.Served backend options (past ++ [st]) := by
  have after : st.after = st.before.close := by rw [Step.after, closes]; rfl
  cases h with
  | unused closed => exact absurd closed opened
  | unopened new silent =>
    have trace : st.after.trace = st.before.trace.addAll [] := by rw [after, new]; rfl
    refine .unused (by rw [after, phase_close]) (by rw [trace, new]; rfl) ?_
    rw [conversation_concat, silent]
    exact Step.turns_eq trace
  | once host member chosen starts leaves =>
    obtain ⟨events, trace, none, left⟩ := leaves.close opened
    refine served_of_turns member chosen starts (by rw [after, trace]) none ?_ ?_
    · rw [after]
      exact st.before.writes_close.options
    · rw [after, closes]
      exact left

/-- **Every step** of a session leaves it served by one process at most. -/
theorem Served.next (h : st.before.Served backend options past) :
    st.after.Served backend options (past ++ [st]) := by
  rcases st.op.isInner_or with inner | ⟨host, opens⟩ | closes
  · cases phase : st.before.phase with
    | running c => exact h.next_inner phase inner
    | created | failed | closed =>
      obtain ⟨operation, refused⟩ := run_of_idle (by rw [phase]; rfl) inner
      exact h.still (congrArg Prod.snd refused)
  · obtain ⟨op, s⟩ := st
    obtain rfl : op = .openOn host := opens
    by_cases created : s.phase = .created
    · cases h with
      | unused closed => cases closed.symm.trans created
      | once _ _ _ _ leaves =>
        cases leaves with
        | running phase | failed phase | closed phase => cases phase.symm.trans created
      | unopened new silent =>
        obtain rfl : s = _ := new
        exact served_openOn host silent
    · exact h.still (congrArg Prod.snd (openOn_of_opened created host))
  · by_cases closed : st.before.phase = .closed
    · refine h.still ?_
      rw [Step.after, closes]
      exact close_of_closed closed
    · exact h.next_close closes closed

/-- **A session has one process at most**, whatever is done with it. -/
theorem Served.runAll (h : s.Served backend options past) (ops : List Operation) :
    (Operation.runAll s ops).Served backend options (past ++ history s ops) := by
  induction ops generalizing s past with
  | nil =>
    rw [history, List.append_nil]
    exact h
  | cons op ops ih =>
    have next : (Step.mk op s).after.Served backend options (past ++ [⟨op, s⟩]) := Served.next h
    have rest := ih next
    rw [List.append_assoc] at rest
    exact rest

end Session

/-! ## Last words -/

/-- No other command is written like the request to end. -/
theorem Smt.Command.eq_exit_of_text {c : Command} (h : c.text = Command.exit.text) : c = .exit := by
  by_contra other
  have apart : (startsWith c.lead "(exit)" || startsWith "(exit)" c.lead) = false := by
    cases c with
    | exit => exact absurd rfl other
    | _ =>
      rw [lead]
      decide
  have start := startsWith_text_eq_false apart
  rw [h] at start
  exact absurd start (by decide)

/-- Only closing has it to say. -/
theorem Operation.eq_close_of_maySay {op : Operation} (h : op.MaySay .exit) : op = .close := by
  cases op with
  | close => rfl
  | openOn host => rcases h with h | ⟨logic, h⟩ <;> cases h
  | assert e => rcases h with ⟨name, sort, h⟩ | ⟨t, h⟩ <;> cases h
  | model vars =>
    obtain ⟨names, h⟩ := h
    cases h
  | check | push | pop => cases h

/-- Whether the dialogue of a session is over. -/
def Phase.isOver : Phase → Bool
  | failed _ | closed => true
  | _ => false

namespace Step

variable {st : Step}

/-- Nothing is said at closing unless the session runs. -/
theorem writes_of_close (closes : st.op = .close) (idle : st.before.phase.isRunning = false) :
    st.writes = [] := by
  have after : st.after = st.before.close := by rw [Step.after, closes]; rfl
  cases phase : st.before.phase with
  | running c =>
    rw [phase] at idle
    cases idle
  | created | closed =>
    have added : st.after.trace = st.before.trace.addAll [] := by
      rw [after, Session.close, phase]
      rfl
    exact writes_eq added
  | failed c =>
    have added : st.after.trace = st.before.trace.addAll (c.release false) := by
      rw [after, Session.close, phase]
    exact (writes_eq added).trans (List.prefix_nil.1 (Session.commandsOf_release c false))

/-- **When the dialogue is over nothing is written**, and it stays over. -/
theorem writes_of_over (ended : st.before.phase.isOver = true) :
    st.writes = [] ∧ st.after.phase.isOver = true := by
  have idle : st.before.phase.isRunning = false := by
    cases phase : st.before.phase with
    | running c =>
      rw [phase] at ended
      cases ended
    | _ => rfl
  have refused {e : SessionError} (same : st.op.run st.before = (.error e, st.before)) :
      st.writes = [] ∧ st.after.phase.isOver = true := by
    refine ⟨writes_of_refused same, ?_⟩
    rw [Step.after, same]
    exact ended
  rcases st.op.isInner_or with inner | ⟨host, opens⟩ | closes
  · obtain ⟨operation, same⟩ := Session.run_of_idle idle inner
    exact refused same
  · refine refused (e := .alreadyOpened st.before.phase.word) ?_
    rw [opens]
    exact Session.openOn_of_opened (fun created => by rw [created] at ended; cases ended) host
  · refine ⟨writes_of_close closes idle, ?_⟩
    rw [Step.after, closes]
    show st.before.close.phase.isOver = true
    rw [Session.phase_close]
    rfl

/-- **The request to end** is written at the closing of a running session, where it is
all that is written, or as a line of a broken assertion. -/
theorem exit_of_writes (h : st.before.Writable) (wrote : Command.exit.text ∈ st.writes) :
    st.IsBroken ∨ st.op = .close ∧ st.before.phase.isRunning = true ∧
      st.writes = [Command.exit.text] := by
  rcases st.maySay_of_writes h wrote with broken | ⟨c, may, same⟩
  · exact .inl broken
  obtain rfl := Command.eq_exit_of_text same.symm
  have closes : st.op = .close := Operation.eq_close_of_maySay may
  have running : st.before.phase.isRunning = true := by
    by_contra idle
    rw [writes_of_close closes (Bool.eq_false_iff.2 idle)] at wrote
    cases wrote
  refine .inr ⟨closes, running, ?_⟩
  have spoken := st.says_writes h
  rw [closes] at spoken
  rcases List.prefix_cons_iff.1 spoken with nothing | ⟨rest, all, more⟩
  · rw [nothing] at wrote
    cases wrote
  · rw [all, List.prefix_nil.1 more]

end Step

namespace Session

variable {s : Session} {ops : List Operation}

/-- When the dialogue is over, nothing is written any more. -/
theorem silent_of_over (ended : s.phase.isOver = true) (ops : List Operation) :
    ∀ st ∈ history s ops, st.writes = [] := by
  induction ops generalizing s with
  | nil => exact List.forall_mem_nil _
  | cons op ops ih =>
    let st : Step := ⟨op, s⟩
    obtain ⟨silent, still⟩ := st.writes_of_over ended
    exact List.forall_mem_cons.2 ⟨silent, ih still⟩

/-- The steps after one are the history of the session that it leaves. -/
theorem later_eq_history {earlier later : List Step} {st : Step}
    (split : history s ops = earlier ++ st :: later) : ∃ rest, later = history st.after rest := by
  induction earlier generalizing s ops with
  | nil =>
    cases ops with
    | nil => cases split
    | cons op ops =>
      cases split
      exact ⟨ops, rfl⟩
  | cons st' earlier ih =>
    cases ops with
    | nil => cases split
    | cons op ops => exact ih (List.cons.inj split).2

/-- A command that is only written alone, with nothing after it, is the last one if it is
written. -/
theorem not_mem_dropLast_writes {command : String} {steps : List Step}
    (alone : ∀ earlier st later, steps = earlier ++ st :: later → command ∈ st.writes →
      st.writes = [command] ∧ ∀ st' ∈ later, st'.writes = []) :
    command ∉ (steps.flatMap Step.writes).dropLast := by
  intro twice
  obtain ⟨st, member, wrote⟩ := List.mem_flatMap.1 (List.dropLast_subset _ twice)
  obtain ⟨earlier, later, split⟩ := List.append_of_mem member
  obtain ⟨all, rest⟩ := alone earlier st later split wrote
  have shape : steps.flatMap Step.writes = earlier.flatMap Step.writes ++ [command] := by
    rw [split, List.flatMap_append, List.flatMap_cons, all, List.flatMap_eq_nil_iff.2 rest]
    rfl
  rw [shape, List.dropLast_concat] at twice
  -- but then nothing would have been written at the later one of the two
  obtain ⟨st', member', wrote'⟩ := List.mem_flatMap.1 twice
  obtain ⟨before, between, split'⟩ := List.append_of_mem member'
  rw [split', List.append_assoc] at split
  have none := (alone before st' (between ++ st :: later) split wrote').2 st (by simp)
  cases none.symm.trans all

/-- A block with a session: it is opened unless it has been opened before, and once it
has been entered it is left by closing the session, however far the operations in it have
come. -/
def within (host : Host) (body : List Operation) (s : Session) : Session :=
  let opened := openIfNew host s
  if opened.1.isOk then (Operation.runAll opened.2 body).close else opened.2

/-- A block comes to some operations. -/
theorem within_eq_runAll (host : Host) (body : List Operation) (s : Session) :
    ∃ ops, s.within host body = Operation.runAll s ops ∧
      ((openIfNew host s).1 = .ok () → (s.within host body).phase = .closed) := by
  have entered : ∃ first, (openIfNew host s).2 = Operation.runAll s first := by
    unfold openIfNew
    split
    · exact ⟨[.openOn host], rfl⟩
    · exact ⟨[], rfl⟩
  obtain ⟨first, opened⟩ := entered
  unfold within
  dsimp only
  cases outcome : (openIfNew host s).1 with
  | error e => exact ⟨first, opened, nofun⟩
  | ok =>
    refine ⟨first ++ (body ++ [.close]), ?_, fun _ => phase_close _⟩
    show (Operation.runAll (openIfNew host s).2 body).close = _
    rw [opened]
    simp only [Operation.runAll, List.foldl_append]
    rfl

end Session

/-! ## The life of a session -/

/-- **How a session treats the process** that it has been opened with, in some turns. -/
structure Session.Treats (s : Session) (deadline : Option Seconds) (p : Process)
    (turns : List Process.Turn) : Prop where
  /-- It holds this process and no other. -/
  holds : ∀ q, s.Holds q → q = p.through deadline turns
  /-- Before every turn the end of the output is unread, so that it is read once at most
  and nothing is read or written after it. -/
  unread : ∀ early turn late, turns = early ++ turn :: late → ¬ (p.through deadline early).EndRead
  /-- A session that has read it does not run. -/
  goesOn : s.phase.isRunning = true → ¬ (p.through deadline turns).EndRead
  /-- When the session is closed, the process has ended by itself or has been killed. -/
  dead : s.phase = .closed → (p.through deadline turns).alive = true →
    s.trace.toList.getLast? = some .killed

/-- **The life of a session with a process**, in a history. -/
structure Session.LivesOnce (backend : Backend) (options : SessionOptions) (s : Session)
    (steps : List Step) : Prop where
  /-- No process has been started, or one, which has taken all turns. -/
  once : startsOf s.trace.toList = [] ∧ conversation steps = [] ∨
    startsOf s.trace.toList = [backend.argv ++ options.extraArgs] ∧
      ∃ host, (∃ st ∈ steps, st.op = .openOn host) ∧
        s.Treats options.deadline (host.started backend) (conversation steps)
  /-- A process is held exactly by a session that runs or has failed. -/
  held : (∃ p, s.Holds p) ↔ s.phase.word = "running" ∨ s.phase.word = "failed"
  /-- The request to end is written at the closing of a running session, and after it
  nothing, or as a line of a broken assertion. -/
  exit : ∀ earlier st later, steps = earlier ++ st :: later → Command.exit.text ∈ st.writes →
    st.IsBroken ∨ st.op = .close ∧ st.before.phase.isRunning = true ∧
      st.writes = [Command.exit.text] ∧ ∀ st' ∈ later, st'.writes = []
  /-- Without broken assertions it is the last command of all, if it is written. -/
  last : (∀ st ∈ steps, ¬ st.IsBroken) → Command.exit.text ∉ s.trace.commands.dropLast
  /-- A session that has failed or has been closed writes nothing. -/
  silent : ∀ earlier st later, steps = earlier ++ st :: later → st.after.phase.isOver = true →
    ∀ st' ∈ later, st'.writes = []
  /-- Closing ends in the closed phase. -/
  closes : ∀ st ∈ steps, st.op = .close → st.after.phase = .closed
  /-- So does opening if the process has been started and the first words fail. -/
  opening : ∀ st ∈ steps, ∀ host e, st.op = .openOn host → st.before.phase = .created →
    (start host st.before).1 = .ok () → st.outcome = .error e → st.after.phase = .closed
  /-- And so does a block that has been entered, which comes to some operations. -/
  block : ∀ host body, ∃ ops, s.within host body = Operation.runAll s ops ∧
    ((openIfNew host s).1 = .ok () → (s.within host body).phase = .closed)

namespace Session

variable {s : Session} {deadline : Option Seconds} {p : Process} {turns : List Process.Turn}
  {backend : Backend} {options : SessionOptions} {steps : List Step}

/-- What becomes of a process that has just been started. -/
theorem Leaves.treats (h : s.Leaves deadline p turns) (fresh : p.EndUnread) :
    s.Treats deadline p turns := by
  have before (lasts : p.Lasts deadline turns.dropLast) (early : List Process.Turn)
      (turn : Process.Turn) (late : List Process.Turn) (split : turns = early ++ turn :: late) :
      ¬ (p.through deadline early).EndRead :=
    (fresh.before_turn lasts split).not_endRead
  cases h with
  | running phase lasts =>
    refine ⟨fun q holds => holds.unique (.inl phase),
      before (lasts.of_part deadline (List.dropLast_prefix turns)),
      fun _ => (fresh.through lasts).not_endRead, fun closed => ?_⟩
    cases phase.symm.trans closed
  | failed phase lasts =>
    refine ⟨fun q holds => holds.unique (.inr phase), before lasts, fun running => ?_,
      fun closed => ?_⟩
    · rw [phase] at running
      cases running
    · cases phase.symm.trans closed
  | closed phase lasts dead =>
    refine ⟨fun q holds => ?_, before lasts, fun running => ?_, fun _ => dead⟩
    · rcases holds with holds | holds <;> cases phase.symm.trans holds
    · rw [phase] at running
      cases running

theorem Served.started (h : s.Served backend options steps) :
    startsOf s.trace.toList = [] ∧ conversation steps = [] ∨
      startsOf s.trace.toList = [backend.argv ++ options.extraArgs] ∧
        ∃ host, (∃ st ∈ steps, st.op = .openOn host) ∧
          s.Treats options.deadline (host.started backend) (conversation steps) := by
  cases h with
  | unopened new silent => exact .inl ⟨by rw [new]; rfl, silent⟩
  | unused _ starts silent => exact .inl ⟨starts, silent⟩
  | once host opened _ starts leaves => exact .inr ⟨starts, host, opened, leaves.treats rfl⟩

theorem Served.held (h : s.Served backend options steps) :
    (∃ p, s.Holds p) ↔ s.phase.word = "running" ∨ s.phase.word = "failed" := by
  have idle (phase : s.phase = .created ∨ s.phase = .closed) :
      (∃ p, s.Holds p) ↔ s.phase.word = "running" ∨ s.phase.word = "failed" := by
    refine iff_of_false ?_ ?_
    · rintro ⟨p, holds | holds⟩ <;> rw [holds] at phase <;> rcases phase with phase | phase <;>
        cases phase
    · rcases phase with phase | phase <;> rw [phase] <;> decide
  cases h with
  | unopened new => exact idle (.inl (by rw [new]))
  | unused closed => exact idle (.inr closed)
  | once host _ _ _ leaves =>
    cases leaves with
    | running phase => exact iff_of_true ⟨_, .inl phase⟩ (.inl (by rw [phase]; rfl))
    | failed phase => exact iff_of_true ⟨_, .inr phase⟩ (.inr (by rw [phase]; rfl))
    | closed phase => exact idle (.inr phase)

end Session

/-- **The life of a session with a process**, whatever is done with the session and
whatever the process does. -/
theorem Operation.process_lifecycle (backend : Backend) (options : SessionOptions)
    (ops : List Operation) :
    (runAll { launch := .process backend, options } ops).LivesOnce backend options
      (history { launch := .process backend, options } ops) := by
  let new : Session := { launch := .process backend, options }
  have unopened : new.Served backend options [] := .unopened rfl rfl
  have served : (runAll new ops).Served backend options (history new ops) := unopened.runAll ops
  have writable : new.Writable := Session.writable_new _ _
  have silent : ∀ earlier st later, history new ops = earlier ++ st :: later →
      st.after.phase.isOver = true → ∀ st' ∈ later, st'.writes = [] := by
    intro earlier st later split ended
    obtain ⟨rest, rfl⟩ := Session.later_eq_history split
    exact Session.silent_of_over ended rest
  have exit : ∀ earlier st later, history new ops = earlier ++ st :: later →
      Command.exit.text ∈ st.writes → st.IsBroken ∨ st.op = .close ∧
        st.before.phase.isRunning = true ∧ st.writes = [Command.exit.text] ∧
          ∀ st' ∈ later, st'.writes = [] := by
    intro earlier st later split wrote
    have member : st ∈ history new ops := by simp [split]
    have before : st.before.Writable := writable.before_of_mem member
    refine (Step.exit_of_writes before wrote).imp id fun ⟨closes, running, all⟩ => ?_
    refine ⟨closes, running, all, silent earlier st later split ?_⟩
    rw [Step.after, closes]
    show st.before.close.phase.isOver = true
    rw [Session.phase_close]
    rfl
  refine ⟨served.started, served.held, exit, fun whole => ?_, silent, fun st _ closes => ?_,
    fun st member host e opens created started failed => ?_,
    fun host body => Session.within_eq_runAll host body _⟩
  · have all : (runAll new ops).trace.commands = (history new ops).flatMap Step.writes :=
      Session.commands_runAll writable ops
    show Command.exit.text ∉ (runAll new ops).trace.commands.dropLast
    rw [all]
    refine Session.not_mem_dropLast_writes fun earlier st later split wrote => ?_
    have member : st ∈ history new ops := by simp [split]
    exact ((exit earlier st later split wrote).resolve_left (whole st member)).2.2
  · rw [Step.after, closes]
    exact Session.phase_close _
  · obtain ⟨op, s⟩ := st
    obtain rfl : op = .openOn host := opens
    have disciplined := (Operation.openOn host).disciplined (writable.before_of_mem member)
    rcases disciplined.opening host e rfl created failed with ⟨unstarted, -⟩ | ⟨-, closed, -⟩
    · cases started.symm.trans unstarted
    · exact closed

/-- A host on which a process takes its commands line by line and ends when it is asked
to. -/
def obeyingHost : Host :=
  { muteHost with behaviour := fun _ line => .taken { ends := line == Command.exit.text } }

/-- **A request to end in the middle of an assertion**: commands are written one per line,
and two lines of this assertion are the request to end. A process that goes on after
them is asked a third time at closing; one that ends at the first leaves the session
failed, with the rest of the assertion unwritten. -/
theorem Operation.exit_inside_name :
    let new : Session := { launch := .process ⟨"z3", ["z3", "-smt2", "-in"]⟩, options := {} }
    let assertion : Operation := .assert (.var "a\n(exit)\nb" (some .bool))
    let asserted := runAll new [.openOn muteHost, assertion]
    let ended := runAll new [.openOn obeyingHost, assertion]
    asserted.phase.isRunning = true ∧
      asserted.trace.commands = ["(set-option :produce-models true)", "(declare-const |a",
        "(exit)", "b| Bool)", "(assert |a", "(exit)", "b|)"] ∧
      (runAll asserted [.close]).trace.commands.count "(exit)" = 3 ∧
      ended.phase.word = "failed" ∧
      ended.trace.commands = ["(set-option :produce-models true)", "(declare-const |a",
        "(exit)"] := by
  decide +kernel

end SmtDialogue
