import SmtDialogue.Proofs.Replay
import SmtDialogue.Session.Channel

/-!
# What a solver has heard

The one thing that is kept in step at both ends of a dialogue: replaying what
the solver has taken gives the scopes that the session believes to be open
(`Channel.Heard`). A process takes each command as it is. An in-process solver
gets no declarations; its constants are kept on this side and come with each
assertion, so declared constants are pending until something is asserted.

Each command of a dialogue has one lemma, which says what the solver has heard
after it. A command that is not taken has not been heard, and the fault ends the
dialogue (`Reply.Follows`).
-/

namespace SmtDialogue

open Smt

open Smt.Scopes (replay replayCalls)

/-- The command that a process has taken, if the event is one. -/
def Event.command? : Event → Option String
  | written command => some command
  | _ => none

/-- The commands that a process has taken, oldest first. -/
def History.commands (h : History) : List String :=
  h.toList.filterMap Event.command?

@[simp] theorem History.commands_add_written (h : History) (command : String) :
    (h.add (.written command)).commands = h.commands ++ [command] := by
  simp [commands, Event.command?]

theorem History.commands_addAll (h : History) (es : List Event) :
    (h.addAll es).commands = h.commands ++ es.filterMap Event.command? := by
  simp [commands]

/-- What comes of a command that is either taken or ends the dialogue: the
solver is as it was unless the command has been taken. -/
def Reply.Follows {σ : Type} (r : Reply σ Unit) (before after : σ → Prop) : Prop :=
  match r.outcome with
  | .ok _ => after r.state
  | .error fault => before r.state ∧ fault.endsDialogue = true

/-! ## Processes -/

namespace Process

variable {p : Process}

/-- **A process goes on being itself**: it behaves as before, and has taken the same
commands. -/
structure Persists (p q : Process) : Prop where
  /-- It behaves as before. -/
  behaviour : q.behaviour = p.behaviour
  /-- The ends of its lines arrive as before. -/
  newlines : q.newlines = p.newlines
  /-- It has taken no command. -/
  history : q.history = p.history

theorem Persists.trans {p q r : Process} (h : p.Persists q) (h' : q.Persists r) : p.Persists r :=
  ⟨h'.behaviour.trans h.behaviour, h'.newlines.trans h.newlines, h'.history.trans h.history⟩

theorem exists_print (p : Process) (text : String) :
    ∃ queue reader, p.print text = { p with queue, reader } := by
  unfold print
  split <;> exact ⟨_, _, rfl⟩

theorem exists_pause (p : Process) : ∃ queue, p.pause = { p with queue } := by
  unfold pause
  split <;> exact ⟨_, rfl⟩

theorem exists_printLater (p : Process) (pieces : List String) :
    ∃ queue reader, p.printLater pieces = { p with queue, reader } := by
  induction pieces generalizing p with
  | nil => exact ⟨_, _, rfl⟩
  | cons piece pieces ih =>
    obtain ⟨queue, paused⟩ := p.exists_pause
    obtain ⟨queue', reader, printed⟩ := p.pause.exists_print piece
    obtain ⟨queue'', reader', rest⟩ := ih (p.pause.print piece)
    refine ⟨queue'', reader', rest.trans ?_⟩
    rw [printed, paused]

/-- What is printed changes what waits to be read and the kept errors, and nothing
else. -/
theorem exists_printAll (p : Process) (r : Reaction) : ∃ queue reader errorLines errorReader,
    p.printAll r = { p with queue, reader, errorLines, errorReader } := by
  obtain ⟨queue, reader, printed⟩ := (p.printError r.errors).exists_print r.output
  obtain ⟨queue', reader', rest⟩ :=
    ((p.printError r.errors).print r.output).exists_printLater r.later
  refine ⟨queue', reader', (p.printError r.errors).errorLines,
    (p.printError r.errors).errorReader, rest.trans ?_⟩
  rw [printed]
  rfl

/-- A process that prints neither ends nor closes its output. -/
theorem alive_printAll (p : Process) (r : Reaction) :
    (p.printAll r).alive = p.alive ∧ (p.printAll r).outputOpen = p.outputOpen := by
  obtain ⟨queue, reader, errorLines, errorReader, printed⟩ := p.exists_printAll r
  rw [printed]
  exact ⟨rfl, rfl⟩

theorem persists_closeOutput (p : Process) : p.Persists p.closeOutput := by
  unfold closeOutput
  split <;> exact ⟨rfl, rfl, rfl⟩

theorem persists_finish (p : Process) : p.Persists p.finish :=
  have closed := persists_closeOutput { p.keepErrors p.errorReader.close with errorReader := {} }
  ⟨closed.behaviour, closed.newlines, closed.history⟩

/-- What a process prints or ends is no command. -/
theorem persists_react (p : Process) (r : Reaction) : p.Persists (p.react r) := by
  have printed : p.Persists (p.printAll r) := by
    obtain ⟨queue, reader, errorLines, errorReader, printed⟩ := p.exists_printAll r
    rw [printed]
    exact ⟨rfl, rfl, rfl⟩
  unfold react
  split
  · exact printed.trans (persists_finish _)
  · split
    · exact printed.trans (persists_closeOutput _)
    · exact printed

@[simp] theorem history_react (p : Process) (r : Reaction) : (p.react r).history = p.history :=
  (p.persists_react r).history

/-- A process takes a command and reacts to it. -/
structure Takes (p : Process) (command : String) (r : Reaction) : Prop where
  /-- It is running. -/
  alive : p.alive = true
  /-- It behaves so. -/
  taken : p.behaviour p.history command = .taken r

/-- The process that has heard a command, before it reacts. -/
def hearing (p : Process) (command : String) : Process :=
  { p with history := p.history.add (.written command) }

@[simp] theorem history_hearing (p : Process) (command : String) :
    (p.hearing command).history = p.history.add (.written command) := rfl

variable {command : String} {r : Reaction}

theorem Takes.send (takes : p.Takes command r) :
    p.send command =
      { outcome := .ok (), state := (p.hearing command).react r,
        events := [.written command] } := by
  unfold Process.send
  rw [if_pos takes.alive, takes.taken]
  rfl

theorem Takes.ask (takes : p.Takes command r) (deadline : Option Seconds) :
    (p.ask deadline command).state = (((p.hearing command).react r).read deadline).state ∧
      (p.ask deadline command).outcome = (((p.hearing command).react r).read deadline).outcome := by
  rw [Process.ask, takes.send, Reply.andThen_of_ok rfl]
  exact ⟨rfl, rfl⟩

/-- A command is taken, with some reaction, or not. -/
theorem send_cases (p : Process) (command : String) :
    (∃ reason, p.send command = { outcome := .error (.inputRefused p.solver reason), state := p }) ∨
    ∃ r, p.Takes command r ∧
      p.send command =
        { outcome := .ok ()
          state := (p.hearing command).react r
          events := [.written command] } := by
  unfold send
  split
  · next alive =>
    cases taken : p.behaviour p.history command with
    | refused reason => exact .inl ⟨reason, rfl⟩
    | taken r => exact .inr ⟨r, ⟨alive, taken⟩, rfl⟩
  · exact .inl ⟨brokenPipe, rfl⟩

theorem persists_kill (p : Process) : p.Persists p.kill.1 := by
  unfold kill
  split
  · exact p.persists_finish
  · exact ⟨rfl, rfl, rfl⟩

theorem commands_kill (p : Process) : p.kill.2.filterMap Event.command? = [] := by
  unfold kill
  split <;> rfl

/-- Reading an answer takes no command. -/
theorem persists_read (p : Process) (deadline : Option Seconds) :
    p.Persists (p.read deadline).state ∧
      (p.read deadline).events.filterMap Event.command? = [] := by
  unfold read
  split
  · exact ⟨⟨rfl, rfl, rfl⟩, rfl⟩
  · rcases gather _ "" p.queue with ⟨gathered, rest⟩
    have taken : p.Persists { p with queue := rest } := ⟨rfl, rfl, rfl⟩
    cases gathered with
    | answer | broken | ended => exact ⟨taken, rfl⟩
    | silent =>
      show p.Persists (expire deadline _).state ∧ (expire deadline _).events.filterMap _ = _
      unfold expire
      split
      · exact ⟨taken, rfl⟩
      · exact ⟨taken.trans (persists_kill _), commands_kill _⟩

/-- What a process has taken is what it has said to have taken. -/
theorem history_send (p : Process) (command : String) :
    (p.send command).state.history.commands =
      p.history.commands ++ (p.send command).events.filterMap Event.command? := by
  rcases p.send_cases command with ⟨reason, h⟩ | ⟨r, -, h⟩
  · rw [h]
    simp
  · rw [h]
    simp [Event.command?]

/-- A question is a command, and what comes after it is the answer. -/
theorem ask_eq (p : Process) (deadline : Option Seconds) (command : String) :
    (∃ reason, p.ask deadline command =
      { outcome := .error (.inputRefused p.solver reason), state := p }) ∨
    ∃ r, p.Takes command r ∧
      let after := (p.hearing command).react r
      p.ask deadline command =
        { after.read deadline with events := .written command :: (after.read deadline).events } := by
  rcases p.send_cases command with ⟨reason, h⟩ | ⟨r, taken, h⟩
  · exact .inl ⟨reason, by rw [ask, Reply.andThen_of_error (by rw [h]), h]⟩
  · refine .inr ⟨r, taken, ?_⟩
    rw [ask, Reply.andThen_of_ok (by rw [h]), h]
    rfl

theorem history_ask (p : Process) (deadline : Option Seconds) (command : String) :
    (p.ask deadline command).state.history.commands =
      p.history.commands ++ (p.ask deadline command).events.filterMap Event.command? := by
  rcases p.ask_eq deadline command with ⟨reason, h⟩ | ⟨r, -, h⟩
  · rw [h]
    simp
  · obtain ⟨kept, quiet⟩ := persists_read
      ((p.hearing command).react r) deadline
    rw [h]
    simp [kept.history, quiet, Event.command?]

variable {scopes scopes' : Scopes} {c : Command}

/-- A command without an answer that makes sense. -/
theorem follows_send (heard : replay p.history.commands = some scopes) (written : c.Written)
    (makes : scopes.step c = some scopes') :
    (p.send c.text).Follows (fun p => replay p.history.commands = some scopes)
      fun p => replay p.history.commands = some scopes' := by
  rcases p.send_cases c.text with ⟨reason, h⟩ | ⟨r, -, h⟩
  · rw [h]
    exact ⟨heard, rfl⟩
  · rw [h]
    show replay (react _ r).history.commands = _
    rw [history_react, history_hearing, History.commands_add_written,
      Scopes.replay_text heard written, makes]

/-- A question that makes sense leaves the scopes as they are. -/
theorem heard_ask (heard : replay p.history.commands = some scopes) (written : c.Written)
    (makes : scopes.step c = some scopes) (deadline : Option Seconds) :
    replay (p.ask deadline c.text).state.history.commands = some scopes := by
  rcases p.ask_eq deadline c.text with ⟨reason, h⟩ | ⟨r, -, h⟩
  · rw [h]
    exact heard
  · rw [h]
    show replay (read deadline _).state.history.commands = _
    rw [(persists_read _ _).1.history, history_react, history_hearing,
      History.commands_add_written, Scopes.replay_text heard written, makes]

end Process

/-! ## In-process solvers -/

namespace InProcess

/-- What an in-process solver has heard, and what is kept for it on this side:
the constants are those that are live and those that are pending, and each open
scope is marked by the number of constants when it was opened. -/
structure Heard (b : InProcess) (scopes : Scopes) (pending : SortTable) : Prop where
  /-- The calls made on the solver give the scopes. -/
  replayed : replayCalls b.history.toList = some scopes
  /-- The constants for assertions. -/
  constants : b.constants = scopes.live ++ pending
  /-- Their names. -/
  declared : b.declared = b.constants.names
  /-- The marks of the open scopes. -/
  marks : b.marks = scopes.saved.map List.length

variable {b : InProcess} {scopes scopes' : Scopes} {pending : SortTable}

theorem send_declare (b : InProcess) (name : String) (sort : SmtSort) :
    b.send (Command.declare name sort).text = b.declare (Command.declare name sort).text := by
  rw [send, if_pos (Command.startsWith_text (by rw [Command.lead]; decide))]

theorem send_assert (b : InProcess) (t : Term) :
    b.send (Command.assert t).text =
      match b.binding.rejection b.history (Command.assert t).text with
      | some reason =>
        { outcome := .error (.assertionRejected reason (Command.assert t).text), state := b }
      | none => b.call [.asserted (Command.assert t).text b.constants] := by
  have noDeclaration : startsWith (Command.assert t).text "(declare-const " ≠ true := by
    rw [Command.startsWith_text_eq_false (by rw [Command.lead]; decide)]
    exact Bool.false_ne_true
  have assertion : startsWith (Command.assert t).text "(assert " = true :=
    Command.startsWith_text (by rw [Command.lead]; decide)
  refine (if_neg noDeclaration).trans ((if_pos assertion).trans ?_)
  cases b.binding.rejection b.history (Command.assert t).text <;> rfl

theorem send_push (b : InProcess) : b.send Command.push.text = b.push := by
  rw [send, Command.startsWith_text_eq_false (by rw [Command.lead]; decide),
    if_neg Bool.false_ne_true, Command.startsWith_text_eq_false (by rw [Command.lead]; decide),
    if_neg Bool.false_ne_true, if_pos (Command.startsWith_text (by rw [Command.lead]; decide))]

theorem send_pop (b : InProcess) : b.send Command.pop.text = b.pop := by
  rw [send, Command.startsWith_text_eq_false (by rw [Command.lead]; decide),
    if_neg Bool.false_ne_true, Command.startsWith_text_eq_false (by rw [Command.lead]; decide),
    if_neg Bool.false_ne_true, Command.startsWith_text_eq_false (by rw [Command.lead]; decide),
    if_neg Bool.false_ne_true, if_pos (Command.startsWith_text (by rw [Command.lead]; decide))]

/-- A declaration is read as the name and the sort that it declares. -/
theorem parse_declare {name : String} (writable : isWritable name = true) (sort : SmtSort) :
    Item.parse (Command.declare name sort).text =
      .ok [.list [.symbol "declare-const", .symbol name, .symbol sort.name]] := by
  have written : (Command.declare name sort).Written := writable
  rw [← Command.text_form written, Item.parse_text (Command.writable_form (written.readable nofun))]
  simp only [Command.form, Form.item_list, List.map_cons, List.map_nil, item_nameForm]
  rfl

/-- A constant is kept with its sort. -/
theorem declare_eq {name : String} (writable : isWritable name = true) (sort : SmtSort) :
    b.declare (Command.declare name sort).text =
      { outcome := .ok ()
        state := { b with
          constants := setConstant b.constants name sort
          declared := b.declared ++ [name] } } := by
  rw [declare, parse_declare writable]
  cases sort <;> rfl

/-- A new constant is kept behind the others. -/
theorem declare_text {name : String} (writable : isWritable name = true)
    (fresh : name ∉ b.constants.names) (sort : SmtSort) :
    b.declare (Command.declare name sort).text =
      { outcome := .ok ()
        state := { b with
          constants := b.constants ++ [(name, sort)]
          declared := b.declared ++ [name] } } := by
  have new : b.constants.contains name = false :=
    Bool.eq_false_iff.2 (mt SortTable.contains_iff.1 fresh)
  rw [declare_eq writable, setConstant, new, if_neg Bool.false_ne_true]

theorem follows_declare (h : b.Heard scopes pending) {name : String}
    (writable : isWritable name = true) (fresh : name ∉ (scopes.live ++ pending).names)
    (sort : SmtSort) :
    (b.send (Command.declare name sort).text).Follows (Heard · scopes pending)
      (Heard · scopes (pending ++ [(name, sort)])) := by
  rw [send_declare, declare_text writable (h.constants ▸ fresh)]
  refine ⟨h.replayed, ?_, ?_, h.marks⟩
  · rw [h.constants, List.append_assoc]
  · simp [h.declared, SortTable.names]

theorem follows_assert (h : b.Heard scopes pending) {t : Term}
    (written : (Command.assert t).Written) (sorted : t.sort? (scopes.live ++ pending) = some .bool) :
    (b.send (Command.assert t).text).Follows (Heard · scopes pending)
      (Heard · ((scopes.declaring pending).asserting t) []) := by
  rw [send_assert]
  cases b.binding.rejection b.history (Command.assert t).text with
  | some reason => exact ⟨h, rfl⟩
  | none =>
    refine ⟨?_, ?_, h.declared, h.marks⟩
    · show replayCalls (b.history.addAll _).toList = _
      rw [History.toList_addAll, Scopes.replayCalls_append h.replayed, h.constants]
      exact Scopes.call_asserted written sorted
    · rw [Scopes.live_asserting, Scopes.live_declaring, List.append_nil]
      exact h.constants

theorem follows_push (h : b.Heard scopes []) :
    (b.send Command.push.text).Follows (Heard · scopes []) (Heard · scopes.opening []) := by
  rw [send_push]
  refine ⟨?_, ?_, h.declared, ?_⟩
  · show replayCalls (b.history.addAll _).toList = _
    rw [History.toList_addAll, Scopes.replayCalls_append h.replayed]
    rfl
  · rw [Scopes.live_opening]
    exact h.constants
  · show b.declared.length :: b.marks = _
    rw [h.declared, h.constants, h.marks, List.append_nil]
    simp [SortTable.names]

/-- Closing a scope forgets the constants that have been declared in it. -/
theorem follows_pop (h : b.Heard scopes []) (once : scopes.live.names.Nodup) {saved : SortTable}
    {around : List SortTable} (opened : scopes.saved = saved :: around)
    (makes : scopes.step .pop = some scopes') :
    (b.send Command.pop.text).Follows (Heard · scopes []) (Heard · scopes' []) := by
  obtain ⟨scopes'', new, makes', rfl, rfl, live⟩ := Scopes.exists_pop opened
  obtain rfl := Option.some.inj (makes.symm.trans makes')
  have constants : b.constants = scopes'.live ++ new := by rw [h.constants, live, List.append_nil]
  have mark : b.marks.headD b.declared.length = scopes'.live.length := by
    rw [h.marks, opened]
    rfl
  have names : b.declared = scopes'.live.names ++ new.names := by
    rw [h.declared, constants, SortTable.names_append]
  have length : scopes'.live.names.length = scopes'.live.length := List.length_map _
  -- by their names alone, so no outer constant may be called like one of the scope
  have filtered : b.constants.filter
      (fun entry => !(b.declared.drop scopes'.live.length).contains entry.1) = scopes'.live := by
    rw [names, List.drop_left' length, constants]
    exact SortTable.filter_names_append (live ▸ once)
  rw [send_pop, pop, mark]
  refine ⟨?_, ?_, ?_, ?_⟩
  · show replayCalls (b.history.addAll _).toList = _
    rw [History.toList_addAll, Scopes.replayCalls_append h.replayed]
    exact makes
  · show b.constants.filter _ = _
    rw [filtered, List.append_nil]
  · show b.declared.take _ = SortTable.names (b.constants.filter _)
    rw [filtered, names, List.take_left' length]
  · show b.marks.drop 1 = _
    rw [h.marks, opened]
    rfl

/-- A call that changes nothing in the scopes. -/
theorem Heard.call (h : b.Heard scopes pending) {e : Event} (idle : scopes.call e = some scopes) :
    ({ b with history := b.history.addAll [e] } : InProcess).Heard scopes pending where
  replayed := by
    rw [History.toList_addAll, Scopes.replayCalls_append h.replayed, idle]
  constants := h.constants
  declared := h.declared
  marks := h.marks

theorem heard_setDeadline (h : b.Heard scopes pending) :
    b.setDeadline.state.Heard scopes pending := by
  unfold setDeadline
  split
  · exact h
  · split
    · exact h.call rfl
    · exact h

theorem heard_start (binding : Binding) (deadline : Option Seconds) :
    (start binding deadline).state.Heard {} [] := by
  have made : InProcess.Heard { binding, deadline, history := ({} : History).addAll [.solverMade] }
      {} [] := ⟨rfl, rfl, rfl, rfl⟩
  unfold start
  rw [Reply.andThen_of_ok rfl]
  exact heard_setDeadline made

theorem heard_check (h : b.Heard scopes pending) : b.check.state.Heard scopes pending := by
  have checked := h.call (e := .checked) rfl
  unfold check
  rw [Reply.andThen_of_ok rfl]
  dsimp only
  cases b.binding.verdict b.history with
  | sat => exact checked
  | unsat => exact checked
  | unknown reason =>
    dsimp only
    split <;> exact checked

theorem send_produceModels (b : InProcess) : b.send Command.produceModels.text = b.call [] := by
  have others (start : String)
      (apart : (startsWith Command.produceModels.lead start ||
        startsWith start Command.produceModels.lead) = false) :
      startsWith Command.produceModels.text start = false :=
    Command.startsWith_text_eq_false apart
  rw [send, others _ (by decide), others _ (by decide), others _ (by decide),
    others _ (by decide), others _ (by decide)]
  rfl

theorem send_setLogic (b : InProcess) (logic : String) :
    b.send (Command.setLogic logic).text =
      (b.call [.solverMadeFor (logicOf (Command.setLogic logic).text)]).andThen
        fun _ => setDeadline := by
  have others (start : String)
      (apart : (startsWith Command.logicLead start ||
        startsWith start Command.logicLead) = false) :
      startsWith (Command.setLogic logic).text start = false :=
    Command.startsWith_text_eq_false apart
  rw [send, others _ (by decide), others _ (by decide), others _ (by decide),
    others _ (by decide), if_neg Bool.false_ne_true, if_neg Bool.false_ne_true,
    if_neg Bool.false_ne_true, if_neg Bool.false_ne_true,
    if_pos (Command.startsWith_text (by rw [Command.lead]; decide))]

/-- The first words set options or start over, before anything else is said. -/
theorem heard_greeting (h : b.Heard {} []) {c : Command}
    (greeting : c = .produceModels ∨ ∃ logic, c = .setLogic logic) :
    (b.send c.text).state.Heard {} [] := by
  obtain rfl | ⟨logic, rfl⟩ := greeting
  · rw [send_produceModels]
    exact h
  · rw [send_setLogic, Reply.andThen_of_ok rfl]
    -- the logic starts the solver over, which is why nothing may have been said before
    refine heard_setDeadline ⟨?_, h.constants, h.declared, h.marks⟩
    show replayCalls (b.history.addAll _).toList = _
    rw [History.toList_addAll, Scopes.replayCalls_append h.replayed]
    rfl

end InProcess

/-! ## Both -/

namespace Channel

/-- **What a solver has heard**: replaying it gives the scopes, and the pending
constants have been declared in the innermost one besides. -/
def Heard (scopes : Scopes) (pending : SortTable) : Channel → Prop
  | process p => replay p.history.commands = some (scopes.declaring pending)
  | inProcess b => b.Heard scopes pending

variable {channel : Channel} {scopes scopes' : Scopes} {pending : SortTable}

theorem follows_process {p : Process} {text : String} {before after : Channel → Prop}
    (h : (p.send text).Follows (fun p => before (process p)) fun p => after (process p)) :
    ((process p).send text).Follows before after := h

theorem follows_inProcess {b : InProcess} {text : String} {before after : Channel → Prop}
    (h : (b.send text).Follows (fun b => before (inProcess b)) fun b => after (inProcess b)) :
    ((inProcess b).send text).Follows before after := h

/-- A constant that is not live is declared. -/
theorem follows_declare (h : channel.Heard scopes pending) {name : String}
    (writable : isWritable name = true) (fresh : name ∉ (scopes.live ++ pending).names)
    (sort : SmtSort) :
    (channel.send (Command.declare name sort).text).Follows (Heard scopes pending)
      (Heard scopes (pending ++ [(name, sort)])) := by
  cases channel with
  | process p =>
    have written : (Command.declare name sort).Written := writable
    have makes : (scopes.declaring pending).step (.declare name sort) =
        some ((scopes.declaring pending).declaring [(name, sort)]) :=
      Scopes.step_declare (by rwa [Scopes.live_declaring]) sort
    rw [← Scopes.declaring_append] at makes
    exact follows_process (p.follows_send h written makes)
  | inProcess b => exact follows_inProcess (b.follows_declare h writable fresh sort)

/-- A truth value over the live constants and the pending ones is asserted. -/
theorem follows_assert (h : channel.Heard scopes pending) {t : Term}
    (written : (Command.assert t).Written) (sorted : t.sort? (scopes.live ++ pending) = some .bool) :
    (channel.send (Command.assert t).text).Follows (Heard scopes pending)
      (Heard ((scopes.declaring pending).asserting t) []) := by
  cases channel with
  | process p =>
    have makes := Scopes.step_assert (s := scopes.declaring pending) (t := t)
      (by rwa [Scopes.live_declaring])
    have taken := p.follows_send h written makes
    rw [← Scopes.declaring_nil ((scopes.declaring pending).asserting t)] at taken
    exact follows_process taken
  | inProcess b => exact follows_inProcess (b.follows_assert h written sorted)

/-- A scope is opened. -/
theorem follows_push (h : channel.Heard scopes []) :
    (channel.send Command.push.text).Follows (Heard scopes []) (Heard scopes.opening []) := by
  cases channel with
  | process p =>
    have makes : (scopes.declaring []).step .push = some (scopes.opening.declaring []) := by
      simp [Scopes.step]
    exact follows_process (p.follows_send h trivial makes)
  | inProcess b => exact follows_inProcess (b.follows_push h)

/-- The innermost scope is closed. -/
theorem follows_pop (h : channel.Heard scopes []) (once : scopes.live.names.Nodup)
    {saved : SortTable} {around : List SortTable} (opened : scopes.saved = saved :: around)
    (makes : scopes.step .pop = some scopes') :
    (channel.send Command.pop.text).Follows (Heard scopes []) (Heard scopes' []) := by
  cases channel with
  | process p =>
    rw [← Scopes.declaring_nil scopes, ← Scopes.declaring_nil scopes'] at makes
    exact follows_process (p.follows_send h trivial makes)
  | inProcess b => exact follows_inProcess (b.follows_pop h once opened makes)

/-- A check changes no scope. -/
theorem heard_askStatus (h : channel.Heard scopes []) (deadline : Option Seconds) :
    (channel.askStatus deadline).state.Heard scopes [] := by
  cases channel with
  | process p => exact p.heard_ask (c := .checkSat) h trivial rfl deadline
  | inProcess b => exact b.heard_check h

/-- A request for the values of live constants changes no scope. -/
theorem heard_askValues (h : channel.Heard scopes []) {names : List String}
    (writable : ∀ x ∈ names, isWritable x = true) (known : ∀ x ∈ names, x ∈ scopes.live.names)
    (deadline : Option Seconds) (sorts : SortTable) :
    (channel.askValues deadline sorts names).state.Heard scopes [] := by
  cases channel with
  | process p =>
    have written : (Command.getValue names).Written := writable
    exact p.heard_ask h written (Scopes.step_getValue (by simpa using known)) deadline
  | inProcess b => exact h

/-- The first words leave a new solver with one empty scope. -/
theorem heard_greeting (h : channel.Heard {} []) {c : Command}
    (greeting : c = .produceModels ∨ ∃ logic, c = .setLogic logic) :
    (channel.send c.text).state.Heard {} [] := by
  cases channel with
  | process p =>
    have idle : c.Written ∧ ({} : Scopes).step c = some {} := by
      obtain rfl | ⟨logic, rfl⟩ := greeting <;> exact ⟨trivial, rfl⟩
    have heard : replay p.history.commands = some {} := h
    have follows := p.follows_send heard idle.1 idle.2
    unfold Reply.Follows at follows
    show replay (p.send c.text).state.history.commands = some {}
    split at follows
    · exact follows
    · exact follows.1
  | inProcess b => exact b.heard_greeting h greeting

end Channel

end SmtDialogue
