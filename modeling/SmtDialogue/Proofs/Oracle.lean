import SmtDialogue.Proofs.Pairing
import SmtDialogue.Proofs.Transmission

/-!
# Solvers that answer from an oracle

An oracle decides what a solver answers: the status of a check and the values of
constants, by all that has been done with the assertions so far and by the scopes
that are open then. A process answers from an oracle when it takes every command
and prints the answers of the oracle, each as one whole answer; an in-process
solver does when it rejects no assertion and gives the answers as they are. Both
learn about assertions, scopes and checks, and so what has been done (`deeds`) is
read off what either kind of solver has seen.

Exchanges with such a solver go through, whatever its kind, and what is said to
the session is what the oracle says (`Channel.Tells.send`,
`Channel.Tells.askStatus`, `Channel.Tells.askValues`).
-/

namespace SmtDialogue

open Smt

open Smt.Scopes (replay replayCalls)

/-! ## Answers as they are read -/

namespace Text

/-- A text is what is left of it when it is trimmed, between blanks. -/
theorem exists_of_trim (s : String) : ∃ before after : List Char,
    s.toList = before ++ ((trim s).toList ++ after) ∧ (∀ c ∈ before, isBlank c = true) ∧
      ∀ c ∈ after, isBlank c = true := by
  have blank {cs : List Char} : ∀ c ∈ cs.takeWhile isBlank, isBlank c = true :=
    List.all_eq_true.1 List.all_takeWhile
  let rest := s.toList.dropWhile isBlank
  refine ⟨s.toList.takeWhile isBlank, (rest.reverse.takeWhile isBlank).reverse, ?_, blank,
    fun c hc => blank c (List.mem_reverse.1 hc)⟩
  rw [toList_trim, trimChars, ← List.reverse_append, List.takeWhile_append_dropWhile,
    List.reverse_reverse, List.takeWhile_append_dropWhile]

end Text

/-- A word between blanks is read as the word. -/
theorem Item.parse_of_trim {response word : String} (writable : (Token.bare word).Writable)
    (trimmed : Text.trim response = word) : parse response = .ok [.symbol word] := by
  obtain ⟨before, after, shape, blankBefore, blankAfter⟩ := Text.exists_of_trim response
  have laid : Laid False [.bare word] (before ++ (word.toList ++ [])) :=
    .cons (Gap.of_blanks blankBefore) nofun .nil
  have scanned := laid.scan (List.forall_mem_singleton.2 writable) (Gap.of_blanks blankAfter)
  rw [List.append_nil, List.append_assoc, ← trimmed, ← shape, String.ofList_toList, trimmed]
    at scanned
  rw [Item.parse_of_scan scanned]
  rfl

namespace Answer

/-- An answer that is the word of a status is read as this status. -/
theorem status_of_trim {response : String} {status : Status}
    (trimmed : Text.trim response = status.word) (solver : String) :
    Answer.status solver response = .ok status := by
  have writable : (Token.bare status.word).Writable := by
    cases status <;> decide
  unfold Answer.status Answer.items
  rw [Item.parse_of_trim writable trimmed, Outcome.bind_ok]
  show Status.ofResponse response = _
  unfold Status.ofResponse
  rw [trimmed]
  cases status <;> rfl

/-- Values of names without a line separator are written without one. -/
theorem breakFree_pairsForm (ρ : Valuation) {names : List String}
    (whole : ∀ x ∈ names, Text.BreakFree x) : Text.BreakFree (pairsForm ρ names).text := by
  rw [pairsForm, Form.text_list, List.map_map]
  refine Text.breakFree_append.2 ⟨Text.breakFree_append.2 ⟨by decide,
    Text.breakFree_intercalate (by decide) fun s hs => ?_⟩, by decide⟩
  obtain ⟨x, hx, rfl⟩ := List.mem_map.1 hs
  rw [Function.comp_apply, Form.text_list]
  refine Text.breakFree_append.2 ⟨Text.breakFree_append.2 ⟨by decide,
    Text.breakFree_intercalate (by decide) fun part here => ?_⟩, by decide⟩
  rw [List.map_cons, List.map_singleton, text_nameForm, text_literalForm] at here
  rcases List.mem_pair.1 here with rfl | rfl
  · exact breakFree_symbolText (whole x hx)
  · exact breakFree_literalText (ρ x)

/-- The values of some names, one after the other, on top of those read before. -/
def readValues (ρ : Valuation) (found : Model) : List String → Except Fault Model
  | [] => .ok found
  | x :: names => do
    let v ← value (literalForm (ρ x)).item
    readValues ρ (found.set x v) names

/-- **What is read of the values of a valuation.** -/
def reading (ρ : Valuation) (names : List String) : Except Fault Model :=
  (readValues ρ [] names).map fun found => select found names

theorem entries_eq_readValues (response : String) (ρ : Valuation) (found : Model)
    (names : List String) : entries response found (pairs ρ names) = readValues ρ found names := by
  induction names generalizing found with
  | nil => rfl
  | cons x names ih =>
    show (value (literalForm (ρ x)).item >>= fun v =>
      entries response (found.set x v) (pairs ρ names)) = _
    simp only [ih]
    rfl

/-- Only the length of a numeral keeps a value from being read, and the dialogue
goes on. -/
theorem endsDialogue_of_readValues {ρ : Valuation} {found : Model} {names : List String}
    {fault : Fault} (failed : readValues ρ found names = .error fault) :
    fault.endsDialogue = false := by
  induction names generalizing found with
  | nil => cases failed
  | cons x names ih =>
    rcases Outcome.bind_eq_error_iff.1 failed with failed | ⟨v, -, failed⟩
    · rcases value_literalForm_cases (ρ x) with read | ⟨digits, tooLong⟩
      · cases failed.symm.trans read
      · cases failed.symm.trans tooLong
        rfl
    · exact ih failed

theorem endsDialogue_of_reading {ρ : Valuation} {names : List String} {fault : Fault}
    (failed : reading ρ names = .error fault) : fault.endsDialogue = false := by
  unfold reading at failed
  cases read : readValues ρ [] names with
  | ok found =>
    rw [read] at failed
    cases failed
  | error fault' =>
    rw [read] at failed
    cases failed
    exact endsDialogue_of_readValues read

/-- **The values of a valuation are read in one way**, however they are laid out
and whichever solver gives them. -/
theorem values_eq_reading {response : String} {ρ : Valuation} {names : List String}
    (answer : Item.parse response = .ok [.list (pairs ρ names)]) (solver : String) :
    values solver response names = reading ρ names := by
  have noError : (Item.list (pairs ρ names)).errorMessage? = none := by
    cases names <;> rfl
  unfold values
  rw [items, answer]
  simp only [Outcome.bind_ok, noError, entries_eq_readValues]
  unfold reading
  cases read : readValues ρ [] names with
  | error fault => rfl
  | ok found =>
    have missing : names.filter (fun name => (found.valueOf? name).isNone) = [] := by
      rw [List.filter_eq_nil_iff]
      intro x hx
      rw [entries_pairs ((entries_eq_readValues response ρ [] names).trans read), if_pos hx]
      exact Bool.false_ne_true
    rw [Outcome.bind_ok, missing]
    rfl

end Answer

/-! ## What has been done -/

/-- Whether a command is about the assertions: an assertion, a scope opened or
closed, or a check. -/
def Smt.isDeed (command : String) : Bool :=
  startsWith command "(assert " || startsWith command "(push" || startsWith command "(pop" ||
    startsWith command "(check-sat"

/-- What has been done with the assertions of a solver, as the command that says
so. -/
def Event.deed? : Event → Option String
  | written command => if isDeed command then some command else none
  | asserted command _ => some command
  | pushed => some Command.push.text
  | popped => some Command.pop.text
  | checked => some Command.checkSat.text
  | spawned _ | killed | solverMade | solverMadeFor _ | deadlineSet _ => none

/-- All that has been done with the assertions of a solver. -/
def History.deeds (h : History) : List String :=
  h.toList.filterMap Event.deed?

theorem History.deeds_addAll (h : History) (es : List Event) :
    (h.addAll es).deeds = h.deeds ++ es.filterMap Event.deed? := by
  simp [deeds]

/-- What a command does with the assertions. -/
def Smt.Command.deed? : Command → Option String
  | assert t => some (assert t).text
  | push => some push.text
  | pop => some pop.text
  | checkSat => some checkSat.text
  | produceModels | setLogic _ | declare .. | getValue _ | exit => none

/-- Whether a command has no answer and does not end the dialogue; its name can be
written, if it has one. -/
def Smt.Command.IsStatement : Command → Prop
  | declare name _ => isWritable name = true
  | checkSat | getValue _ | exit => False
  | produceModels | setLogic _ | assert _ | push | pop => True

/-- What a command does with the assertions is read off its text. -/
theorem Smt.Command.deed?_text (c : Command) : (Event.written c.text).deed? = c.deed? := by
  show (if isDeed c.text then some c.text else none) = c.deed?
  unfold isDeed
  cases c with
  | assert t =>
    have assertion : startsWith (assert t).text "(assert " = true :=
      startsWith_text (by rw [lead]; decide)
    rw [assertion]
    rfl
  | push => rfl
  | pop => rfl
  | checkSat => rfl
  | produceModels | setLogic | declare | getValue | exit =>
    iterate 4 rw [startsWith_text_eq_false (by rw [lead]; decide)]
    rfl

/-! ## Oracles -/

/-- **An oracle**: what is answered to a check and to a request for values, by all
that has been done with the assertions and by the open scopes with their
constants. -/
structure Oracle where
  /-- The status of the assertions. -/
  status : List String → Scopes → Status
  /-- The values of constants. -/
  values : List String → Scopes → Valuation

/-- **An in-process solver answers from an oracle**: it rejects no assertion, does
not run out of time, and gives the answers of the oracle as they are. -/
structure Binding.Tells (b : Binding) (o : Oracle) : Prop where
  /-- It takes every assertion. -/
  takes : ∀ h command, b.rejection h command = none
  /-- It gives the status. -/
  status : ∀ {h scopes}, replayCalls h.toList = some scopes →
    match o.status h.deeds scopes with
    | .sat => b.verdict h = .sat
    | .unsat => b.verdict h = .unsat
    | .unknown => ∃ reason, b.verdict h = .unknown reason ∧ reason ≠ "timeout" ∧ reason ≠ "canceled"
  /-- It gives the values of live constants. -/
  values : ∀ {h scopes x sort}, replayCalls h.toList = some scopes →
    scopes.live.sortOf? x = some sort → b.value h x sort = .plain (o.values h.deeds scopes x)

/-- **A process answers from an oracle**: it takes every command and goes on, as
long as it is not asked to end, and prints nothing but answers to questions. What it
prints arrives in time, each time as one whole answer, and is what the oracle says. -/
structure Behaviour.Tells (newlines : Newlines) (deadline : Option Seconds) (b : Behaviour)
    (o : Oracle) : Prop where
  /-- It takes every command and goes on. -/
  takes : ∀ h command, command ≠ Command.exit.text → ∃ r, b h command = .taken r ∧
    r.ends = false ∧ r.closesOutput = false ∧ r.InTime deadline ∧
      (isQuestion command = false → r.printed = "")
  /-- It prints the word of the status. -/
  status : ∀ {h scopes r}, replay h.commands = some scopes →
    b h Command.checkSat.text = .taken r →
      ∃ text, newlines.Delivers r.printed text ∧ WholeAnswer text ∧
        Text.trim text = (o.status h.deeds scopes).word
  /-- It prints a list of the values of live constants, as far as their names can be
  written and arrive as they are. -/
  values : ∀ {h scopes names r}, replay h.commands = some scopes →
    (∀ x ∈ names, x ∈ scopes.live.names) → (∀ x ∈ names, isWritable x = true) →
      (∀ x ∈ names, Text.BreakFree x) → b h (Command.getValue names).text = .taken r →
      ∃ text, newlines.Delivers r.printed text ∧ WholeAnswer text ∧
        Item.parse text = .ok [.list (Answer.pairs (o.values h.deeds scopes) names)]

/-- Whether a deadline can be kept by solvers of both kinds: it is a number of
milliseconds, and its end can be named on the clock. -/
def KeepableBy (deadline : Option Seconds) : Prop :=
  ∀ d ∈ deadline, d.milliseconds?.isSome = true ∧ d.isOnClock = true

theorem KeepableBy.canKeep {deadline : Option Seconds} (h : KeepableBy deadline) :
    InProcess.CanKeep deadline :=
  fun d given => (h d given).1

/-! ## Exchanges -/

namespace Process

variable {p : Process}

/-- **A process that is ready for the next command**: it is running, its output is
open, and nothing of it waits to be read. -/
structure Attentive (deadline : Option Seconds) (p : Process) : Prop where
  /-- It is running. -/
  alive : p.alive = true
  /-- Its output is open. -/
  isOpen : p.outputOpen = true
  /-- Nothing waits. -/
  silent : p.Holding (deadline.all Seconds.allowsWait) []

/-- Reading an answer takes it off the queue, and no more. -/
theorem exists_state_read {deadline : Option Seconds} {text : String}
    (ok : (p.read deadline).outcome = .ok text) :
    ∃ rest, (p.read deadline).state = { p with queue := rest } := by
  unfold read at ok ⊢
  split at ok
  · cases ok
  · dsimp only at ok ⊢
    generalize gather _ "" p.queue = gathering at ok ⊢
    obtain ⟨gathered, rest⟩ := gathering
    cases gathered with
    | answer => exact ⟨rest, rfl⟩
    | broken | ended => cases ok
    | silent =>
      obtain ⟨fault, failed⟩ : ∃ fault,
          (({ p with queue := rest } : Process).expire deadline).outcome = .error fault := by
        unfold expire
        split <;> exact ⟨_, rfl⟩
      cases failed.symm.trans ok

/-- A process that goes on after a command has only printed. -/
theorem react_of_goesOn (p : Process) {r : Reaction} (goesOn : r.ends = false)
    (stays : r.closesOutput = false) : p.react r = p.printAll r := by
  rw [react, goesOn, stays]
  rfl

namespace Attentive

variable {deadline : Option Seconds} {command : String} {r : Reaction}

/-- A process that goes on holds what it has printed. -/
theorem react (h : p.Attentive deadline) (goesOn : r.ends = false) (stays : r.closesOutput = false)
    (inTime : r.InTime deadline) {text : String} (delivers : p.newlines.Delivers r.printed text)
    (ended : (Text.splitFeeds text).2 = "") :
    (p.react r).alive = true ∧ (p.react r).outputOpen = true ∧
      (p.react r).Holding (deadline.all Seconds.allowsWait) (Text.splitFeeds text).1 := by
  have holding := h.silent.printAll delivers ended inTime
  rw [if_pos h.isOpen, List.nil_append] at holding
  obtain ⟨alive, isOpen⟩ := p.alive_printAll r
  rw [p.react_of_goesOn goesOn stays]
  exact ⟨alive.trans h.alive, isOpen.trans h.isOpen, holding⟩

/-- A process that hears a command is as ready as before. -/
theorem hearing (h : p.Attentive deadline) (command : String) :
    (p.hearing command).Attentive deadline :=
  ⟨h.alive, h.isOpen, h.silent.hearing command⟩

/-- **A command is taken**, and the process is ready for the next. -/
theorem send (h : p.Attentive deadline) (taken : p.behaviour p.history command = .taken r)
    (goesOn : r.ends = false) (stays : r.closesOutput = false) (inTime : r.InTime deadline)
    (mute : r.printed = "") :
    ∃ q, p.send command = { outcome := .ok (), state := q, events := [.written command] } ∧
      q.Attentive deadline ∧ (p.hearing command).Persists q := by
  have takes : p.Takes command r := ⟨h.alive, taken⟩
  have delivers : p.newlines.Delivers r.printed "" := by
    rw [mute]
    exact p.newlines.delivers_of_not_mem List.not_mem_nil
  obtain ⟨alive, isOpen, holding⟩ :=
    (h.hearing command).react goesOn stays inTime delivers rfl
  exact ⟨_, takes.send, ⟨alive, isOpen, holding⟩, persists_react _ _⟩

/-- **A question is answered**, and the process is ready for the next. -/
theorem ask (h : p.Attentive deadline) (taken : p.behaviour p.history command = .taken r)
    (goesOn : r.ends = false) (stays : r.closesOutput = false) (inTime : r.InTime deadline)
    {text : String} (delivers : p.newlines.Delivers r.printed text) (whole : WholeAnswer text)
    (onClock : deadline.filter (!·.isOnClock) = none) :
    (p.ask deadline command).outcome = .ok text ∧
      (p.ask deadline command).state.Attentive deadline ∧
      (p.hearing command).Persists (p.ask deadline command).state := by
  have takes : p.Takes command r := ⟨h.alive, taken⟩
  obtain ⟨state, outcome⟩ := takes.ask deadline
  obtain ⟨alive, isOpen, holding⟩ :=
    (h.hearing command).react goesOn stays inTime delivers whole.ended
  rw [← List.append_nil (Text.splitFeeds text).1] at holding
  obtain ⟨silent, read⟩ := (holding.read_answer whole onClock).resolve_right
    fun ⟨⟨waits, impatient⟩, _⟩ => nomatch waits.symm.trans impatient
  obtain ⟨rest, left⟩ := exists_state_read read
  rw [state]
  refine ⟨outcome.trans read, ⟨?_, ?_, silent⟩,
    (persists_react _ r).trans (persists_read _ deadline).1⟩
  · rw [left]
    exact alive
  · rw [left]
    exact isOpen

end Attentive

end Process

namespace Channel

/-- **A solver at the other end that answers from an oracle**, and is ready for the
next exchange. -/
def Tells (o : Oracle) (deadline : Option Seconds) : Channel → Prop
  | process p => p.behaviour.Tells p.newlines deadline o ∧ p.Attentive deadline
  | inProcess b => b.binding.Tells o ∧ KeepableBy b.deadline

/-- All that has been done with the assertions at the other end. -/
def deeds : Channel → List String
  | process p => p.history.deeds
  | inProcess b => b.history.deeds

/-- **An exchange that goes through**: it has a result, the solver is ready for the
next exchange, and it has been done what the exchange does. -/
structure Grants (o : Oracle) (deadline : Option Seconds) {α : Type} (c : Channel)
    (deeds : List String) (reply : Reply Channel α) (result : α) : Prop where
  /-- The result. -/
  outcome : reply.outcome = .ok result
  /-- The solver after it. -/
  tells : reply.state.Tells o deadline
  /-- What has been done. -/
  done : reply.state.deeds = c.deeds ++ deeds

variable {o : Oracle} {c : Channel} {scopes : Scopes} {deadline : Option Seconds}

/-- A command that is not the last word. -/
theorem text_ne_exit {c : Command} (other : c ≠ .exit) : c.text ≠ Command.exit.text := by
  intro same
  have apart (lead : (startsWith c.lead Command.exit.text ||
      startsWith Command.exit.text c.lead) = false) : False := by
    have starts : startsWith c.text Command.exit.text = true := by
      rw [same]
      exact Command.startsWith_iff.2 List.prefix_rfl
    rw [Command.startsWith_text_eq_false lead] at starts
    cases starts
  cases c with
  | exit => exact other rfl
  | _ => exact apart (by rw [Command.lead]; decide)

theorem deeds_written {p q : Process} {c : Command} (persists : (p.hearing c.text).Persists q) :
    q.history.deeds = p.history.deeds ++ c.deed?.toList := by
  rw [persists.history, ← Command.deed?_text c]
  show (p.history.addAll [.written c.text]).deeds = _
  rw [History.deeds_addAll]
  cases does : (Event.written c.text).deed? <;> simp [does]

/-- A process that has heard a command, and is ready for the next, answers from the
oracle as before. -/
theorem tells_of_persists {p q : Process} {command : String}
    (tells : (process p).Tells o deadline) (persists : (p.hearing command).Persists q)
    (attentive : q.Attentive deadline) : (process q).Tells o deadline := by
  refine ⟨?_, attentive⟩
  rw [persists.behaviour, persists.newlines]
  exact tells.1

/-- Calls go through, whatever is kept on this side along with them. -/
theorem grants_call {b b' : InProcess} {events : List Event} (tells : (inProcess b).Tells o deadline)
    (es : List Event) (binding : b'.binding = b.binding) (limit : b'.deadline = b.deadline)
    (history : b'.history = b.history.addAll es) :
    (inProcess b).Grants o deadline (es.filterMap Event.deed?)
      { outcome := .ok (), state := inProcess b', events } () where
  outcome := rfl
  tells := ⟨binding ▸ tells.1, limit ▸ tells.2⟩
  done := by
    show b'.history.deeds = _
    rw [history, History.deeds_addAll]
    rfl

/-- A deadline that can be kept is handed to the solver. -/
theorem exists_setDeadline {b : InProcess} (keepable : InProcess.CanKeep b.deadline) :
    ∃ es, b.setDeadline = b.call es ∧ es.filterMap Event.deed? = [] := by
  unfold InProcess.setDeadline
  cases limit : b.deadline with
  | none => exact ⟨[], rfl, rfl⟩
  | some d =>
    obtain ⟨ms, exact⟩ := Option.isSome_iff_exists.1 (keepable d limit)
    refine ⟨[.deadlineSet ms], ?_, rfl⟩
    simp only [exact]

/-- A new in-process solver has been told nothing. -/
theorem exists_start (binding : Binding) (keepable : InProcess.CanKeep deadline) :
    ∃ b es, InProcess.start binding deadline =
        ({ outcome := .ok (), state := b, events := es } : Reply InProcess Unit) ∧
      b.binding = binding ∧ b.deadline = deadline ∧ b.history.deeds = [] := by
  let made := (InProcess.call [.solverMade] { binding, deadline }).state
  obtain ⟨es, set, idle⟩ := exists_setDeadline (b := made) keepable
  refine ⟨(made.call es).state, .solverMade :: es, ?_, rfl, rfl, ?_⟩
  · rw [InProcess.start, Reply.andThen_of_ok rfl, set]
    rfl
  · show (made.history.addAll es).deeds = []
    rw [History.deeds_addAll, idle]
    rfl

/-- **A command without an answer goes through.** -/
theorem Tells.send (tells : c.Tells o deadline) {cmd : Command} (statement : cmd.IsStatement) :
    c.Grants o deadline cmd.deed?.toList (c.send cmd.text) () := by
  cases c with
  | process p =>
    have quiet : isQuestion cmd.text = false := by
      refine Command.isQuestion_text ?_ ?_
      · rintro rfl
        exact statement
      · rintro names rfl
        exact statement
    have other : cmd ≠ .exit := by
      rintro rfl
      exact statement
    obtain ⟨r, taken, goesOn, stays, inTime, mute⟩ :=
      tells.1.takes p.history cmd.text (text_ne_exit other)
    obtain ⟨q, sent, attentive, persists⟩ :=
      tells.2.send taken goesOn stays inTime (mute quiet)
    have reply : (process p).send cmd.text = (p.send cmd.text).mapState process := rfl
    rw [reply, sent]
    exact ⟨rfl, tells_of_persists tells persists attentive, deeds_written persists⟩
  | inProcess b =>
    have reply : (inProcess b).send cmd.text = (b.send cmd.text).mapState inProcess := rfl
    rw [reply]
    cases cmd with
    | checkSat | getValue | exit => exact statement.elim
    | produceModels =>
      rw [b.send_produceModels]
      refine grants_call tells [] ?_ ?_ ?_ <;> rfl
    | setLogic logic =>
      rw [b.send_setLogic, Reply.andThen_of_ok rfl]
      generalize InProcess.logicOf _ = name
      obtain ⟨es, set, idle⟩ :=
        exists_setDeadline (b := (b.call [.solverMadeFor name]).state) tells.2.canKeep
      rw [set]
      have none : (Event.solverMadeFor name :: es).filterMap Event.deed? = [] := idle
      show (inProcess b).Grants o deadline [] _ ()
      rw [← none]
      refine grants_call tells (.solverMadeFor name :: es) ?_ ?_ ?_ <;> rfl
    | declare name sort =>
      rw [b.send_declare, InProcess.declare_eq statement]
      refine grants_call tells [] ?_ ?_ ?_ <;> rfl
    | assert t =>
      rw [b.send_assert, tells.1.takes]
      refine grants_call tells [.asserted (Command.assert t).text b.constants] ?_ ?_ ?_ <;> rfl
    | push =>
      rw [b.send_push]
      refine grants_call tells [.pushed] ?_ ?_ ?_ <;> rfl
    | pop =>
      rw [b.send_pop]
      refine grants_call tells [.popped] ?_ ?_ ?_ <;> rfl

theorem onClock_of_keepable (keepable : KeepableBy deadline) :
    deadline.filter (!·.isOnClock) = none := by
  cases deadline with
  | none => rfl
  | some d => rw [Option.filter, (keepable d rfl).2, Bool.not_true, if_neg Bool.false_ne_true]

/-- A question that a process answers goes through. -/
theorem grants_ask {p : Process} (tells : (process p).Tells o deadline)
    (keepable : KeepableBy deadline) {question : Command} {r : Reaction} {text : String}
    (taken : p.behaviour p.history question.text = .taken r) (other : question ≠ .exit)
    (delivers : p.newlines.Delivers r.printed text) (whole : WholeAnswer text) :
    (process p).Grants o deadline question.deed?.toList
      ((p.ask deadline question.text).mapState process) text := by
  obtain ⟨r', taken', goesOn, stays, inTime, -⟩ :=
    tells.1.takes p.history question.text (text_ne_exit other)
  obtain rfl := Reception.taken.inj (taken.symm.trans taken')
  obtain ⟨outcome, attentive, persists⟩ :=
    tells.2.ask taken goesOn stays inTime delivers whole (onClock_of_keepable keepable)
  exact ⟨outcome, tells_of_persists tells persists attentive, deeds_written persists⟩

/-- **A check is answered** with the status that the oracle gives. -/
theorem Tells.askStatus (tells : c.Tells o deadline) (heard : c.Heard scopes [])
    (keepable : KeepableBy deadline) : ∃ response,
      c.Grants o deadline [Command.checkSat.text] (c.askStatus deadline) response ∧
      Text.trim response = (o.status c.deeds scopes).word := by
  cases c with
  | process p =>
    have replayed : replay p.history.commands = some scopes := by
      rw [← scopes.declaring_nil]
      exact heard
    obtain ⟨r, taken, -⟩ := tells.1.takes p.history Command.checkSat.text (text_ne_exit nofun)
    obtain ⟨text, delivers, whole, word⟩ := tells.1.status replayed taken
    exact ⟨text, grants_ask tells keepable taken nofun delivers whole, word⟩
  | inProcess b =>
    have verdict := tells.1.status heard.replayed
    -- the solver decides on what has been called before, and the call is one more
    have call (word : String) : (inProcess b).Grants o deadline [Command.checkSat.text]
        { outcome := .ok word, state := inProcess (b.call [.checked]).state
          events := [.checked] } word :=
      ⟨rfl, tells, by
        show (b.history.addAll [.checked]).deeds = _
        rw [History.deeds_addAll]
        rfl⟩
    have asked : (inProcess b).askStatus deadline = b.check.mapState inProcess := rfl
    rw [asked, InProcess.check, Reply.andThen_of_ok rfl]
    show ∃ response, _ ∧ Text.trim response = (o.status b.history.deeds scopes).word
    cases status : o.status b.history.deeds scopes with
    | sat =>
      rw [status] at verdict
      simp only [verdict]
      exact ⟨_, call "sat", by decide⟩
    | unsat =>
      rw [status] at verdict
      simp only [verdict]
      exact ⟨_, call "unsat", by decide⟩
    | unknown =>
      rw [status] at verdict
      obtain ⟨reason, verdict, noTimeout, noCancel⟩ := verdict
      have undecided : (b.deadline.isSome && (reason == "timeout" || reason == "canceled")) =
          false := by
        simp [noTimeout, noCancel]
      simp only [verdict, undecided]
      exact ⟨_, call "unknown", by decide⟩

/-- **A request for values is answered** with the values that the oracle gives. -/
theorem Tells.askValues (tells : c.Tells o deadline) (heard : c.Heard scopes [])
    (keepable : KeepableBy deadline) {names : List String}
    (known : ∀ x ∈ names, x ∈ scopes.live.names) (writable : ∀ x ∈ names, isWritable x = true)
    (whole : ∀ x ∈ names, Text.BreakFree x) :
    ∃ response, c.Grants o deadline [] (c.askValues deadline scopes.live names) response ∧
      Item.parse response = .ok [.list (Answer.pairs (o.values c.deeds scopes) names)] := by
  cases c with
  | process p =>
    have replayed : replay p.history.commands = some scopes := by
      rw [← scopes.declaring_nil]
      exact heard
    obtain ⟨r, taken, -⟩ :=
      tells.1.takes p.history (Command.getValue names).text (text_ne_exit nofun)
    obtain ⟨text, delivers, one, answer⟩ := tells.1.values replayed known writable whole taken
    exact ⟨text, grants_ask tells keepable taken nofun delivers one, answer⟩
  | inProcess b =>
    refine ⟨_, ⟨rfl, tells, (List.append_nil _).symm⟩, ?_⟩
    exact valuesText_eq (fun x sort live => tells.1.values heard.replayed live) known writable

end Channel

/-! ## Solvers for an oracle -/

namespace Oracle

/-- An in-process solver that answers from an oracle. -/
def binding (o : Oracle) : Binding where
  verdict h :=
    match o.status h.deeds ((replayCalls h.toList).getD {}) with
    | .sat => .sat
    | .unsat => .unsat
    | .unknown => .unknown ""
  value h x _ := .plain (o.values h.deeds ((replayCalls h.toList).getD {}) x)
  rejection _ _ := none

/-- A process that answers from an oracle, each time on a line of its own. -/
def behaviour (o : Oracle) : Behaviour := fun h command =>
  let scopes := (replay h.commands).getD {}
  if command = Command.exit.text then .taken { ends := true }
  else if isQuestion command then
    match Command.ofText command with
    | some .checkSat => .taken { output := (o.status h.deeds scopes).word ++ "\n" }
    | some (.getValue names) =>
      .taken { output := (Answer.pairsForm (o.values h.deeds scopes) names).text ++ "\n" }
    | _ => .taken {}
  else .taken {}

theorem tells_binding (o : Oracle) : o.binding.Tells o where
  takes _ _ := rfl
  status {h scopes} replayed := by
    simp only [binding, replayed, Option.getD_some]
    cases o.status h.deeds scopes with
    | sat | unsat => rfl
    | unknown => exact ⟨"", rfl, by decide, by decide⟩
  values {h scopes x sort} replayed _ := by
    simp only [binding, replayed, Option.getD_some]

/-- A line without a separator in it arrives as it is. -/
theorem delivers_line (newlines : Newlines) {text : String} (whole : Text.BreakFree text) :
    newlines.Delivers (Reaction.printed { output := text ++ "\n" }) (text ++ "\n") := by
  have printed : Reaction.printed { output := text ++ "\n" } = text ++ "\n" :=
    String.append_empty
  rw [printed]
  refine newlines.delivers_of_not_mem fun here => ?_
  rw [String.toList_append, List.mem_append] at here
  rcases here with here | here
  · exact absurd (whole _ here) (by decide)
  · exact absurd here (by decide)

theorem tells_behaviour (o : Oracle) (newlines : Newlines) (deadline : Option Seconds) :
    o.behaviour.Tells newlines deadline o where
  takes h command other := by
    unfold behaviour
    rw [if_neg other]
    split
    · next question =>
      split <;> exact ⟨_, rfl, rfl, rfl, .inl rfl, fun none =>
        absurd question (by rw [none]; exact Bool.false_ne_true)⟩
    · exact ⟨_, rfl, rfl, rfl, .inl rfl, fun _ => rfl⟩
  status {h scopes r} replayed taken := by
    have writable : (Form.atom (.bare (o.status h.deeds scopes).word)).Writable := by
      cases o.status h.deeds scopes <;> exact .atom (by decide) (by decide)
    have whole : Text.BreakFree (o.status h.deeds scopes).word := by
      cases o.status h.deeds scopes <;> decide
    unfold behaviour at taken
    rw [if_neg (by decide), if_pos (by decide), Command.ofText_text (c := .checkSat) trivial,
      replayed] at taken
    cases taken
    refine ⟨_, delivers_line newlines whole, (LaidOver.of_text writable).whole, ?_⟩
    show Text.trim ((o.status h.deeds scopes).word ++ "\n") = _
    cases o.status h.deeds scopes <;> decide
  values {h scopes names r} replayed _ writable whole taken := by
    have question : isQuestion (Command.getValue names).text = true := by
      have asks : startsWith (Command.getValue names).text "(get-value" = true :=
        Command.startsWith_text (by rw [Command.lead]; decide)
      rw [isQuestion, asks, Bool.or_true]
    have other : (Command.getValue names).text ≠ Command.exit.text :=
      Channel.text_ne_exit fun same => by cases same
    unfold behaviour at taken
    rw [if_neg other, if_pos question, Command.ofText_text (c := .getValue names) writable,
      replayed] at taken
    cases taken
    have laid := LaidOver.of_text (Answer.writable_pairsForm (o.values h.deeds scopes) writable)
    exact ⟨_, delivers_line newlines (Answer.breakFree_pairsForm _ whole), laid.whole,
      by rw [← Answer.item_pairsForm]; exact laid.parse⟩

end Oracle

end SmtDialogue
