import SmtDialogue.Proofs.CurrentModels
import SmtDialogue.Proofs.Framing

/-!
# Answers and their questions

A dialogue with a process is a sequence of turns: something is said to it, or a
question is asked and one answer read. Nothing marks an answer as the answer to a
question; what pairs them is only that each reading takes its lines off the queue
and no others. If one reading stopped a line early or late, all later answers
would go to the wrong questions.

For a process that says nothing but answers, each a form laid out over lines, this
does not happen (`Process.AnswersWith.framed`): the text that is read after a
question is what the process has printed to this very question, up to the line that
closes the form. Lines that follow it, blank or with a comment, wait and come before
the next answer, where they are part of the layout.

Whatever is done with a session, the process at the other end has gone through the
turns that the session's operations have taken with it (`Session.Conversed`), so all
readings of all operations are such readings (`Operation.answers_framed`). Names may
hold line separators here, and an assertion may so be taken for any commands: what is
asked for is said of the turns and not of the commands.
-/

namespace SmtDialogue

open Smt

/-! ## Turns -/

/-- A turn of a dialogue with a process. -/
inductive Process.Turn where
  /-- Something is said, and nothing is read. -/
  | said (command : String)
  /-- Something is asked, and an answer is read. -/
  | asked (command : String)
deriving DecidableEq, Repr

/-- The process after a turn. -/
def Process.Turn.after (deadline : Option Seconds) : Process.Turn → Process → Process
  | said command, p => (p.send command).state
  | asked command, p => (p.ask deadline command).state

/-- A question, with the process that it is put to. -/
structure Question where
  /-- The process before the question. -/
  process : Process
  /-- The command. -/
  command : String

/-- Whether the answer to a question is the end of the output. -/
def Question.FindsEnd (deadline : Option Seconds) (q : Question) : Prop :=
  ∃ solver detail read,
    (q.process.ask deadline q.command).outcome = .error (.exited solver detail read)

namespace Process

variable (deadline : Option Seconds)

/-- The process after some turns. -/
def through (p : Process) (turns : List Turn) : Process :=
  turns.foldl (fun p turn => turn.after deadline p) p

/-- The questions among some turns. -/
def questions (p : Process) : List Turn → List Question
  | [] => []
  | .said command :: turns => (p.send command).state.questions turns
  | .asked command :: turns => ⟨p, command⟩ :: (p.ask deadline command).state.questions turns

theorem through_append (p : Process) (turns more : List Turn) :
    p.through deadline (turns ++ more) = (p.through deadline turns).through deadline more :=
  List.foldl_append

theorem questions_append (p : Process) (turns more : List Turn) :
    p.questions deadline (turns ++ more) =
      p.questions deadline turns ++ (p.through deadline turns).questions deadline more := by
  induction turns generalizing p with
  | nil => rfl
  | cons turn turns ih =>
    cases turn with
    | said command => exact ih _
    | asked command => exact congrArg (⟨p, command⟩ :: ·) (ih _)

/-- Whether the output of a process lasts through some turns: no answer in them is
the end of it. -/
def Lasts (p : Process) (turns : List Turn) : Prop :=
  ∀ q ∈ p.questions deadline turns, ¬ q.FindsEnd deadline

theorem lasts_append {p : Process} {turns more : List Turn} :
    p.Lasts deadline (turns ++ more) ↔
      p.Lasts deadline turns ∧ (p.through deadline turns).Lasts deadline more := by
  unfold Lasts
  rw [questions_append, List.forall_mem_append]

/-- So it does through the first ones of these turns. -/
theorem Lasts.of_part {p : Process} {turns more : List Turn} (h : p.Lasts deadline more)
    (first : turns <+: more) : p.Lasts deadline turns := by
  obtain ⟨rest, rfl⟩ := first
  exact ((lasts_append deadline).1 h).1

/-- All turns but the last, if there are more turns after the first ones. -/
theorem Lasts.dropLast_append {p : Process} {turns more : List Turn} (h : p.Lasts deadline turns)
    (rest : (p.through deadline turns).Lasts deadline more.dropLast) :
    p.Lasts deadline (turns ++ more).dropLast := by
  cases more with
  | nil =>
    rw [List.append_nil]
    exact h.of_part deadline (List.dropLast_prefix turns)
  | cons turn more =>
    rw [List.dropLast_append_of_ne_nil (List.cons_ne_nil turn more)]
    exact (lasts_append deadline).2 ⟨h, rest⟩

/-- Nothing is read in turns in which something is said. -/
theorem lasts_said (p : Process) (commands : List String) :
    p.Lasts deadline (commands.map .said) := by
  induction commands generalizing p with
  | nil => exact List.forall_mem_nil _
  | cons command rest ih => exact ih _

/-- **A process that only answers**, with some forms, in some turns with it: it
prints nothing to what is said, and what it prints to each question arrives, in time,
as one form laid out over lines, after which there may be more lines with nothing in
them but blanks and comments. -/
inductive AnswersWith : Process → List Turn → List Form → Prop
  /-- No turn is left. -/
  | nil {p : Process} : AnswersWith p [] []
  /-- Nothing is printed to what is said. -/
  | said {p : Process} {command : String} {r : Reaction} {turns : List Turn} {forms : List Form}
    (takes : p.Takes command r) (inTime : r.InTime deadline) (mute : r.printed = "")
    (others : AnswersWith (p.send command).state turns forms) :
    AnswersWith p (.said command :: turns) forms
  /-- A form is printed to what is asked. -/
  | asked {p : Process} {command : String} {r : Reaction} {f : Form} {answer late : String}
    {turns : List Turn} {forms : List Form}
    (takes : p.Takes command r) (isOpen : p.outputOpen = true) (inTime : r.InTime deadline)
    (delivers : p.newlines.Delivers r.printed (answer ++ late)) (laid : LaidOver f answer)
    (blank : Gap late.toList) (ended : (Text.splitFeeds late).2 = "")
    (others : AnswersWith (p.ask deadline command).state turns forms) :
    AnswersWith p (.asked command :: turns) (f :: forms)

end Process

/-- **A question whose answer is read exactly**: what the process prints arrives as an
answer and perhaps more lines, some lines wait already, and what is read are the
waiting lines and the answer, and not the lines that are late. -/
structure Question.ReadBy (deadline : Option Seconds) (q : Question) (f : Form)
    (waiting answer late : String) : Prop where
  /-- The answer and the late lines are what arrives of what the process prints to this
  question. -/
  printed : ∃ r, q.process.Takes q.command r ∧
    q.process.newlines.Delivers r.printed (answer ++ late)
  /-- The answer is the form, laid out over lines. -/
  laid : LaidOver f answer
  /-- The waiting lines are in the queue, and no others. -/
  before : q.process.Holding (deadline.all Seconds.allowsWait) (Text.splitFeeds waiting).1
  /-- Neither they nor the late lines hold anything. -/
  blank : Gap waiting.toList ∧ Gap late.toList
  /-- The text that is read. -/
  reading : (q.process.ask deadline q.command).outcome = .ok (waiting ++ answer)
  /-- The late lines are in the queue afterwards, and no others. -/
  after : (q.process.ask deadline q.command).state.Holding (deadline.all Seconds.allowsWait)
    (Text.splitFeeds late).1
  /-- What is read is the item of the form. -/
  item : Item.parse (waiting ++ answer) = .ok [f.item]
  /-- It is complete with its last line, and not before. -/
  whole : WholeAnswer (waiting ++ answer)

/-- Whether a question is answered with a form, read exactly. -/
def Question.Framed (deadline : Option Seconds) (f : Form) (q : Question) : Prop :=
  ∃ waiting answer late, q.ReadBy deadline f waiting answer late

namespace Process

variable {deadline : Option Seconds} {p : Process} {command : String} {r : Reaction}

/-- **Every question of a process that only answers is answered exactly**, and with
the forms in their order. -/
theorem AnswersWith.framed {turns : List Turn} {forms : List Form}
    (answers : p.AnswersWith deadline turns forms)
    (onClock : deadline.filter (!·.isOnClock) = none) {waiting : String}
    (ended : (Text.splitFeeds waiting).2 = "") (blank : Gap waiting.toList)
    (holding : p.Holding (deadline.all Seconds.allowsWait) (Text.splitFeeds waiting).1) :
    List.Forall₂ (Question.Framed deadline) forms (p.questions deadline turns) := by
  induction answers generalizing waiting with
  | nil => exact .nil
  | @said p command r turns forms takes inTime mute _ ih =>
    refine ih ended blank ?_
    rw [takes.send]
    exact (holding.hearing command).react_mute mute inTime
  | @asked p command r f answer late turns forms takes isOpen inTime delivers laid later
      lateEnded _ ih =>
    have whole := (laid.after_gap blank).whole
    have cut := Text.splitFeeds_append laid.ended late
    have queued : ((p.hearing command).react r).Holding (deadline.all Seconds.allowsWait)
        ((Text.splitFeeds (waiting ++ answer)).1 ++ (Text.splitFeeds late).1) := by
      have reacted := (holding.hearing command).react delivers (by rw [cut, lateEnded]) inTime
      rw [if_pos (show (p.hearing command).outputOpen = true from isOpen), cut] at reacted
      rw [Text.splitFeeds_append ended, List.append_assoc]
      exact reacted
    obtain ⟨left, read⟩ := (queued.read_answer whole onClock).resolve_right
      fun ⟨⟨waits, impatient⟩, _⟩ => nomatch waits.symm.trans impatient
    obtain ⟨state, outcome⟩ := takes.ask deadline
    rw [← state] at left
    rw [← outcome] at read
    refine .cons ⟨waiting, answer, late, ⟨r, takes, delivers⟩, laid, holding, ⟨blank, later⟩,
      read, left, (laid.after_gap blank).parse, whole⟩ (ih lateEnded later left)

end Process

/-! ## The turns of a session -/

/-- The command line of the process that has been started, if the event is one. -/
def Event.argv? : Event → Option (List String)
  | spawned argv => some argv
  | _ => none

/-- The command lines of the processes started among some events. -/
def startsOf (events : List Event) : List (List String) :=
  events.filterMap Event.argv?

@[simp] theorem startsOf_append (es fs : List Event) :
    startsOf (es ++ fs) = startsOf es ++ startsOf fs :=
  List.filterMap_append

namespace Process

/-- **What a process replies to** in one turn, or in none if it does not take the
command. -/
structure Replies {α : Type} (deadline : Option Seconds) (turn : String → Turn) (p : Process)
    (reply : Reply Process α) : Prop where
  /-- It has gone through the turn. -/
  state : reply.state = p.through deadline ((commandsOf reply.events).map turn)
  /-- No process is started. -/
  starts : startsOf reply.events = []
  /-- There are no more turns. -/
  single : ((commandsOf reply.events).map turn).dropLast = []
  /-- The end of the output ends the dialogue. -/
  lasts : (∀ fault, reply.outcome = .error fault → fault.endsDialogue = false) →
    p.Lasts deadline ((commandsOf reply.events).map turn)

variable (deadline : Option Seconds) (p : Process) (command : String)

/-- A command that is not taken changes nothing. -/
theorem replies_send : p.Replies deadline .said (p.send command) := by
  rcases p.send_cases command with ⟨reason, h⟩ | ⟨r, -, h⟩
  · rw [h]
    exact ⟨rfl, rfl, rfl, fun _ => List.forall_mem_nil _⟩
  · have taken : commandsOf (p.send command).events = [command] := by rw [h]; rfl
    refine ⟨?_, by rw [h]; rfl, by rw [taken]; rfl, fun _ => lasts_said deadline p _⟩
    rw [taken]
    rfl

/-- A process is killed once, or not when it has ended by itself. -/
theorem events_kill : p.kill.2 = if p.alive then [.killed] else [] := by
  unfold kill
  split <;> rfl

/-- Reading an answer starts no process. -/
theorem starts_read : startsOf (p.read deadline).events = [] := by
  unfold read
  split
  · rfl
  · rcases gather _ "" p.queue with ⟨gathered, rest⟩
    cases gathered with
    | answer | broken | ended => rfl
    | silent =>
      show startsOf (expire deadline _).events = []
      unfold expire
      split
      · rfl
      · show startsOf (kill _).2 = []
        rw [events_kill]
        split <;> rfl

theorem replies_ask : p.Replies deadline .asked (p.ask deadline command) := by
  rcases p.ask_eq deadline command with ⟨reason, h⟩ | ⟨r, -, h⟩
  · rw [h]
    exact ⟨rfl, rfl, rfl, fun _ => List.forall_mem_nil _⟩
  · let after := (p.hearing command).react r
    have taken : commandsOf (p.ask deadline command).events = [command] := by
      have quiet : commandsOf (after.read deadline).events = [] := (after.persists_read deadline).2
      rw [h]
      show command :: commandsOf (after.read deadline).events = [command]
      rw [quiet]
    have starts : startsOf (p.ask deadline command).events = [] := by
      rw [h]
      exact starts_read deadline after
    refine ⟨by rw [taken]; rfl, starts, by rw [taken]; rfl, fun goesOn => ?_⟩
    rw [taken]
    refine List.forall_mem_singleton.2 ?_
    rintro ⟨solver, detail, read, ended⟩
    cases goesOn _ ended

end Process

namespace Session

variable {s s' t : Session} {p : Process} {turn : String → Process.Turn} {α β : Type}

/-- **What an operation of a session does with its process**: it writes some
commands, the process goes through the turns with these commands, and the session
holds it then, running or, after an error, failed. The end of the output may be read
in the last turn only, and not if the session runs. -/
def Conversed (turn : String → Process.Turn) (s : Session) (p : Process)
    (r : Except SessionError α × Session) : Prop :=
  ∃ events, r.2.trace = s.trace.addAll events ∧ r.2.options = s.options ∧ startsOf events = [] ∧
    let turns := (commandsOf events).map turn
    let next := p.through s.options.deadline turns
    r.2.phase = .running (.process next) ∧ p.Lasts s.options.deadline turns ∨
      (∃ e, r.1 = .error e) ∧ r.2.phase = .failed (.process next) ∧
        p.Lasts s.options.deadline turns.dropLast

namespace Conversed

/-- Nothing is written. -/
theorem silent (running : s.phase = .running (.process p)) {r : Except SessionError α × Session}
    (phase : r.2.phase = s.phase) (trace : r.2.trace = s.trace) (options : r.2.options = s.options) :
    Conversed turn s p r :=
  ⟨[], trace, options, rfl, .inl ⟨phase.trans running, List.forall_mem_nil _⟩⟩

/-- **One operation after another** goes through the turns of both. -/
theorem bind {x : SessionM α} {f : α → SessionM β} (first : Conversed turn s p (x s))
    (second : ∀ a s' q, x s = (.ok a, s') → s'.phase = .running (.process q) →
      s'.options = s.options → Conversed turn s' q (f a s')) :
    Conversed turn s p ((x >>= f) s) := by
  rw [SessionM.bind_apply]
  rcases run : x s with ⟨e | a, s'⟩
  · rw [run] at first
    obtain ⟨events, trace, options, starts, goesOn | ⟨-, failed⟩⟩ := first
    · exact ⟨events, trace, options, starts, .inl goesOn⟩
    · exact ⟨events, trace, options, starts, .inr ⟨⟨e, rfl⟩, failed⟩⟩
  · rw [run] at first
    obtain ⟨events, trace, options, starts, ⟨running, lasts⟩ | ⟨⟨e, failed⟩, -⟩⟩ := first
    · obtain ⟨more, trace', options', starts', phase⟩ := second a s' _ run running options
      refine ⟨events ++ more, ?_, options'.trans options, ?_, ?_⟩
      · rw [trace', trace, History.addAll_append]
      · rw [startsOf_append, starts, starts']
        rfl
      · rw [options] at phase
        rw [commandsOf_append, List.map_append]
        dsimp only at phase ⊢
        rw [Process.through_append]
        refine phase.imp (fun ⟨running', lasts'⟩ => ⟨running', ?_⟩)
          fun ⟨error, failed, lasts'⟩ => ⟨error, failed, ?_⟩
        · exact (Process.lasts_append _).2 ⟨lasts, lasts'⟩
        · exact lasts.dropLast_append _ lasts'
    · cases failed

/-- An operation that ends with a change of what the session believes. -/
theorem andThen {x : SessionM α} {f : α → SessionM β} (first : Conversed turn s p (x s))
    (second : ∀ a s', (f a s').2.phase = s'.phase ∧ (f a s').2.trace = s'.trace ∧
      (f a s').2.options = s'.options) : Conversed turn s p ((x >>= f) s) :=
  first.bind fun a s' _ _ running _ =>
    have ⟨phase, trace, options⟩ := second a s'
    .silent running phase trace options

/-- Only what the session believes is different. -/
theorem congr {r : Except SessionError α × Session} (h : Conversed turn s p r)
    (trace : s.trace = s'.trace) (options : s.options = s'.options) : Conversed turn s' p r := by
  unfold Conversed
  rw [← trace, ← options]
  exact h

/-- A fault keeps the process. -/
theorem giveUp {reply : Reply Process β} (replies : p.Replies s.options.deadline turn reply)
    {fault : Fault} (outcome : reply.outcome = .error fault) :
    Conversed turn s p
      (Session.giveUp (α := α) fault (s.saying (.process reply.state) reply.events)) := by
  unfold Session.giveUp
  rw [replies.state]
  cases ends : fault.endsDialogue with
  | true =>
    rw [if_pos rfl]
    refine ⟨reply.events, rfl, rfl, replies.starts, .inr ⟨⟨_, rfl⟩, rfl, ?_⟩⟩
    rw [replies.single]
    exact List.forall_mem_nil _
  | false =>
    rw [if_neg Bool.false_ne_true]
    refine ⟨reply.events, rfl, rfl, replies.starts, .inl ⟨rfl, replies.lasts fun fault' same => ?_⟩⟩
    cases outcome.symm.trans same
    exact ends

/-- One exchange. -/
theorem exchange (running : s.phase = .running (.process p)) {act : Channel → Reply Channel α}
    {reply : Reply Process α} (acts : act (.process p) = reply.mapState .process)
    (replies : p.Replies s.options.deadline turn reply) :
    Conversed turn s p (Session.exchange act s) := by
  have state : (act (.process p)).state = .process reply.state := by rw [acts]; rfl
  have events : (act (.process p)).events = reply.events := by rw [acts]; rfl
  have same : (act (.process p)).outcome = reply.outcome := by rw [acts]; rfl
  cases outcome : (act (.process p)).outcome with
  | ok a =>
    rw [exchange_of_ok running outcome]
    refine ⟨reply.events, ?_, rfl, replies.starts, .inl ⟨?_, replies.lasts fun fault error => ?_⟩⟩
    · show s.trace.addAll (act (.process p)).events = _
      rw [events]
    · show Phase.running (act (.process p)).state = _
      rw [state, replies.state]
    · cases (same.symm.trans outcome).symm.trans error
  | error fault =>
    rw [exchange_of_error running outcome, Session.after, state, events]
    exact giveUp replies (same.symm.trans outcome)

/-- An answer is interpreted. -/
theorem interpret (running : s.phase = .running (.process p)) (answer : Except Fault α) :
    Conversed turn s p (Session.interpret answer s) := by
  cases answer with
  | ok a => exact silent running rfl rfl rfl
  | error fault =>
    let reply : Reply Process α := { outcome := .error fault, state := p }
    have replies : p.Replies s.options.deadline turn reply :=
      ⟨rfl, rfl, rfl, fun _ => List.forall_mem_nil _⟩
    have given : Conversed turn s p (Session.giveUp (α := α) fault (s.saying (.process p) [])) :=
      giveUp replies rfl
    rwa [saying_nil running] at given

end Conversed

/-- Something is said. -/
theorem conversed_send (running : s.phase = .running (.process p)) (command : String) :
    Conversed .said s p (send command s) :=
  .exchange running rfl (p.replies_send _ command)

theorem conversed_sendAll (running : s.phase = .running (.process p)) (commands : List String) :
    Conversed .said s p (sendAll commands s) := by
  induction commands generalizing s p with
  | nil => exact .silent running rfl rfl rfl
  | cons command rest ih =>
    exact (conversed_send running command).bind fun _ _ _ _ next _ => ih next

/-- An assertion says all of its lines. -/
theorem conversed_assert (running : s.phase = .running (.process p)) (e : Expr) :
    Conversed .said s p (assert e s) := by
  unfold assert
  rw [SessionM.bind_of_ok (requireRunning_of_running running _),
    SessionM.bind_of_ok (SessionM.get_apply s)]
  cases assertion s.declared e with
  | error cause => exact .silent running rfl rfl rfl
  | ok result =>
    obtain ⟨commands, declared⟩ := result
    rw [SessionM.bind_of_ok (written_ok _ s)]
    dsimp only
    rw [SessionM.bind_of_ok (SessionM.modify_apply _ s)]
    have sent := conversed_sendAll (s := { s with declared }) running (Text.lines (textOf commands))
    exact (sent.andThen fun _ _ => ⟨rfl, rfl, rfl⟩).congr rfl rfl

theorem conversed_push (running : s.phase = .running (.process p)) :
    Conversed .said s p (push s) := by
  unfold push
  rw [SessionM.bind_of_ok (requireRunning_of_running running _)]
  exact (conversed_send running _).andThen fun _ _ => ⟨rfl, rfl, rfl⟩

theorem conversed_pop (running : s.phase = .running (.process p)) :
    Conversed .said s p (pop s) := by
  unfold pop
  rw [SessionM.bind_of_ok (requireRunning_of_running running _),
    SessionM.bind_of_ok (SessionM.get_apply s)]
  cases s.scopes with
  | nil => exact .silent running rfl rfl rfl
  | cons saved outer => exact (conversed_send running _).andThen fun _ _ => ⟨rfl, rfl, rfl⟩

/-- A check is one question. -/
theorem conversed_check (running : s.phase = .running (.process p)) :
    Conversed .asked s p (check s) := by
  unfold check
  rw [SessionM.bind_of_ok (requireRunning_of_running running _),
    SessionM.bind_of_ok (SessionM.get_apply s)]
  have asked : Conversed .asked s p (exchange (Channel.askStatus s.options.deadline) s) :=
    .exchange running rfl (p.replies_ask _ _)
  refine asked.bind fun response s₁ q _ next _ => ?_
  exact (Conversed.interpret next _).andThen fun _ _ => ⟨rfl, rfl, rfl⟩

theorem conversed_askValues {requests : List (List String)} {found : Model}
    (running : s.phase = .running (.process p)) :
    Conversed .asked s p (askValues found requests s) := by
  induction requests generalizing s p found with
  | nil => exact .silent running rfl rfl rfl
  | cons names requests ih =>
    unfold askValues
    rw [SessionM.bind_of_ok (SessionM.get_apply s)]
    have request : Conversed .asked s p (written (getValueOf names) s) := by
      cases getValueOf names <;> exact .silent running rfl rfl rfl
    refine request.bind fun _ s₁ p₁ _ running₁ options => ?_
    have asked : Conversed .asked s₁ p₁
        (exchange (Channel.askValues s.options.deadline s.declared names) s₁) := by
      rw [← options]
      exact .exchange running₁ rfl (p₁.replies_ask _ _)
    refine asked.bind fun response s₂ p₂ _ running₂ _ => ?_
    exact (Conversed.interpret running₂ _).bind fun values s₃ p₃ _ running₃ _ => ih running₃

/-- Values are asked for in one question after the other. -/
theorem conversed_model (running : s.phase = .running (.process p)) (vars : Option Operand) :
    Conversed .asked s p (model vars s) := by
  have asked (names : List String) (defaults : Model) :
      Conversed .asked s p (answers names defaults s) :=
    (conversed_askValues running).andThen fun _ _ => ⟨rfl, rfl, rfl⟩
  by_cases sat : s.status = some .sat
  · rw [model_of_sat running sat]
    split
    · exact asked _ _
    · split
      · exact .silent running rfl rfl rfl
      · split
        · exact .silent running rfl rfl rfl
        · exact asked _ _
  · unfold model
    rw [SessionM.bind_of_ok (requireRunning_of_running running _),
      SessionM.bind_of_ok (SessionM.get_apply s), if_neg (mt beq_iff_eq.1 sat)]
    exact .silent running rfl rfl rfl

/-- The first words are said. -/
theorem conversed_greet (running : s.phase = .running (.process p)) :
    Conversed .said s p (greet s) := by
  unfold greet
  refine (conversed_send running _).bind fun _ s₁ p₁ _ running₁ _ => ?_
  rw [SessionM.bind_of_ok (SessionM.get_apply s₁)]
  by_cases none : s₁.options.logic.isEmpty = true
  · rw [if_pos none]
    exact .silent running₁ rfl rfl rfl
  · rw [if_neg none]
    exact conversed_send running₁ _

end Session

/-! ## The turns of a history -/

/-- The turn of each command that an operation writes. -/
def Operation.turn : Operation → String → Process.Turn
  | check | model _ => .asked
  | _ => .said

/-- The turns of a step. -/
def Step.turns (st : Step) : List Process.Turn := st.writes.map st.op.turn

theorem Step.turns_eq {st : Step} {events : List Event}
    (trace : st.after.trace = st.before.trace.addAll events) :
    st.turns = (commandsOf events).map st.op.turn := by
  rw [turns, writes_eq trace]

theorem Step.turns_of_refused {st : Step} {e : SessionError}
    (refused : st.op.run st.before = (.error e, st.before)) : st.turns = [] := by
  rw [turns, writes_of_refused refused]
  rfl

/-- The turns of a history. -/
def conversation (steps : List Step) : List Process.Turn := steps.flatMap Step.turns

/-- Whether a session holds a process, in dialogue with it or not any more. -/
def Session.Holds (s : Session) (q : Process) : Prop :=
  s.phase = .running (.process q) ∨ s.phase = .failed (.process q)

/-- A session holds one process. -/
theorem Session.Holds.unique {s : Session} {q q' : Process} (h : s.Holds q) (h' : s.Holds q') :
    q = q' := by
  rcases h with phase | phase <;> rcases h' with phase' | phase' <;>
    cases phase.symm.trans phase' <;> rfl

namespace Operation

open Session

variable {s : Session} {p : Process}

/-- **Each operation goes through its turns.** -/
theorem conversed (running : s.phase = .running (.process p)) {op : Operation}
    (inner : op.IsInner) : Conversed op.turn s p (op.run s) := by
  cases op with
  | openOn | close => exact inner.elim
  | assert e => exact conversed_assert running e
  | push => exact conversed_push running
  | pop => exact conversed_pop running
  | check => exact (conversed_check running).andThen fun _ _ => ⟨rfl, rfl, rfl⟩
  | model vars => exact (conversed_model running vars).andThen fun _ _ => ⟨rfl, rfl, rfl⟩

/-- A session without a dialogue goes through no turns. -/
theorem conversation_of_idle (idle : s.phase.isRunning = false) {ops : List Operation}
    (inner : ∀ op ∈ ops, op.IsInner) :
    conversation (history s ops) = [] ∧ runAll s ops = s := by
  induction ops with
  | nil => exact ⟨rfl, rfl⟩
  | cons op ops ih =>
    obtain ⟨operation, refused⟩ := run_of_idle idle (inner op List.mem_cons_self)
    have same : (op.run s).2 = s := by rw [refused]
    obtain ⟨rest, final⟩ := ih fun op' here => inner op' (List.mem_cons_of_mem _ here)
    have silent : Step.turns ⟨op, s⟩ = [] := Step.turns_of_refused refused
    refine ⟨?_, ?_⟩
    · rw [history, conversation, List.flatMap_cons, silent, same]
      exact rest
    · show runAll (op.run s).2 ops = s
      rw [same, final]

/-- **A running session's process goes through the turns of its history.** -/
theorem holds_runAll (running : s.phase = .running (.process p)) {ops : List Operation}
    (inner : ∀ op ∈ ops, op.IsInner) :
    (runAll s ops).Holds (p.through s.options.deadline (conversation (history s ops))) := by
  induction ops generalizing s p with
  | nil => exact .inl running
  | cons op ops ih =>
    have others : ∀ op ∈ ops, op.IsInner := fun op' here => inner op' (List.mem_cons_of_mem _ here)
    obtain ⟨events, trace, options, -, phase⟩ := conversed running (inner op List.mem_cons_self)
    have turns : Step.turns ⟨op, s⟩ = (commandsOf events).map op.turn := Step.turns_eq trace
    show (runAll (op.run s).2 ops).Holds _
    rw [history, conversation, List.flatMap_cons, turns, Process.through_append]
    rcases phase with ⟨running, -⟩ | ⟨-, failed, -⟩
    · have next := ih running others
      rwa [options] at next
    · -- after a fault nothing is said any more
      obtain ⟨silent, final⟩ := conversation_of_idle (by rw [failed]; rfl) others
      rw [conversation] at silent
      rw [silent, final]
      exact .inr failed

/-- **Starting a process**: its executable is looked up, and then it is spawned. If one of
the two fails, the session stays as it is. -/
theorem start_process (host : Host) {s : Session} {backend : Backend}
    (launch : s.launch = .process backend) :
    start host s =
      if host.world.canRun ((s.argv backend).headD "") then
        match host.launchError with
        | some reason => (.error (.launchFailed backend.name reason), s)
        | none => (.ok (), s.saying (.process (host.started backend)) [.spawned (s.argv backend)])
      else (.error (.executableNotFound ((s.argv backend).headD "")), s) := by
  unfold start
  rw [launch]
  dsimp only
  cases host.world.canRun ((s.argv backend).headD "") with
  | false => rfl
  | true =>
    rw [← launch]
    rfl

/-- **What opening a session with a process comes to**: there is no process, and
nothing has happened; the process has been told the first words, and the session runs;
or it has been told some of them, and the session has been closed. -/
inductive OpensProcess (host : Host) (backend : Backend) (s : Session) :
    Except SessionError Unit × Session → Prop
  /-- There is no process. -/
  | unavailable (e : SessionError) : OpensProcess host backend s (.error e, s)
  /-- The session runs. -/
  | opened {s' : Session} {events : List Event} (starts : startsOf events = [])
    (trace : s'.trace = s.trace.addAll (.spawned (s.argv backend) :: events))
    (options : s'.options = s.options)
    (running : s'.phase = .running (.process ((host.started backend).through s.options.deadline
      ((commandsOf events).map .said)))) : OpensProcess host backend s (.ok (), s')
  /-- It has been closed. -/
  | closed {s' : Session} {events : List Event} (e : SessionError) (starts : startsOf events = [])
    (trace : s'.trace = s.trace.addAll (.spawned (s.argv backend) :: events))
    (options : s'.options = s.options)
    (holds : s'.Holds ((host.started backend).through s.options.deadline
      ((commandsOf events).map .said))) : OpensProcess host backend s (.error e, s'.close)

/-- Opening a session that has not been opened. -/
theorem opensProcess (host : Host) {s : Session} {backend : Backend}
    (launch : s.launch = .process backend) (created : s.phase = .created) :
    OpensProcess host backend s (Session.openOn host s) := by
  unfold Session.openOn
  rw [created]
  rw [start_process host launch]
  cases host.world.canRun ((s.argv backend).headD "") with
  | false => exact .unavailable _
  | true =>
    rw [if_pos rfl]
    cases host.launchError with
    | some reason => exact .unavailable _
    | none =>
      dsimp only
      have greeted := conversed_greet (s := s.saying (.process (host.started backend))
        [.spawned (s.argv backend)]) rfl
      rcases words : greet (s.saying (.process (host.started backend)) [.spawned (s.argv backend)])
        with ⟨e | ⟨⟩, s'⟩
      · rw [words] at greeted
        obtain ⟨events, trace, options, starts, ⟨running, -⟩ | ⟨-, failed, -⟩⟩ := greeted
        · exact .closed e starts trace options (.inl running)
        · exact .closed e starts trace options (.inr failed)
      · rw [words] at greeted
        obtain ⟨events, trace, options, starts, ⟨running, -⟩ | ⟨⟨e, failed⟩, -⟩⟩ := greeted
        · exact .opened starts trace options running
        · cases failed

/-- **A session that has been opened holds the process that has been started**, after
the turns of its history. -/
theorem eq_through_of_holds {host : Host} {backend : Backend} {options : SessionOptions}
    {ops : List Operation} (inner : ∀ op ∈ ops, op.IsInner) {q : Process}
    (holds : (runAll { launch := .process backend, options } (.openOn host :: ops)).Holds q) :
    q = (host.started backend).through options.deadline
      (conversation (history { launch := .process backend, options } (.openOn host :: ops))) := by
  let new : Session := { launch := .process backend, options }
  change (runAll (Session.openOn host new).2 ops).Holds q at holds
  have opening : OpensProcess host backend new (Session.openOn host new) :=
    opensProcess host rfl rfl
  generalize result : Session.openOn host new = r at opening
  have after : (⟨.openOn host, new⟩ : Step).after = r.2 := congrArg Prod.snd result
  -- no operation but opening gives the session a process
  have idle {P : Prop} (phase : r.2.phase = .created ∨ r.2.phase = .closed) : P := by
    have none : r.2.phase.isRunning = false := by
      rcases phase with phase | phase <;> rw [phase] <;> rfl
    rw [result, (conversation_of_idle none inner).2] at holds
    rcases phase with phase | phase <;> rcases holds with at_q | at_q <;>
      cases phase.symm.trans at_q
  cases opening with
  | unavailable e => exact idle (.inl rfl)
  | closed e => exact idle (.inr (phase_close _))
  | @opened s' events starts trace same running =>
    have added : (⟨.openOn host, new⟩ : Step).after.trace =
        new.trace.addAll (.spawned (new.argv backend) :: events) := by rw [after, trace]
    have turns : Step.turns ⟨.openOn host, new⟩ = (commandsOf events).map .said :=
      (Step.turns_eq added :)
    have final := holds_runAll running inner
    rw [same, ← Process.through_append, ← turns] at final
    rw [result] at holds
    rw [history, conversation, List.flatMap_cons]
    show q = (host.started backend).through options.deadline
      (Step.turns ⟨.openOn host, new⟩ ++ conversation (history (Session.openOn host new).2 ops))
    rw [result]
    exact holds.unique final

/-- **Answers stay paired with their questions.** A session with a process that only
answers, each time with a form laid out over lines, is opened, and then anything is
asserted, checked, asked for, and scopes are opened and closed. The process that it
holds has gone through the turns of these operations, and each question in these
turns has been answered with the form that the process has printed to it: what is
read is this form and nothing else, and it is complete with the last line read and
not before. -/
theorem answers_framed {host : Host} {backend : Backend} {options : SessionOptions}
    {ops : List Operation} {forms : List Form} (inner : ∀ op ∈ ops, op.IsInner)
    (onClock : options.deadline.filter (!·.isOnClock) = none)
    (answers : (host.started backend).AnswersWith options.deadline
      (conversation (history { launch := .process backend, options } (.openOn host :: ops)))
      forms) :
    (∀ q, (runAll { launch := .process backend, options } (.openOn host :: ops)).Holds q →
      q = (host.started backend).through options.deadline
        (conversation (history { launch := .process backend, options } (.openOn host :: ops)))) ∧
    List.Forall₂ (Question.Framed options.deadline) forms
      ((host.started backend).questions options.deadline
        (conversation (history { launch := .process backend, options } (.openOn host :: ops)))) := by
  refine ⟨fun q holds => eq_through_of_holds inner holds, ?_⟩
  have nothing : (host.started backend).Holding (options.deadline.all Seconds.allowsWait) [] :=
    .nil rfl rfl
  have noLines : Text.splitFeeds "" = ([], "") := rfl
  exact answers.framed onClock (congrArg Prod.snd noLines) .nil (by rwa [noLines])

end Operation

/-- An answer to a request for the value of one constant can be written. -/
theorem writable_onePair {t : Token} (atom : t.IsAtom) (writable : t.Writable) :
    (Form.list [.list [.atom (.bare "x"), .atom t]]).Writable := by
  have name : (Form.atom (.bare "x")).Writable := .atom (by decide) (by decide)
  have pair : (Form.list [.atom (.bare "x"), .atom t]).Writable :=
    .list (by simpa using ⟨name, .atom atom writable⟩)
  exact .list (by simpa using pair)

/-- The answer to a check in three pieces, after an empty line and before one with a
comment. -/
def inPieces : Reaction := { output := "\r\nsa", later := ["t\r", "\n ; yes\n"] }

/-- The answer to a request for values, with a line broken after a comment inside of a
list. -/
def overLines : Reaction := { output := "((x ; )\r|true|))\n" }

/-- A host on which a process answers so. -/
def talkativeHost : Host := answeringHost (fun _ => inPieces) overLines

/-- Two checks and a request for values, with late lines after the checks. -/
theorem Operation.answers_framed_over_lines :
    let backend : Backend := ⟨"z3", ["z3"]⟩
    let ops : List Operation := [.assert (.var "x" (some .bool)), .check, .model none, .push, .check]
    let turns := conversation (history { launch := .process backend, options := {} }
      (.openOn talkativeHost :: ops))
    let sat : Form := .atom (.bare "sat")
    let values : Form := .list [.list [.atom (.bare "x"), .atom (.barred "true")]]
    (∀ op ∈ ops, op.IsInner) ∧
    ({} : SessionOptions).deadline.filter (!·.isOnClock) = none ∧
    (talkativeHost.started backend).AnswersWith none turns [sat, values, sat] ∧
    (∀ q, (runAll { launch := .process backend, options := {} }
      (.openOn talkativeHost :: ops)).Holds q →
        q = (talkativeHost.started backend).through none turns) ∧
    List.Forall₂ (Question.Framed none) [sat, values, sat]
      ((talkativeHost.started backend).questions none turns) := by
  intro backend ops turns sat values
  have inner : ∀ op ∈ ops, op.IsInner := by simp [ops, IsInner]
  have said : turns = [.said "(set-option :produce-models true)", .said "(declare-const x Bool)",
      .said "(assert x)", .asked "(check-sat)", .asked "(get-value (x))", .said "(push 1)",
      .asked "(check-sat)"] := by decide +kernel
  have feed : Gap "\n".toList := .blank (by decide) .nil
  have note : Gap " ; )\n".toList :=
    .blank (by decide) (@Gap.comment " )".toList [] (by decide) .nil)
  have late : Gap " ; yes\n".toList :=
    .blank (by decide) (@Gap.comment " yes".toList [] (by decide) .nil)
  have status : LaidOver sat "\nsat\n" :=
    ⟨.atom (by decide) (by decide), "\nsat".toList, [], by decide, .cons feed nofun .nil,
      by decide, feed⟩
  have answer : LaidOver values "((x ; )\n|true|))\n" := by
    have laid : ∃ cs, Laid False values.tokens cs ∧ cs = "((x ; )\n|true|))".toList :=
      ⟨_, .cons .nil nofun <| .cons .nil (by decide) <| .cons .nil (by decide) <|
        .cons note (by decide) <| .cons .nil (by decide) <| .cons .nil (by decide) .nil,
        by decide⟩
    obtain ⟨_, laid, rfl⟩ := laid
    exact ⟨writable_onePair (by decide) (by decide), _, [], by decide, laid, by decide, feed⟩
  -- without a deadline, any pause is waited for
  have inTime (r : Reaction) : r.InTime none := .inr rfl
  have answers : (talkativeHost.started backend).AnswersWith none turns [sat, values, sat] := by
    rw [said]
    refine .said (r := {}) ⟨rfl, by decide +kernel⟩ (inTime _) rfl <|
      .said (r := {}) ⟨by decide +kernel, by decide +kernel⟩ (inTime _) rfl <|
      .said (r := {}) ⟨by decide +kernel, by decide +kernel⟩ (inTime _) rfl <|
      .asked (r := inPieces) ⟨by decide +kernel, by decide +kernel⟩
        (by decide +kernel) (inTime _) (by decide +kernel) status late (by decide) <|
      .asked (r := overLines) ⟨by decide +kernel, by decide +kernel⟩
        (by decide +kernel) (inTime _) (by decide +kernel) answer (show Gap "".toList from .nil)
        (by decide) <|
      .said (r := {}) ⟨by decide +kernel, by decide +kernel⟩ (inTime _) rfl <|
      .asked (r := inPieces) ⟨by decide +kernel, by decide +kernel⟩
        (by decide +kernel) (inTime _) (by decide +kernel) status late (by decide) .nil
  exact ⟨inner, rfl, answers, answers_framed inner rfl answers⟩

/-- An answer with a carriage return in a comment, which so ends before the first value. -/
def brokenNote : Reaction := { output := "((x ; )\r true))\n false))\n" }

/-- **Answers that are read as others.** A carriage return arrives as a line feed, so an
answer with one in a comment is read as another form than has been printed, and the rest
of it waits as an answer to the next question. A line of a quoted name that reads like a
check is answered like one, and the next check gets this answer. And with a deadline that
is too far away to be waited for, a check whose answer comes later gives up, and the next
one gets its answer. -/
theorem Operation.answers_misread :
    let new (deadline : Option Seconds) : Session :=
      { launch := .process ⟨"z3", ["z3"]⟩, options := { deadline } }
    let noting := answeringHost (fun _ => { output := "sat\n" }) brokenNote
    let noted := runAll (new none) [.openOn noting, .assert (.var "x" (some .bool)), .check]
    let counting := answeringHost
      (fun asked => { output := if asked < 2 then "unsat\n" else "sat\n" }) {}
    let broken := runAll (new none)
      [.openOn counting, .assert (.var "a\n(check-sat)\nb" (some .bool))]
    let late := answeringHost
      (fun asked => { later := [if asked = 0 then "unsat\n" else "sat\n"] }) {}
    let begun := runAll (new (some (.whole 10000000000))) [.openOn late]
    LaidOver (.list [.list [.atom (.bare "x"), .atom (.bare "false")]]) brokenNote.printed ∧
      (Session.model none noted).1.toOption = some [("x", .bool true)] ∧
      (Session.check broken).1.toOption = some .unsat ∧
      (Session.check begun).1.toOption = none ∧
      (Session.check (Session.check begun).2).1.toOption = some .unsat := by
  intro new noting noted counting broken late begun
  refine ⟨?_, by decide +kernel, by decide +kernel, by decide +kernel, by decide +kernel⟩
  have note : Gap " ; )\r true))\n ".toList :=
    .blank (by decide) (@Gap.comment " )\r true))".toList _ (by decide) (.blank (by decide) .nil))
  have feed : Gap "\n".toList := .blank (by decide) .nil
  have laid : ∃ cs, Laid False (Form.list [.list [.atom (.bare "x"), .atom (.bare "false")]]).tokens
      cs ∧ cs = "((x ; )\r true))\n false))".toList :=
    ⟨_, .cons .nil nofun <| .cons .nil (by decide) <| .cons .nil (by decide) <|
      .cons note (by decide) <| .cons .nil (by decide) <| .cons .nil (by decide) .nil,
      by decide⟩
  obtain ⟨_, laid, rfl⟩ := laid
  exact ⟨writable_onePair (by decide) (by decide), _, [], by decide, laid, by decide, feed⟩

end SmtDialogue
