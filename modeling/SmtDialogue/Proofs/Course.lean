import SmtDialogue.Proofs.Dialogue

/-!
# The course of an operation

An operation on a running session says some commands to its solver, one after
the other, and reads what is answered. It goes through, and then all of them
have been said; or a fault ends it on the way, and then some of the first have
been said, and the fault either ends the dialogue or is a limit on this side,
after which the dialogue goes on (`Exchanged`). What an operation does with its
result is done when it goes through, and not otherwise.

Commands are said to a process as they are. An in-process solver gets calls, and
nothing is written.
-/

namespace SmtDialogue

open Smt

theorem History.addAll_append (h : History) (es fs : List Event) :
    h.addAll (es ++ fs) = (h.addAll es).addAll fs :=
  List.foldl_append

/-- The commands among some events. -/
def commandsOf (events : List Event) : List String :=
  events.filterMap Event.command?

@[simp] theorem commandsOf_append (es fs : List Event) :
    commandsOf (es ++ fs) = commandsOf es ++ commandsOf fs :=
  List.filterMap_append

/-! ## One exchange -/

namespace Channel

/-- Whether the solver is a process. -/
def isProcess : Channel → Bool
  | process _ => true
  | inProcess _ => false

/-- What is written of some commands that are said. -/
def written (c : Channel) (texts : List String) : List String :=
  if c.isProcess then texts else []

@[simp] theorem written_nil (c : Channel) : c.written [] = [] := by
  unfold written
  split <;> rfl

theorem written_append (c : Channel) (texts more : List String) :
    c.written (texts ++ more) = c.written texts ++ c.written more := by
  unfold written
  split <;> rfl

/-- No more is written than is said. -/
theorem written_prefix (c : Channel) (texts : List String) : c.written texts <+: texts := by
  unfold written
  split
  · exact List.prefix_rfl
  · exact List.nil_prefix

theorem written_mono (c : Channel) {part texts : List String} (h : part <+: texts) :
    c.written part <+: c.written texts := by
  unfold written
  split
  · exact h
  · exact List.prefix_rfl

/-- What is written depends on the kind of solver alone. -/
theorem written_congr {c c' : Channel} (same : c'.isProcess = c.isProcess) (texts : List String) :
    c'.written texts = c.written texts := by
  unfold written
  rw [same]

/-- Whether a reply says some commands: all of them when there is a result, and
some of the first after a fault. A fault that does not end the dialogue is one
of some limits. -/
structure Utters (c : Channel) {α : Type} (texts : List String) (limits : Fault → Prop)
    (reply : Reply Channel α) : Prop where
  /-- The solver is of the same kind. -/
  kind : reply.state.isProcess = c.isProcess
  /-- A result comes after all commands. -/
  all : ∀ a, reply.outcome = .ok a → commandsOf reply.events = c.written texts
  /-- A fault comes after some. -/
  some : ∀ fault, reply.outcome = .error fault →
    ∃ part, part <+: texts ∧ commandsOf reply.events = c.written part
  /-- A fault ends the dialogue or is a limit. -/
  limit : ∀ fault, reply.outcome = .error fault → fault.endsDialogue = true ∨ limits fault

end Channel

namespace InProcess

/-- An in-process solver gets no commands. -/
theorem commandsOf_setDeadline (b : InProcess) : commandsOf b.setDeadline.events = [] := by
  unfold setDeadline
  split
  · rfl
  · split <;> rfl

theorem commandsOf_send (b : InProcess) (text : String) : commandsOf (b.send text).events = [] := by
  unfold send
  split
  · unfold declare
    split <;> rfl
  split
  · split <;> rfl
  split
  · rfl
  split
  · rfl
  split
  · rw [Reply.andThen_of_ok rfl]
    exact commandsOf_setDeadline _
  · rfl

/-- Whether a deadline can be handed to an in-process solver: it is a number of
milliseconds. -/
def CanKeep (deadline : Option Seconds) : Prop :=
  ∀ d ∈ deadline, d.milliseconds?.isSome = true

/-- Only the deadline of a solver cannot be handed to it. -/
theorem setDeadline_error {b : InProcess} {fault : Fault}
    (h : b.setDeadline.outcome = .error fault) :
    ∃ d, b.deadline = some d ∧ d.milliseconds? = none ∧ fault = .deadlineUnusable d := by
  unfold setDeadline at h
  split at h
  · cases h
  · next d given =>
    split at h
    · cases h
    · next endless =>
      cases h
      exact ⟨d, given, endless, rfl⟩

/-- What comes of a check: no command, and no limit. -/
theorem check_events (b : InProcess) : commandsOf b.check.events = [] ∧
    ∀ fault, b.check.outcome = .error fault → fault.endsDialogue = true := by
  unfold check
  rw [Reply.andThen_of_ok rfl]
  dsimp only
  split
  · exact ⟨rfl, nofun⟩
  · exact ⟨rfl, nofun⟩
  · split
    · refine ⟨rfl, fun fault h => ?_⟩
      cases h
      rfl
    · exact ⟨rfl, nofun⟩

end InProcess

/-- Whether a fault is a deadline that cannot be kept. -/
def Fault.IsDeadline (deadline : Option Seconds) (fault : Fault) : Prop :=
  ∃ d, deadline = some d ∧ (d.isOnClock && d.canBeWaited) = false ∧ fault = .deadlineUnusable d

namespace Process

/-- A fault of reading ends the dialogue unless the deadline cannot be kept. -/
theorem read_error {p : Process} {deadline : Option Seconds} {fault : Fault}
    (h : (p.read deadline).outcome = .error fault) :
    fault.endsDialogue = true ∨ fault.IsDeadline deadline := by
  have filtered {bad : Seconds → Bool} {d : Seconds} (h : deadline.filter bad = some d) :
      deadline = some d ∧ bad d = true := Option.filter_eq_some_iff.1 h
  unfold read at h
  split at h
  · next d off =>
    obtain ⟨given, off⟩ := filtered off
    cases h
    exact .inr ⟨d, given, by simp_all, rfl⟩
  · generalize gather _ "" p.queue = outcome at h
    obtain ⟨gathered, rest⟩ := outcome
    cases gathered with
    | answer text => cases h
    | broken e text =>
      cases h
      cases e <;> exact .inl rfl
    | ended text =>
      cases h
      exact .inl rfl
    | silent text =>
      dsimp only at h
      unfold expire at h
      split at h
      · next d long =>
        obtain ⟨given, long⟩ := filtered long
        cases h
        exact .inr ⟨d, given, by simp_all, rfl⟩
      · cases h
        exact .inl rfl

theorem utters_send (p : Process) (text : String) {limits : Fault → Prop} :
    (Channel.process p).Utters [text] limits ((Channel.process p).send text) := by
  show (Channel.process p).Utters [text] limits ((p.send text).mapState Channel.process)
  rcases p.send_cases text with ⟨reason, h⟩ | ⟨r, -, h⟩
  · rw [h]
    exact ⟨rfl, nofun, fun _ _ => ⟨[], List.nil_prefix, rfl⟩, fun fault h => .inl (by cases h; rfl)⟩
  · rw [h]
    exact ⟨rfl, fun _ _ => rfl, nofun, nofun⟩

/-- A question is said, and a result comes after it. -/
theorem utters_ask (p : Process) (deadline : Option Seconds) (text : String) :
    (Channel.process p).Utters [text] (Fault.IsDeadline deadline)
      ((p.ask deadline text).mapState Channel.process) := by
  rcases p.ask_eq deadline text with ⟨reason, h⟩ | ⟨r, -, h⟩
  · rw [h]
    exact ⟨rfl, nofun, fun _ _ => ⟨[], List.nil_prefix, rfl⟩, fun fault h => .inl (by cases h; rfl)⟩
  · have quiet := (persists_read ((p.hearing text).react r) deadline).2
    have said : commandsOf (p.ask deadline text).events = [text] := by
      rw [h]
      show [text] ++ commandsOf _ = [text]
      rw [show commandsOf _ = [] from quiet, List.append_nil]
    refine ⟨rfl, fun _ _ => said, fun _ _ => ⟨[text], List.prefix_rfl, said⟩, fun fault error => ?_⟩
    rw [h] at error
    exact read_error error

end Process

namespace Channel

variable (c : Channel)

/-- A command is said. An in-process solver may be started over by what looks
like the choice of a logic, and so be given a deadline. -/
theorem utters_send (text : String) :
    c.Utters [text] (fun _ => c.isProcess = false) (c.send text) := by
  cases c with
  | process p => exact p.utters_send text
  | inProcess b =>
    exact ⟨rfl, fun _ _ => b.commandsOf_send text,
      fun _ _ => ⟨[], List.nil_prefix, b.commandsOf_send text⟩, fun _ _ => .inr rfl⟩

theorem utters_askStatus (deadline : Option Seconds) :
    c.Utters [Command.checkSat.text] (Fault.IsDeadline deadline) (c.askStatus deadline) := by
  cases c with
  | process p => exact p.utters_ask deadline _
  | inProcess b =>
    obtain ⟨quiet, ends⟩ := b.check_events
    exact ⟨rfl, fun _ _ => quiet, fun _ _ => ⟨[], List.nil_prefix, quiet⟩,
      fun fault h => .inl (ends fault h)⟩

theorem utters_askValues (deadline : Option Seconds) (sorts : SortTable) (names : List String) :
    c.Utters [(Command.getValue names).text] (Fault.IsDeadline deadline)
      (c.askValues deadline sorts names) := by
  cases c with
  | process p => exact p.utters_ask deadline _
  | inProcess b => exact ⟨rfl, fun _ _ => rfl, nofun, nofun⟩

end Channel

namespace SessionM

/-- An operation whose result is of no interest. -/
theorem forget_apply {α : Type} (x : SessionM α) (s : Session) :
    (x >>= fun _ => (pure () : SessionM Unit)) s = ((x s).1.map fun _ => (), (x s).2) := by
  rw [bind_apply]
  rcases x s with ⟨_ | _, _⟩ <;> rfl

end SessionM

namespace Session

variable {s : Session} {c : Channel} {α β : Type}

/-- A running session whose solver has seen some more. -/
def saying (s : Session) (c : Channel) (events : List Event) : Session :=
  { s with phase := .running c, trace := s.trace.addAll events }

theorem saying_nil (running : s.phase = .running c) : s.saying c [] = s := by
  show ({ s with phase := .running c } : Session) = s
  rw [← running]

theorem saying_saying (s : Session) (c c' : Channel) (es fs : List Event) :
    (s.saying c es).saying c' fs = s.saying c' (es ++ fs) := by
  unfold saying
  rw [History.addAll_append]

/-- **The course of an operation** on a running session that says some commands:
how it ends, in which session, and how much has been said by then. -/
inductive Exchanged (s : Session) (c : Channel) (texts : List String) (limits : Fault → Prop)
    (after : α → Session → Session → Prop) (r : Except SessionError α × Session) : Prop
  /-- It goes through. -/
  | done (a : α) (c' : Channel) (events : List Event) (s' : Session)
    (kind : c'.isProcess = c.isProcess) (said : commandsOf events = c.written texts)
    (next : after a (s.saying c' events) s') (same : r = (.ok a, s'))
  /-- A fault ends the dialogue. -/
  | ended (fault : Fault) (c' : Channel) (events : List Event) (part : List String)
    (kind : c'.isProcess = c.isProcess) (first : part <+: texts)
    (said : commandsOf events = c.written part) (ends : fault.endsDialogue = true)
    (same : r = (.error (.fault fault), (s.saying c' events).fail))
  /-- A limit is reached, and the dialogue goes on. -/
  | limited (fault : Fault) (c' : Channel) (events : List Event) (part : List String)
    (kind : c'.isProcess = c.isProcess) (first : part <+: texts)
    (said : commandsOf events = c.written part) (goesOn : fault.endsDialogue = false)
    (limit : limits fault) (same : r = (.error (.fault fault), s.saying c' events))

/-- Nothing more is done with the session. -/
def Unchanged (_ : α) (t s' : Session) : Prop := s' = t

namespace Exchanged

variable {texts more : List String} {limits : Fault → Prop}

theorem mono {limits' : Fault → Prop} (h : ∀ fault, limits fault → limits' fault)
    {after : α → Session → Session → Prop} {r : Except SessionError α × Session}
    (course : Exchanged s c texts limits after r) : Exchanged s c texts limits' after r := by
  cases course with
  | done a c' es s' kind said next same => exact .done a c' es s' kind said next same
  | ended f c' es part kind first said ends same =>
    exact .ended f c' es part kind first said ends same
  | limited f c' es part kind first said goesOn limit same =>
    exact .limited f c' es part kind first said goesOn (h f limit) same

/-- Something that is done without a word. -/
theorem silent (running : s.phase = .running c) {after : α → Session → Session → Prop} {a : α}
    {s' : Session} (next : after a s s') : Exchanged s c [] limits after (.ok a, s') :=
  .done a c [] s' rfl c.written_nil.symm ((saying_nil running).symm ▸ next) rfl

/-- **One operation after another** says the commands of both. -/
theorem bind {x : SessionM α} {f : α → SessionM β} {after : β → Session → Session → Prop}
    (first : Exchanged s c texts limits Unchanged (x s))
    (second : ∀ a c' events, c'.isProcess = c.isProcess →
      Exchanged (s.saying c' events) c' more limits after (f a (s.saying c' events))) :
    Exchanged s c (texts ++ more) limits after ((x >>= f) s) := by
  cases first with
  | ended fault c₁ es part kind first said ends same =>
    exact .ended fault c₁ es part kind (first.trans (List.prefix_append _ _)) said ends
      (SessionM.bind_of_error same f)
  | limited fault c₁ es part kind first said goesOn limit same =>
    exact .limited fault c₁ es part kind (first.trans (List.prefix_append _ _)) said goesOn limit
      (SessionM.bind_of_error same f)
  | done a c₁ es s₁ kind said next same =>
    obtain rfl : s₁ = _ := next
    have both {part : List String} {fs : List Event} (rest : commandsOf fs = c₁.written part) :
        commandsOf (es ++ fs) = c.written (texts ++ part) := by
      rw [commandsOf_append, said, rest, Channel.written_congr kind, c.written_append]
    cases second a c₁ es kind with
    | done b c₂ fs s₂ kind' said' next same' =>
      exact .done b c₂ (es ++ fs) s₂ (kind'.trans kind) (both said') (saying_saying .. ▸ next)
        ((SessionM.bind_of_ok same f).trans same')
    | ended fault c₂ fs part kind' first said' ends same' =>
      refine .ended fault c₂ (es ++ fs) (texts ++ part) (kind'.trans kind)
        ((List.prefix_append_right_inj _).2 first) (both said') ends ?_
      rw [SessionM.bind_of_ok same f, same', saying_saying]
    | limited fault c₂ fs part kind' first said' goesOn limit same' =>
      refine .limited fault c₂ (es ++ fs) (texts ++ part) (kind'.trans kind)
        ((List.prefix_append_right_inj _).2 first) (both said') goesOn limit ?_
      rw [SessionM.bind_of_ok same f, same', saying_saying]

/-- What is done when an operation has gone through. -/
theorem andThen {x : SessionM α} {f : α → SessionM β} {after : β → Session → Session → Prop}
    (first : Exchanged s c texts limits Unchanged (x s))
    (second : ∀ a (t : Session), ∃ b s', f a t = (.ok b, s') ∧ after b t s') :
    Exchanged s c texts limits after ((x >>= f) s) := by
  rw [← List.append_nil texts]
  refine first.bind fun a c' events _ => ?_
  obtain ⟨b, s', same, next⟩ := second a (s.saying c' events)
  rw [same]
  exact silent rfl next

/-- The same course, with the result of no more interest. -/
theorem forget {x : SessionM α} {after : α → Session → Session → Prop}
    (course : Exchanged s c texts limits after (x s)) :
    Exchanged s c texts limits (fun _ t s' => ∃ a, (x s).1 = .ok a ∧ after a t s')
      ((x >>= fun _ => (pure () : SessionM Unit)) s) := by
  rw [SessionM.forget_apply]
  cases course with
  | done a c' es s' kind said next same =>
    exact .done () c' es s' kind said ⟨a, by rw [same], next⟩ (by rw [same]; rfl)
  | ended f c' es part kind first said ends same =>
    exact .ended f c' es part kind first said ends (by rw [same]; rfl)
  | limited f c' es part kind first said goesOn limit same =>
    exact .limited f c' es part kind first said goesOn limit (by rw [same]; rfl)

end Exchanged

/-! ## The steps of operations -/

/-- A fault ends the dialogue or not. -/
theorem giveUp_course {texts part : List String} {limits : Fault → Prop}
    {after : α → Session → Session → Prop} {fault : Fault} {c' : Channel} {events : List Event}
    (kind : c'.isProcess = c.isProcess) (first : part <+: texts)
    (said : commandsOf events = c.written part)
    (limit : fault.endsDialogue = true ∨ limits fault) :
    Exchanged s c texts limits after (giveUp fault (s.saying c' events)) := by
  cases ends : fault.endsDialogue with
  | true =>
    exact .ended fault c' events part kind first said ends (by unfold giveUp; rw [ends]; rfl)
  | false =>
    exact .limited fault c' events part kind first said ends
      (limit.resolve_left (by rw [ends]; nofun)) (by unfold giveUp; rw [ends]; rfl)

/-- An exchange with the solver. -/
theorem exchange_course (running : s.phase = .running c) {act : Channel → Reply Channel α}
    {texts : List String} {limits : Fault → Prop} (utters : c.Utters texts limits (act c)) :
    Exchanged s c texts limits Unchanged (exchange act s) := by
  cases outcome : (act c).outcome with
  | ok a =>
    exact .done a (act c).state (act c).events _ utters.kind (utters.all a outcome) rfl
      (exchange_of_ok running outcome)
  | error fault =>
    obtain ⟨part, first, said⟩ := utters.some fault outcome
    rw [exchange_of_error running outcome]
    exact giveUp_course utters.kind first said (utters.limit fault outcome)

/-- The interpretation of an answer. -/
theorem interpret_course (running : s.phase = .running c) {answer : Except Fault α}
    {limits : Fault → Prop}
    (limit : ∀ fault, answer = .error fault → fault.endsDialogue = true ∨ limits fault) :
    Exchanged s c [] limits Unchanged (interpret answer s) := by
  cases answer with
  | ok a => exact .silent running rfl
  | error fault =>
    rw [← saying_nil running]
    exact giveUp_course rfl List.prefix_rfl c.written_nil.symm (limit fault rfl)

/-- A command is sent. -/
theorem send_course (running : s.phase = .running c) (text : String) :
    Exchanged s c [text] (fun _ => c.isProcess = false) Unchanged (send text s) :=
  exchange_course running (c.utters_send text)

/-- Several commands are sent. -/
theorem sendAll_course (running : s.phase = .running c) (texts : List String) :
    Exchanged s c texts (fun _ => c.isProcess = false) Unchanged (sendAll texts s) := by
  induction texts generalizing s c with
  | nil => exact .silent running rfl
  | cons text rest ih =>
    show Exchanged s c ([text] ++ rest) _ _ ((send text >>= fun _ => sendAll rest) s)
    refine (send_course running text).bind fun _ c' events kind => ?_
    exact (ih rfl).mono fun _ inProcess => kind ▸ inProcess

/-! ## Operations -/

/-- Opening a scope. -/
theorem push_course (running : s.phase = .running c) :
    Exchanged s c [Command.push.text] (fun _ => c.isProcess = false)
      (fun _ t s' => s' = { t with scopes := t.declared :: t.scopes, status := none })
      (push s) := by
  unfold push
  rw [SessionM.bind_of_ok (requireRunning_of_running running _)]
  exact (send_course running _).andThen fun _ t => ⟨(), _, rfl, rfl⟩

/-- Closing a scope, if there is one. -/
theorem pop_course (running : s.phase = .running c) :
    s.scopes = [] ∧ pop s = (.error .noScope, s) ∨
    ∃ saved outer, s.scopes = saved :: outer ∧
      Exchanged s c [Command.pop.text] (fun _ => c.isProcess = false)
        (fun _ t s' => s' = { t with declared := saved, scopes := outer, status := none })
        (pop s) := by
  unfold pop
  rw [SessionM.bind_of_ok (requireRunning_of_running running _),
    SessionM.bind_of_ok (SessionM.get_apply s)]
  cases s.scopes with
  | nil => exact .inl ⟨rfl, rfl⟩
  | cons saved outer =>
    exact .inr ⟨saved, outer, rfl, (send_course running _).andThen fun _ t => ⟨(), _, rfl, rfl⟩⟩

/-- Asserting an expression, if it can be written. What it declares is entered
before anything is said. -/
theorem assert_course (running : s.phase = .running c) (e : Expr) :
    (∃ cause, assertion s.declared e = .error cause ∧ assert e s = (.error (.write cause), s)) ∨
    ∃ commands declared, assertion s.declared e = .ok (commands, declared) ∧
      Exchanged { s with declared } c (Text.lines (textOf commands))
        (fun _ => c.isProcess = false) (fun _ t s' => s' = { t with status := none })
        (assert e s) := by
  unfold assert
  rw [SessionM.bind_of_ok (requireRunning_of_running running _),
    SessionM.bind_of_ok (SessionM.get_apply s)]
  cases assertion s.declared e with
  | error cause => exact .inl ⟨cause, rfl, rfl⟩
  | ok result =>
    obtain ⟨commands, declared⟩ := result
    refine .inr ⟨commands, declared, rfl, ?_⟩
    rw [SessionM.bind_of_ok (written_ok _ s)]
    dsimp only
    rw [SessionM.bind_of_ok (SessionM.modify_apply _ s)]
    have sent := sendAll_course (s := { s with declared }) running (Text.lines (textOf commands))
    exact sent.andThen fun _ t => ⟨(), _, rfl, rfl⟩

/-- An answer to a check that cannot be interpreted ends the dialogue. -/
theorem endsDialogue_of_status {solver response : String} {fault : Fault}
    (h : Answer.status solver response = .error fault) : fault.endsDialogue = true := by
  have named {response : String} (h : Status.ofResponse response = .error fault) :
      fault.endsDialogue = true := by
    unfold Status.ofResponse at h
    split at h
    · cases h
    · cases h
      rfl
  unfold Answer.status at h
  rcases Outcome.bind_eq_error_iff.1 h with h | ⟨items, -, h⟩
  · unfold Answer.items at h
    split at h
    · cases h
    · next e _ =>
      cases h
      cases e <;> rfl
  · split at h
    · split at h
      · cases h
        rfl
      · exact named h
    · exact named h

/-- A check. -/
theorem check_course (running : s.phase = .running c) :
    Exchanged s c [Command.checkSat.text] (Fault.IsDeadline s.options.deadline)
      (fun status t s' => s' = { t with status := some status }) (check s) := by
  unfold check
  rw [SessionM.bind_of_ok (requireRunning_of_running running _),
    SessionM.bind_of_ok (SessionM.get_apply s)]
  rw [← List.append_nil [Command.checkSat.text]]
  refine (exchange_course running (c.utters_askStatus _)).bind fun response c' events _ => ?_
  have answered : Exchanged (s.saying c' events) c' [] (Fault.IsDeadline s.options.deadline)
      Unchanged (interpret (Answer.status s.name response) (s.saying c' events)) :=
    interpret_course rfl fun _ h => .inl (endsDialogue_of_status h)
  exact answered.andThen fun status t => ⟨status, _, rfl, rfl⟩

/-- Requests for the values of constants whose names can be written. -/
theorem askValues_course {requests : List (List String)} {found : Model}
    (running : s.phase = .running c)
    (writable : ∀ x ∈ requests.flatten, isWritable x = true) :
    Exchanged s c (requests.map fun names => (Command.getValue names).text) (fun _ => True)
      Unchanged (askValues found requests s) := by
  induction requests generalizing found s c with
  | nil => exact .silent running rfl
  | cons names requests ih =>
    rw [List.flatten_cons, List.forall_mem_append] at writable
    have request := getValueOf_of_writable writable.1
    unfold askValues
    rw [SessionM.bind_of_ok (SessionM.get_apply s), request,
      SessionM.bind_of_ok (written_ok _ s), List.map_cons]
    have asked := exchange_course running (c.utters_askValues s.options.deadline s.declared names)
    refine (asked.mono fun _ _ => trivial).bind fun response c' events kind => ?_
    have answered : Exchanged (s.saying c' events) c' [] (fun _ => True) Unchanged
        (interpret (Answer.values s.name response names) (s.saying c' events)) :=
      interpret_course rfl fun _ _ => .inr trivial
    exact answered.bind fun values c'' more _ => ih rfl writable.2

theorem partitionVariables_error {declared : SortTable} {es : List Expr} {e : SessionError}
    (h : partitionVariables declared es = .error e) : ∃ name, e = .modelOfNonVariable name := by
  induction es with
  | nil => cases h
  | cons d es ih =>
    unfold partitionVariables at h
    split at h
    · rcases Outcome.bind_eq_error_iff.1 h with h | ⟨⟨names, defaults⟩, -, h⟩
      · exact ih h
      · dsimp only at h
        split at h <;> cases h
    · cases h
      exact ⟨_, rfl⟩

/-- Asking for values, when the names of constants can be written: it is refused,
for want of a check exactly when the last one was not satisfiable, or some
requests are said. -/
theorem model_course (running : s.phase = .running c)
    (writable : ∀ x ∈ s.declared.names, isWritable x = true) (vars : Option Operand) :
    (∃ e, (∀ fault, e ≠ .fault fault) ∧ (e.kind = .noModelAvailable ↔ s.status ≠ some .sat) ∧
      model vars s = (.error e, s)) ∨
    s.status = some .sat ∧ ∃ requests : List (List String), Exchanged s c
      (requests.map fun names => (Command.getValue names).text) (fun _ => True) Unchanged
      (model vars s) := by
  by_cases sat : s.status = some .sat
  case neg =>
    refine .inl ⟨.noModel, nofun, iff_of_true rfl sat, ?_⟩
    unfold model
    rw [SessionM.bind_of_ok (requireRunning_of_running running _),
      SessionM.bind_of_ok (SessionM.get_apply s), if_neg (mt beq_iff_eq.1 sat)]
    rfl
  have asked {names : List String} {defaults : Model} (known : ∀ x ∈ names, x ∈ s.declared.names) :
      ∃ requests : List (List String), Exchanged s c
        (requests.map fun names => (Command.getValue names).text) (fun _ => True) Unchanged
        (answers names defaults s) := by
    have reachable : ∀ x ∈ (requests names).flatten, isWritable x = true := by
      rw [flatten_requests]
      exact fun x hx => writable x (known x hx)
    exact ⟨_, (askValues_course running reachable).andThen fun found t => ⟨_, t, rfl, rfl⟩⟩
  rw [model_of_sat running sat]
  cases vars with
  | none => exact .inr ⟨sat, asked fun _ h => h⟩
  | some operand =>
    dsimp only
    cases Expr.collect operand with
    | error cause =>
      have other : cause.kind ≠ .noModelAvailable := by
        cases cause <;> nofun
      exact .inl ⟨.build cause, nofun, iff_of_false other (absurd sat), rfl⟩
    | ok es =>
      dsimp only
      cases parts : partitionVariables s.declared es with
      | error e =>
        obtain ⟨name, rfl⟩ := partitionVariables_error parts
        exact .inl ⟨.modelOfNonVariable name, nofun, iff_of_false nofun (absurd sat), rfl⟩
      | ok pair => exact .inr ⟨sat, asked (mem_of_partitionVariables parts)⟩

/-! ## Opening and closing -/

/-- The first words to a solver. -/
def greeting (options : SessionOptions) : List String :=
  Command.produceModels.text ::
    if options.logic.isEmpty then [] else [(Command.setLogic options.logic).text]

theorem greet_course (running : s.phase = .running c) :
    Exchanged s c (greeting s.options) (fun _ => c.isProcess = false) Unchanged (greet s) := by
  unfold greet
  refine (send_course running _).bind fun _ c' events kind => ?_
  rw [SessionM.bind_of_ok (SessionM.get_apply _)]
  show Exchanged _ c' (if s.options.logic.isEmpty = true then [] else _) _ _
    ((if s.options.logic.isEmpty = true then pure () else _ : SessionM Unit) (s.saying c' events))
  by_cases none : s.options.logic.isEmpty = true
  · rw [if_pos none, if_pos none]
    exact .silent rfl rfl
  · rw [if_neg none, if_neg none]
    exact (send_course rfl _).mono fun _ inProcess => kind ▸ inProcess

/-- Starting a solver. Nothing is said. A process that cannot be started leaves
the session as it was; a solver in the same process is made before it is given
the deadline, which may be no number of milliseconds. -/
theorem start_cases (host : Host) (s : Session) :
    (∃ e, e.kind = .solverUnavailable ∧ start host s = (.error e, s)) ∨
    (∃ d events, commandsOf events = [] ∧ start host s =
      (.error (.fault (.deadlineUnusable d)), { s with trace := s.trace.addAll events })) ∨
    ∃ c events, commandsOf events = [] ∧ start host s = (.ok (), s.saying c events) := by
  obtain ⟨launch, options, phase, declared, scopes, status, trace⟩ := s
  unfold start
  cases launch with
  | process backend =>
    dsimp only
    split
    · exact .inl ⟨_, rfl, rfl⟩
    · cases host.launchError with
      | some reason => exact .inl ⟨_, rfl, rfl⟩
      | none => exact .inr (.inr ⟨_, [_], rfl, rfl⟩)
  | inProcess =>
    dsimp only
    have quiet : commandsOf (InProcess.start host.binding options.deadline).events = [] := by
      unfold InProcess.start
      rw [Reply.andThen_of_ok rfl]
      exact InProcess.commandsOf_setDeadline _
    cases outcome : (InProcess.start host.binding options.deadline).outcome with
    | ok => exact .inr (.inr ⟨_, _, quiet, rfl⟩)
    | error fault =>
      unfold InProcess.start at outcome
      rw [Reply.andThen_of_ok rfl] at outcome
      dsimp only at outcome
      obtain ⟨d, -, -, rfl⟩ := InProcess.setDeadline_error outcome
      exact .inr (.inl ⟨d, _, quiet, rfl⟩)

/-- What is said on the way out: to a solver in dialogue, at most that it is
over, and nothing to a failed one. -/
theorem commandsOf_release (c : Channel) (graceful : Bool) :
    commandsOf (c.release graceful) <+: if graceful then c.written [Command.exit.text] else [] := by
  cases c with
  | inProcess b => exact List.nil_prefix
  | process p =>
    show commandsOf (p.stop graceful).2 <+: _
    unfold Process.stop
    rw [commandsOf_append]
    show _ ++ List.filterMap _ _ <+: _
    rw [Process.commands_kill, List.append_nil]
    cases graceful with
    | false => exact List.nil_prefix
    | true =>
      split
      · rcases p.send_cases "(exit)" with ⟨reason, h⟩ | ⟨r, -, h⟩
        · rw [h]
          exact List.nil_prefix
        · rw [h]
          exact List.prefix_rfl
      · exact List.nil_prefix

end Session

end SmtDialogue
