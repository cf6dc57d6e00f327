import SmtDialogue.Proofs.Discipline

/-!
# What operations write

Every operation has some commands to say, and what it writes is some of the first
of them (`Operation.Says`): a fault may end it early, a refused operation writes
nothing, and neither does one whose solver is not a process. Nothing else is
written in an operation, whatever comes of it (`Operation.writes`).

An assertion is written line by line, and a request for values in parts. The
names in a request are those of declared constants, so that all parts of it have
a written form (`Session.Writable`).
-/

namespace SmtDialogue

open Smt

namespace Operation

/-- **What an operation on a session may write**: some of the first of its
commands. Only a request for values writes requests for values, one or several;
an assertion writes the lines of its declarations and of the assertion. -/
def Says (s : Session) : Operation → List String → Prop
  | openOn _, texts => texts <+: Session.greeting s.options
  | assert e, texts => texts = [] ∨ ∃ commands declared,
      assertion s.declared e = .ok (commands, declared) ∧ texts <+: Text.lines (textOf commands)
  | check, texts => texts <+: [Command.checkSat.text]
  | model _, texts => ∀ text ∈ texts, ∃ names, text = (Command.getValue names).text
  | push, texts => texts <+: [Command.push.text]
  | pop, texts => texts <+: [Command.pop.text]
  | close, texts => texts <+: [Command.exit.text]

/-- Every operation may say nothing. -/
theorem says_nil (s : Session) (op : Operation) : op.Says s [] := by
  cases op with
  | assert e => exact .inl rfl
  | model vars => exact List.forall_mem_nil _
  | _ => exact List.nil_prefix

end Operation

namespace Session

/-- Whether a session has become another one, with the same options, and written
some texts on the way. -/
structure Writes (s : Session) (texts : List String → Prop) (t : Session) : Prop where
  /-- The options are the same. -/
  options : t.options = s.options
  /-- The texts are what has been added to the trace. -/
  added : ∃ events, t.trace = s.trace.addAll events ∧ texts (commandsOf events)

theorem Writes.mono {s t : Session} {P Q : List String → Prop} (h : s.Writes P t)
    (weaker : ∀ texts, P texts → Q texts) : s.Writes Q t := by
  obtain ⟨options, events, trace, said⟩ := h
  exact ⟨options, events, trace, weaker _ said⟩

/-- A session that has stayed as it was has written nothing. -/
theorem Writes.refl {s : Session} {P : List String → Prop} (h : P []) : s.Writes P s :=
  ⟨rfl, [], rfl, h⟩

/-- What is written in a course is some of the first of its commands. -/
theorem Exchanged.writes {s : Session} {c : Channel} {α : Type} {texts : List String}
    {limits : Fault → Prop} {after : α → Session → Session → Prop}
    {r : Except SessionError α × Session} (course : Exchanged s c texts limits after r)
    (keeps : ∀ a t s', after a t s' → s'.trace = t.trace ∧ s'.options = t.options) :
    s.Writes (· <+: c.written texts) r.2 := by
  cases course with
  | done a c' events s' kind said next same =>
    obtain ⟨trace, options⟩ := keeps a _ s' next
    rw [same]
    exact ⟨options, events, trace, said ▸ List.prefix_rfl⟩
  | ended fault c' events part kind first said ends same =>
    rw [same]
    exact ⟨rfl, events, rfl, said ▸ c.written_mono first⟩
  | limited fault c' events part kind first said goesOn limit same =>
    rw [same]
    exact ⟨rfl, events, rfl, said ▸ c.written_mono first⟩

/-- Opening a session writes some of the first words. -/
theorem writes_openOn {s : Session} (created : s.phase = .created) (host : Host) :
    s.Writes (· <+: greeting s.options) (openOn host s).2 := by
  unfold openOn
  rw [created]
  dsimp only
  rcases start_cases host s with ⟨e, -, started⟩ | ⟨d, events, quiet, started⟩ |
    ⟨c, events, quiet, started⟩
  · rw [started]
    exact .refl List.nil_prefix
  · rw [started]
    exact ⟨rfl, events, rfl, quiet ▸ List.nil_prefix⟩
  rw [started]
  dsimp only
  -- a failed solver is released without a word, and so is one in the same process
  have closed {c' : Channel} {more : List Event} {part : List String} {graceful : Bool}
      (first : part <+: greeting s.options) (said : commandsOf more = c.written part)
      (mute : commandsOf (c'.release graceful) = []) : ∃ all,
      ((s.saying c events).saying c' more).trace.addAll (c'.release graceful) =
        s.trace.addAll all ∧ commandsOf all <+: greeting s.options := by
    refine ⟨events ++ more ++ c'.release graceful, ?_, ?_⟩
    · rw [saying_saying, History.addAll_append]
      rfl
    · rw [commandsOf_append, commandsOf_append, quiet, said, mute, List.append_nil]
      exact (c.written_prefix part).trans first
  cases greet_course (s := s.saying c events) rfl with
  | done a c' more s' _ said next same =>
    obtain rfl : s' = _ := next
    rw [same, saying_saying]
    refine ⟨rfl, events ++ more, rfl, ?_⟩
    rw [commandsOf_append, quiet, said]
    exact c.written_prefix _
  | ended fault c' more part _ first said _ same =>
    rw [same]
    exact ⟨rfl, closed first said (List.prefix_nil.1 (commandsOf_release c' false))⟩
  | limited fault c' more part kind first said _ inProcess same =>
    rw [same]
    have mute := commandsOf_release c' true
    rw [if_pos rfl, Channel.written_congr kind, Channel.written, inProcess] at mute
    exact ⟨rfl, closed first said (List.prefix_nil.1 mute)⟩

/-- Closing a session writes at most the last word. -/
theorem writes_close (s : Session) : s.Writes (· <+: [Command.exit.text]) s.close := by
  unfold close
  cases s.phase with
  | created | closed => exact ⟨rfl, [], rfl, List.nil_prefix⟩
  | running c => exact ⟨rfl, _, rfl, (commandsOf_release c true).trans (c.written_prefix _)⟩
  | failed c => exact ⟨rfl, _, rfl, (commandsOf_release c false).trans List.nil_prefix⟩

/-- A request for values writes some of the first of its commands. -/
theorem writes_model {s : Session} {c : Channel} (h : s.Writable) (running : s.phase = .running c)
    (vars : Option Operand) : ∃ requests : List (List String),
      s.Writes (· <+: c.written (requests.map fun names => (Command.getValue names).text))
        ((Operation.model vars).run s).2 := by
  rcases model_course running h.declared vars with ⟨e, -, -, same⟩ | ⟨-, requests, course⟩
  · rw [show (Operation.model vars).run s = _ from SessionM.bind_of_error same _]
    exact ⟨[], .refl List.nil_prefix⟩
  · exact ⟨requests, course.forget.writes
      fun _ t s' ⟨_, _, next⟩ => by rw [next]; exact ⟨rfl, rfl⟩⟩

end Session

namespace Operation

variable {s : Session} {op : Operation}

theorem writes_of_refused {e : SessionError} (same : op.run s = (.error e, s)) :
    s.Writes (op.Says s) (op.run s).2 := by
  rw [same]
  exact .refl (op.says_nil s)

/-- What is written in the dialogue. -/
theorem writes_of_running {c : Channel} (h : s.Writable) (running : s.phase = .running c)
    (inner : op.IsInner) : s.Writes (op.Says s) (op.run s).2 := by
  have first {texts part : List String} (h : part <+: c.written texts) : part <+: texts :=
    h.trans (c.written_prefix texts)
  cases op with
  | openOn | close => exact inner.elim
  | assert e =>
    rcases Session.assert_course running e with
      ⟨cause, -, same⟩ | ⟨commands, declared, accepted, course⟩
    · exact writes_of_refused same
    · obtain ⟨options, events, trace, said⟩ :=
        course.writes fun _ t s' next => by rw [next]; exact ⟨rfl, rfl⟩
      exact ⟨options, events, trace, .inr ⟨commands, declared, accepted, first said⟩⟩
  | push =>
    have course := Session.push_course running
    exact (course.writes fun _ t s' next => by rw [next]; exact ⟨rfl, rfl⟩).mono fun _ => first
  | pop =>
    rcases Session.pop_course running with ⟨-, same⟩ | ⟨saved, outer, -, course⟩
    · exact writes_of_refused same
    · exact (course.writes fun _ t s' next => by rw [next]; exact ⟨rfl, rfl⟩).mono fun _ => first
  | check =>
    have course := (Session.check_course running).forget
    exact (course.writes fun _ t s' ⟨_, _, next⟩ => by rw [next]; exact ⟨rfl, rfl⟩).mono
      fun _ => first
  | model vars =>
    obtain ⟨requests, writes⟩ := Session.writes_model h running vars
    refine writes.mono fun texts said text member => ?_
    obtain ⟨names, -, rfl⟩ := List.mem_map.1 ((first said).subset member)
    exact ⟨names, rfl⟩

/-- **What is written** in one operation is what it has to say. -/
theorem writes (h : s.Writable) (op : Operation) : s.Writes (op.Says s) (op.run s).2 := by
  rcases op.isInner_or with inner | ⟨host, rfl⟩ | rfl
  · cases phase : s.phase with
    | running c => exact writes_of_running h phase inner
    | created | failed | closed =>
      obtain ⟨operation, same⟩ := Session.run_of_idle (by rw [phase]; rfl) inner
      exact writes_of_refused same
  · by_cases created : s.phase = .created
    · exact Session.writes_openOn created host
    · exact writes_of_refused (Session.openOn_of_opened created host)
  · exact s.writes_close

end Operation

end SmtDialogue
