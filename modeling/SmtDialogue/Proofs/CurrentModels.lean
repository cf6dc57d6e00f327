import SmtDialogue.Proofs.Transmission
import SmtDialogue.Proofs.Utterances

/-!
# Models are current

A model is to be given only while what the last check has found still holds: the
check was satisfiable, and no assertion has been made and no scope opened or closed
since. The session remembers this as its status, and the history of operations
says the same (`Session.Remembers`): a status is set by a check that comes back,
forgotten by every change that goes through and by every fault that ends the
dialogue, and kept by everything else, refused operations among them.

A history is the list of its operations with the sessions that they were run on
(`Step`). What holds of one step about the status (`Step.Regular`) is read off
the course of the operation, and what holds of a history follows step by step.

A check on a running session comes back with a result, or the dialogue is over,
with one exception: a deadline that cannot be kept is found out only when the
check has been said, and then the session runs on and the status is that of the
check before (`Step.GaveUp`). So the last check need not be the one whose model is
given (`Operation.model_after_given_up`), and what holds of all sessions is said of
the last check that has not given up (`SatSince`). With a deadline that can be kept,
or without one, this is the last check.

An assertion is said line by line, and a line of a quoted name is a line like any
other (`Step.IsBroken`). Such a line may read like a request for values.
-/

namespace SmtDialogue

open Smt

namespace Operation

/-- Whether an operation changes what is asserted. -/
def IsChange : Operation → Prop
  | assert _ | push | pop => True
  | _ => False

/-- Whether an operation asks the solver something. -/
def IsQuestion : Operation → Prop
  | check | model _ => True
  | _ => False

/-- Whether an operation asks for values. -/
def IsModel : Operation → Prop
  | model _ => True
  | _ => False

/-- The commands that an operation may have to say. -/
def MaySay : Operation → Command → Prop
  | openOn _, c => c = .produceModels ∨ ∃ logic, c = .setLogic logic
  | assert _, c => (∃ name sort, c = .declare name sort) ∨ ∃ t, c = .assert t
  | check, c => c = .checkSat
  | model _, c => ∃ names, c = .getValue names
  | push, c => c = .push
  | pop, c => c = .pop
  | close, c => c = .exit

/-- Only who asks for values has to say it. -/
theorem isModel_of_maySay {op : Operation} {names : List String} (h : op.MaySay (.getValue names)) :
    op.IsModel := by
  cases op with
  | model vars => trivial
  | openOn host => rcases h with h | ⟨logic, h⟩ <;> cases h
  | assert e => rcases h with ⟨name, sort, h⟩ | ⟨t, h⟩ <;> cases h
  | check | push | pop | close => cases h

end Operation

/-! ## Histories -/

/-- An operation in a history, with the session that it was run on. -/
structure Step where
  /-- The operation. -/
  op : Operation
  /-- The session before it. -/
  before : Session

namespace Step

variable (st : Step)

/-- The session after the operation. -/
def after : Session := (st.op.run st.before).2

/-- What has come of the operation. -/
def outcome : Except SessionError Unit := (st.op.run st.before).1

/-- What the operation has found: a result if it is a check that comes back with
one. -/
def found : Option Status :=
  match st.op with
  | .check => (Session.check st.before).1.toOption
  | _ => none

/-- The commands that it has written. -/
def writes : List String := commandsOf (st.after.trace.since st.before.trace)

/-- Whether it has changed what is asserted. -/
def Changes : Prop := st.op.IsChange ∧ st.outcome = .ok ()

/-- Whether it has given up for a deadline that cannot be kept. -/
def GaveUp : Prop :=
  ∃ fault, fault.IsDeadline st.before.options.deadline ∧ st.outcome = .error (.fault fault)

/-- **Whether it is a broken assertion**: one over a name that holds a line
separator, so that its lines are not its commands. -/
def IsBroken : Prop :=
  ∃ e commands declared, st.op = .assert e ∧
    assertion st.before.declared e = .ok (commands, declared) ∧
    ∃ c ∈ commands, ∃ x ∈ c.names, ¬ Text.BreakFree x

end Step

/-- The history of some operations on a session. -/
def history (s : Session) : List Operation → List Step
  | [] => []
  | op :: ops => ⟨op, s⟩ :: history (op.run s).2 ops

/-- A step of a history comes after the operations before it. -/
theorem history_eq_append {s : Session} {ops : List Operation} {earlier later : List Step}
    {st : Step} (h : history s ops = earlier ++ st :: later) :
    ∃ first, earlier = history s first ∧ st.before = Operation.runAll s first := by
  induction earlier generalizing s ops with
  | nil =>
    cases ops with
    | nil => cases h
    | cons op ops =>
      cases h
      exact ⟨[], rfl, rfl⟩
  | cons st' earlier ih =>
    cases ops with
    | nil => cases h
    | cons op ops =>
      obtain ⟨rfl, rest⟩ := List.cons.inj h
      obtain ⟨first, rfl, before⟩ := ih rest
      exact ⟨op :: first, rfl, before⟩

/-- Whether some step of a history was such that `P`, and all steps since then
were such that `Q`. -/
def Since (P Q : Step → Prop) (steps : List Step) : Prop :=
  ∃ earlier st later, steps = earlier ++ st :: later ∧ P st ∧ ∀ st ∈ later, Q st

namespace Since

variable {P Q P' Q' : Step → Prop} {steps : List Step}

theorem mono (first : ∀ st, P st → P' st) (rest : ∀ st, Q st → Q' st) (h : Since P Q steps) :
    Since P' Q' steps := by
  obtain ⟨earlier, st, later, split, holds, since⟩ := h
  exact ⟨earlier, st, later, split, first st holds, fun st' hst => rest st' (since st' hst)⟩

/-- The last step of a history may be the one, or one of those since then. -/
theorem concat_iff {st : Step} : Since P Q (steps ++ [st]) ↔ P st ∨ Since P Q steps ∧ Q st := by
  constructor
  · rintro ⟨earlier, st', later, split, holds, since⟩
    rcases List.eq_nil_or_concat' later with rfl | ⟨between, last, rfl⟩
    · obtain ⟨-, same⟩ := List.append_inj' split rfl
      cases same
      exact .inl holds
    · rw [← List.cons_append, ← List.append_assoc] at split
      obtain ⟨rfl, same⟩ := List.append_inj' split rfl
      cases same
      rw [List.forall_mem_append, List.forall_mem_singleton] at since
      exact .inr ⟨⟨earlier, st', between, rfl, holds, since.1⟩, since.2⟩
  · rintro (holds | ⟨⟨earlier, st', later, rfl, holds, since⟩, last⟩)
    · exact ⟨steps, st, [], rfl, holds, List.forall_mem_nil _⟩
    · refine ⟨earlier, st', later ++ [st], by rw [List.append_assoc, List.cons_append], holds, ?_⟩
      rw [List.forall_mem_append, List.forall_mem_singleton]
      exact ⟨since, last⟩

end Since

/-- **Whether a history makes a model current**: the last check has found the
assertions satisfiable, and nothing has changed them since. -/
def LastCheckSat : List Step → Prop :=
  Since (fun st => st.found = some .sat) fun st => st.op ≠ .check ∧ ¬ st.Changes

/-- Whether the last check that has not given up has found the assertions
satisfiable, and nothing has changed them since. -/
def SatSince : List Step → Prop :=
  Since (fun st => st.found = some .sat) fun st => (st.op = .check → st.GaveUp) ∧ ¬ st.Changes

theorem LastCheckSat.satSince {steps : List Step} (h : LastCheckSat steps) : SatSince steps :=
  h.mono (fun _ found => found) fun _ ⟨other, unchanged⟩ =>
    ⟨fun check => absurd check other, unchanged⟩

/-- **Whether values may be asked for**, by what has been written: a check that
the solver has answered so, and since then, if anything, questions. -/
def AnsweredSat : List Step → Prop :=
  Since (fun st => st.found = some .sat ∧ st.writes = [Command.checkSat.text])
    fun st => st.writes = [] ∨ st.op.IsQuestion

/-! ## What one step does about the status -/

namespace Step

variable {st : Step}

theorem writes_eq {events : List Event} (h : st.after.trace = st.before.trace.addAll events) :
    st.writes = commandsOf events := by
  rw [writes, h, History.since_addAll]

/-- An operation that ends in an error has found nothing. -/
theorem found_of_error {e : SessionError} (h : st.outcome = .error e) : st.found = none := by
  obtain ⟨op, s⟩ := st
  cases op with
  | check =>
    have forgotten : (Session.check s).1.map (fun _ => ()) = .error e :=
      (congrArg Prod.fst (SessionM.forget_apply Session.check s)).symm.trans h
    show (Session.check s).1.toOption = none
    cases found : (Session.check s).1 with
    | error => rfl
    | ok =>
      rw [found] at forgotten
      cases forgotten
  | _ => rfl

/-- Only a check finds something. -/
theorem check_of_found {status : Status} (h : st.found = some status) : st.op = .check := by
  obtain ⟨op, s⟩ := st
  cases op with
  | check => rfl
  | _ => cases h

/-- A check that has given up has found nothing. -/
theorem GaveUp.found (h : st.GaveUp) : st.found = none := by
  obtain ⟨fault, -, outcome⟩ := h
  exact found_of_error outcome

/-- **What a step does about the status.** -/
inductive Regular (st : Step) : Prop
  /-- A check comes back with a result. -/
  | found {c c' : Channel} {status : Status} (running : st.before.phase = .running c)
    (goesOn : st.after.phase = .running c') (kind : c'.isProcess = c.isProcess)
    (result : st.found = some status) (noted : st.after.status = some status)
    (asked : st.writes = c.written [Command.checkSat.text])
  /-- A change goes through. -/
  | changed {c : Channel} (goesOn : st.after.phase = .running c) (result : st.found = none)
    (changes : st.Changes) (forgotten : st.after.status = none)
  /-- The dialogue goes on otherwise. -/
  | stays {c c' : Channel} (running : st.before.phase = .running c)
    (goesOn : st.after.phase = .running c') (kind : c'.isProcess = c.isProcess)
    (gaveUp : st.op = .check → st.GaveUp) (unchanged : ¬ st.Changes)
    (kept : st.after.status = st.before.status) (quiet : st.writes = [] ∨ st.op.IsQuestion)
  /-- It has not begun yet, or begins. -/
  | begins (created : st.before.phase = .created) (result : st.found = none)
    (kept : st.after.status = st.before.status)
    (goesOn : st.after.phase = .created ∨ ∃ c, st.after.phase = .running c)
  /-- It is over. -/
  | ends (finished : (∃ c, st.after.phase = .failed c) ∨ st.after.phase = .closed)
    (forgotten : st.after.status = none ∨ st.after = st.before)

theorem writes_of_refused {e : SessionError} (same : st.op.run st.before = (.error e, st.before)) :
    st.writes = [] := by
  have after : st.after = st.before := congrArg Prod.snd same
  have silent : st.writes = commandsOf [] := writes_eq (by rw [after]; rfl)
  exact silent

/-- A refused operation leaves the status as it is. A check is not refused in a
dialogue. -/
theorem regular_of_refused {e : SessionError} (same : st.op.run st.before = (.error e, st.before))
    (other : st.before.phase.isRunning = true → st.op ≠ .check) : st.Regular := by
  have outcome : st.outcome = .error e := congrArg Prod.fst same
  have after : st.after = st.before := congrArg Prod.snd same
  have unchanged : ¬ st.Changes := fun changes => by cases outcome.symm.trans changes.2
  cases phase : st.before.phase with
  | created =>
    exact .begins phase (found_of_error outcome) (by rw [after]) (.inl (by rw [after, phase]))
  | running c =>
    exact .stays phase (by rw [after, phase]) rfl
      (fun check => absurd check (other (by rw [phase]; rfl))) unchanged (by rw [after])
      (.inl (writes_of_refused same))
  | failed c => exact .ends (.inl ⟨c, by rw [after, phase]⟩) (.inr after)
  | closed => exact .ends (.inr (by rw [after, phase])) (.inr after)

/-- **An operation in a dialogue** by its course: one that does not go through
ends the dialogue, or has not changed what the status is about. -/
theorem regular_of_course {s : Session} {c : Channel} {texts : List String}
    {limits : Fault → Prop} {after : Unit → Session → Session → Prop}
    (course : Session.Exchanged s c texts limits after (st.op.run st.before))
    (running : st.before.phase = .running c) (trace : s.trace = st.before.trace)
    (status : s.status = st.before.status)
    (quiet : ∀ fault part, limits fault → c.written part = [] ∨ st.op.IsQuestion)
    (waits : st.op = .check → ∀ fault, limits fault →
      fault.IsDeadline st.before.options.deadline)
    (done : ∀ c' events s', c'.isProcess = c.isProcess → commandsOf events = c.written texts →
      after () (s.saying c' events) s' → st.op.run st.before = (.ok (), s') → st.Regular) :
    st.Regular := by
  cases course with
  | done a c' events s' kind said next same => exact done c' events s' kind said next same
  | ended fault c' events part kind first said ends same =>
    have failed : st.after = (s.saying c' events).fail := congrArg Prod.snd same
    exact .ends (.inl ⟨c', by rw [failed]; rfl⟩) (.inl (by rw [failed]; rfl))
  | limited fault c' events part kind first said goesOn limit same =>
    have outcome : st.outcome = .error (.fault fault) := congrArg Prod.fst same
    have after : st.after = s.saying c' events := congrArg Prod.snd same
    have wrote : st.writes = c.written part := by
      rw [← said]
      refine writes_eq ?_
      rw [after, ← trace]
      rfl
    refine .stays running (by rw [after]; rfl) kind
      (fun check => ⟨fault, waits check fault limit, outcome⟩)
      (fun changes => by cases outcome.symm.trans changes.2) ?_ (wrote ▸ quiet fault part limit)
    rw [after, ← status]
    rfl

/-- A change forgets the status when it goes through. -/
theorem regular_of_change {s : Session} {c : Channel} {texts : List String}
    {after : Unit → Session → Session → Prop} (change : st.op.IsChange)
    (course : Session.Exchanged s c texts (fun _ => c.isProcess = false) after
      (st.op.run st.before))
    (running : st.before.phase = .running c) (trace : s.trace = st.before.trace)
    (status : s.status = st.before.status)
    (forgets : ∀ t s', after () t s' → s'.phase = t.phase ∧ s'.status = none) : st.Regular := by
  have other : st.op ≠ .check := fun check => by
    rw [check] at change
    exact change
  refine regular_of_course course running trace status ?_ (fun check => absurd check other)
    fun c' events s' _ _ next same => ?_
  · intro fault part inProcess
    refine .inl ?_
    rw [Channel.written, inProcess]
    rfl
  · have after : st.after = s' := congrArg Prod.snd same
    have result : st.found = none :=
      Option.eq_none_iff_forall_ne_some.2 fun _ found => other (check_of_found found)
    obtain ⟨phase, forgotten⟩ := forgets _ s' next
    exact .changed (by rw [after]; exact phase) result ⟨change, congrArg Prod.fst same⟩
      (by rw [after]; exact forgotten)

/-- An operation in a dialogue. -/
theorem regular_of_running {s : Session} {c : Channel} (h : s.Writable)
    (running : s.phase = .running c) {op : Operation} (inner : op.IsInner) :
    Regular ⟨op, s⟩ := by
  cases op with
  | openOn | close => exact inner.elim
  | assert e =>
    rcases Session.assert_course running e with ⟨cause, -, same⟩ | ⟨commands, declared, -, course⟩
    · exact regular_of_refused same fun _ => nofun
    · exact regular_of_change trivial course running rfl rfl
        fun t s' next => by rw [next]; exact ⟨rfl, rfl⟩
  | push =>
    exact regular_of_change trivial (Session.push_course running) running rfl rfl
      fun t s' next => by rw [next]; exact ⟨rfl, rfl⟩
  | pop =>
    rcases Session.pop_course running with ⟨-, same⟩ | ⟨saved, outer, -, course⟩
    · exact regular_of_refused same fun _ => nofun
    · exact regular_of_change trivial course running rfl rfl
        fun t s' next => by rw [next]; exact ⟨rfl, rfl⟩
  | check =>
    refine regular_of_course (Session.check_course running).forget running rfl rfl
      (fun _ _ _ => .inr trivial) (fun _ _ limit => limit) ?_
    rintro c' events s' kind said ⟨status, result, next⟩ same
    have after : (⟨.check, s⟩ : Step).after = s' := congrArg Prod.snd same
    have found : (⟨.check, s⟩ : Step).found = some status := congrArg Except.toOption result
    refine .found running (by rw [after, next]; rfl) kind found (by rw [after, next]) ?_
    rw [← said]
    refine writes_eq ?_
    rw [after, next]
    rfl
  | model vars =>
    rcases Session.model_course running h.declared vars with
      ⟨e, -, -, same⟩ | ⟨-, requests, course⟩
    · exact regular_of_refused (SessionM.bind_of_error same _) fun _ => nofun
    · refine regular_of_course course.forget running rfl rfl (fun _ _ _ => .inr trivial) nofun ?_
      rintro c' events s' kind said ⟨found, result, next⟩ same
      have after : (⟨.model vars, s⟩ : Step).after = s' := congrArg Prod.snd same
      exact .stays running (by rw [after, next]; rfl) kind nofun (fun changes => changes.1)
        (by rw [after, next]; rfl) (.inr trivial)

/-- Opening a session that has not been opened. -/
theorem regular_openOn {s : Session} (h : s.Writable) (created : s.phase = .created)
    (host : Host) : Regular ⟨.openOn host, s⟩ := by
  have opening := (Session.openOn_cases h created host).1
  generalize result : Session.openOn host s = r at opening
  have after : (⟨.openOn host, s⟩ : Step).after = r.2 := congrArg Prod.snd result
  cases opening with
  | opened running kept =>
    exact .begins created rfl (by rw [after, kept]) (.inr ⟨_, by rw [after, running]⟩)
  | unavailable => exact .begins created rfl (by rw [after]) (.inl (by rw [after, created]))
  | unusable waits kept =>
    exact .begins created rfl (by rw [after, kept]) (.inl (by rw [after, waits]))
  | closed _ closed forgotten =>
    exact .ends (.inr (by rw [after, closed])) (.inl (by rw [after, forgotten]))

/-- **Every step** of a session whose constants can be written is regular. -/
theorem regular (h : st.before.Writable) : st.Regular := by
  obtain ⟨op, s⟩ := st
  rcases op.isInner_or with inner | ⟨host, rfl⟩ | rfl
  · cases phase : s.phase with
    | running c => exact regular_of_running h phase inner
    | created | failed | closed =>
      obtain ⟨operation, same⟩ := Session.run_of_idle (by rw [phase]; rfl) inner
      exact regular_of_refused same fun running => by
        rw [phase] at running
        cases running
  · by_cases created : s.phase = .created
    · exact regular_openOn h created host
    · exact regular_of_refused (Session.openOn_of_opened created host) fun _ => nofun
  · cases phase : s.phase with
    | closed => exact .ends (.inr (Session.phase_close s)) (.inr (Session.close_of_closed phase))
    | created | running | failed =>
      have forgotten : s.close.status = none := Session.status_close (by rw [phase]; nofun)
      exact .ends (.inr (Session.phase_close s)) (.inl forgotten)

end Step

/-! ## What a history says about the status -/

/-- **What a session remembers** of its history. In a dialogue the status is that
of a satisfiable check only after such a check, since which nothing has been
changed and nothing but questions written; and it is so whenever the history
makes a model current. -/
def Session.Remembers (s : Session) (past : List Step) : Prop :=
  match s.phase with
  | .created => s.status = none ∧ ∀ st ∈ past, st.found = none
  | .running c =>
    (s.status = some .sat →
      Since (fun st => st.found = some .sat ∧ st.writes = c.written [Command.checkSat.text])
        (fun st => ((st.op = .check → st.GaveUp) ∧ ¬ st.Changes) ∧
          (st.writes = [] ∨ st.op.IsQuestion)) past) ∧
    (SatSince past → s.status = some .sat)
  | .failed _ | .closed => s.status = none

namespace Session

/-- One more step of the history. -/
theorem Remembers.next {past : List Step} {st : Step} (h : st.before.Remembers past)
    (regular : st.Regular) : st.after.Remembers (past ++ [st]) := by
  unfold Remembers at h ⊢
  cases regular with
  | @found c c' status running goesOn kind result noted asked =>
    rw [goesOn]
    refine ⟨fun sat => ?_, fun since => ?_⟩
    · refine Since.concat_iff.2 (.inl ⟨result.trans (noted.symm.trans sat), ?_⟩)
      rw [asked, Channel.written_congr kind]
    · rcases Since.concat_iff.1 since with sat | ⟨-, gaveUp, -⟩
      · exact noted.trans (result.symm.trans sat)
      · cases result.symm.trans (gaveUp (Step.check_of_found result)).found
  | @changed c goesOn result changes forgotten =>
    rw [goesOn]
    refine ⟨fun sat => ?_, fun since => ?_⟩
    · cases forgotten.symm.trans sat
    · rcases Since.concat_iff.1 since with sat | ⟨-, -, unchanged⟩
      · cases result.symm.trans sat
      · exact absurd changes unchanged
  | @stays c c' running goesOn kind gaveUp unchanged kept quiet =>
    rw [running] at h
    rw [goesOn, kept]
    refine ⟨fun sat => Since.concat_iff.2 (.inr ⟨?_, ⟨gaveUp, unchanged⟩, quiet⟩), fun since => ?_⟩
    · simp only [Channel.written_congr kind]
      exact h.1 sat
    · rcases Since.concat_iff.1 since with sat | ⟨since, -⟩
      · cases sat.symm.trans (gaveUp (Step.check_of_found sat)).found
      · exact h.2 since
  | begins created result kept goesOn =>
    rw [created] at h
    obtain ⟨forgotten, found⟩ := h
    have found : ∀ st' ∈ past ++ [st], st'.found = none := by
      rw [List.forall_mem_append, List.forall_mem_singleton]
      exact ⟨found, result⟩
    rcases goesOn with goesOn | ⟨c, goesOn⟩
    · rw [goesOn]
      exact ⟨kept.trans forgotten, found⟩
    · rw [goesOn]
      refine ⟨fun sat => ?_, ?_⟩
      · cases (kept.trans forgotten).symm.trans sat
      · rintro ⟨earlier, st', later, split, sat, -⟩
        cases (found st' (by rw [split]; simp)).symm.trans sat
  | ends finished forgotten =>
    have forgotten : st.after.status = none := by
      rcases forgotten with forgotten | same
      · exact forgotten
      · rw [same] at finished ⊢
        rcases finished with ⟨c, finished⟩ | finished <;> rw [finished] at h <;> exact h
    rcases finished with ⟨c, finished⟩ | finished <;> rw [finished] <;> exact forgotten

/-- **A session remembers its history**, whatever is done with it. -/
theorem Remembers.runAll {s : Session} {past : List Step} (h : s.Remembers past)
    (writable : s.Writable) (ops : List Operation) :
    (Operation.runAll s ops).Remembers (past ++ history s ops) := by
  induction ops generalizing s past with
  | nil =>
    rw [history, List.append_nil]
    exact h
  | cons op ops ih =>
    let st : Step := ⟨op, s⟩
    have next : st.after.Remembers (past ++ [st]) := Remembers.next h (Step.regular writable)
    have rest := ih next (writable.run op)
    rw [List.append_assoc] at rest
    exact rest

theorem remembers_new (launch : Launch) (options : SessionOptions) :
    ({ launch, options } : Session).Remembers [] := ⟨rfl, List.forall_mem_nil _⟩

section

variable {s : Session} {past : List Step}

theorem Remembers.sat_iff {c : Channel} (h : s.Remembers past) (running : s.phase = .running c) :
    s.status = some .sat ↔ SatSince past := by
  rw [Remembers, running] at h
  refine ⟨fun sat => ?_, h.2⟩
  exact (h.1 sat).mono (fun _ found => found.1) fun _ since => since.1

/-- In a dialogue with a process the check has been written. -/
theorem Remembers.answeredSat {c : Channel} (h : s.Remembers past)
    (running : s.phase = .running c) (process : c.isProcess = true)
    (sat : s.status = some .sat) : AnsweredSat past := by
  rw [Remembers, running] at h
  refine (h.1 sat).mono (fun _ ⟨found, asked⟩ => ⟨found, ?_⟩) fun _ since => since.2
  rw [asked, Channel.written, if_pos process]

theorem Remembers.status_of_idle (h : s.Remembers past) (idle : s.phase.isRunning = false) :
    s.status = none := by
  unfold Remembers at h
  cases phase : s.phase with
  | running c =>
    rw [phase] at idle
    cases idle
  | created =>
    rw [phase] at h
    exact h.1
  | failed | closed =>
    rw [phase] at h
    exact h

end

/-! ## What is refused and what is written -/

/-- A model is refused for want of a check exactly when the status is not that of
a satisfiable one. -/
theorem model_refused_iff {s : Session} {c : Channel} (h : s.Writable)
    (running : s.phase = .running c) (vars : Option Operand) :
    (∃ e, (Session.model vars s).1 = .error e ∧ e.kind = .noModelAvailable) ↔
      s.status ≠ some .sat := by
  rcases model_course running h.declared vars with ⟨e, -, kind, same⟩ | ⟨sat, requests, course⟩
  · rw [same, ← kind]
    exact ⟨fun ⟨_, refused, kind⟩ => Except.error.inj refused ▸ kind, fun kind => ⟨e, rfl, kind⟩⟩
  · refine iff_of_false ?_ (absurd sat)
    rintro ⟨e, refused, kind⟩
    have fault (cause : Fault) : cause.kind ≠ .noModelAvailable := fun kind =>
      cause.not_refusal (by rw [kind]; rfl) (by rw [kind]; rfl)
    cases course with
    | done a c' events s' _ _ _ same =>
      rw [same] at refused
      cases refused
    | ended cause c' events part _ _ _ _ same =>
      rw [same] at refused
      cases refused
      exact fault cause kind
    | limited cause c' events part _ _ _ _ _ same =>
      rw [same] at refused
      cases refused
      exact fault cause kind

end Session

/-! ## Steps of a history -/

namespace Step

variable {st : Step}

/-- What a step writes is what its operation has to say. -/
theorem says_writes (h : st.before.Writable) : st.op.Says st.before st.writes := by
  obtain ⟨-, events, trace, said⟩ := st.op.writes h
  rw [writes_eq trace]
  exact said

/-- **What is written** is a command that the operation has to say, but for broken
assertions. -/
theorem maySay_of_writes (h : st.before.Writable) {line : String} (wrote : line ∈ st.writes) :
    st.IsBroken ∨ ∃ c, st.op.MaySay c ∧ line = c.text := by
  have spoken := st.says_writes h
  have single {c : Command} (part : st.writes <+: [c.text]) (may : st.op.MaySay c) :
      st.IsBroken ∨ ∃ c, st.op.MaySay c ∧ line = c.text :=
    .inr ⟨c, may, List.mem_singleton.1 (part.subset wrote)⟩
  cases op : st.op with
  | openOn host =>
    rw [op] at spoken
    rcases List.mem_cons.1 (spoken.subset wrote) with first | rest
    · exact .inr ⟨.produceModels, .inl rfl, first⟩
    · split at rest
      · cases rest
      · exact .inr ⟨_, .inr ⟨_, rfl⟩, List.mem_singleton.1 rest⟩
  | assert e =>
    rw [op] at spoken
    rcases spoken with nothing | ⟨commands, declared, accepted, part⟩
    · rw [nothing] at wrote
      cases wrote
    by_cases whole : ∀ c ∈ commands, ∀ x ∈ c.names, Text.BreakFree x
    · have line := part.subset wrote
      rw [lines_textOf fun c hc =>
        (readable_of_assertion accepted c hc).breakFree_text (whole c hc)] at line
      obtain ⟨c, hc, text⟩ := List.mem_map.1 line
      refine .inr ⟨c, ?_, text.symm⟩
      obtain ⟨t, new, -, -, rfl, -⟩ := assertion_eq_ok_iff.1 accepted
      rcases List.mem_append.1 hc with hc | hc
      · obtain ⟨entry, -, same⟩ := List.mem_map.1 hc
        exact .inl ⟨_, _, same.symm⟩
      · exact .inr ⟨t, List.mem_singleton.1 hc⟩
    · push Not at whole
      exact .inl ⟨e, commands, declared, op, accepted, whole⟩
  | model vars =>
    rw [op] at spoken
    obtain ⟨names, same⟩ := spoken _ wrote
    exact .inr ⟨.getValue names, ⟨names, rfl⟩, same⟩
  | check | push | pop | close =>
    rw [op] at spoken single
    exact single spoken rfl

/-- **Requests for values** are written when values are asked for, or as a line of a
broken assertion. -/
theorem isModel_of_writes (h : st.before.Writable) {line : String} (wrote : line ∈ st.writes)
    (request : startsWith line "(get-value" = true) : st.op.IsModel ∨ st.IsBroken := by
  rcases st.maySay_of_writes h wrote with broken | ⟨c, may, rfl⟩
  · exact .inr broken
  · obtain ⟨names, rfl⟩ := Command.exists_getValue_of_text request
    exact .inl (Operation.isModel_of_maySay may)

/-- Values are asked for in a dialogue with a process after a satisfiable
check. -/
theorem sat_of_writes (h : st.before.Writable) (model : st.op.IsModel) (wrote : st.writes ≠ []) :
    ∃ c, st.before.phase = .running c ∧ c.isProcess = true ∧ st.before.status = some .sat := by
  obtain ⟨op, s⟩ := st
  cases op with
  | model vars =>
    have refused {P : Prop} {e : SessionError}
        (same : (Operation.model vars).run s = (.error e, s)) : P :=
      absurd (writes_of_refused same) wrote
    have inner : (Operation.model vars).IsInner := trivial
    cases phase : s.phase with
    | created | failed | closed =>
      obtain ⟨operation, same⟩ := Session.run_of_idle (by rw [phase]; rfl) inner
      exact refused same
    | running c =>
      rcases Session.model_course phase h.declared vars with ⟨e, -, -, same⟩ | ⟨sat, -⟩
      · exact refused (SessionM.bind_of_error same _)
      refine ⟨c, rfl, ?_, sat⟩
      obtain ⟨requests, -, events, trace, said⟩ := Session.writes_model h phase vars
      have added : (⟨.model vars, s⟩ : Step).writes = commandsOf events := writes_eq trace
      by_contra other
      rw [Channel.written, if_neg other, List.prefix_nil, ← added] at said
      exact wrote said
  | _ => exact model.elim

end Step

namespace Session

variable {s : Session} {ops : List Operation}

theorem options_runAll (h : s.Writable) (ops : List Operation) :
    (Operation.runAll s ops).options = s.options := by
  induction ops generalizing s with
  | nil => rfl
  | cons op ops ih => exact (ih (h.run op)).trans (op.writes h).options

/-- The commands that have been written are those of the steps. -/
theorem commands_runAll (h : s.Writable) (ops : List Operation) :
    (Operation.runAll s ops).trace.commands =
      s.trace.commands ++ (history s ops).flatMap Step.writes := by
  induction ops generalizing s with
  | nil => exact (List.append_nil _).symm
  | cons op ops ih =>
    obtain ⟨-, events, trace, -⟩ := op.writes h
    have wrote : (⟨op, s⟩ : Step).writes = commandsOf events := Step.writes_eq trace
    refine (ih (h.run op)).trans ?_
    rw [trace, History.commands_addAll, List.append_assoc, history, List.flatMap_cons, wrote]
    rfl

theorem before_of_mem {st : Step} (h : st ∈ history s ops) :
    ∃ first, st.before = Operation.runAll s first := by
  obtain ⟨earlier, later, split⟩ := List.append_of_mem h
  obtain ⟨first, -, before⟩ := history_eq_append split
  exact ⟨first, before⟩

/-- Every step of a history is one of a session whose constants can be written. -/
theorem Writable.before_of_mem (h : s.Writable) {st : Step} (member : st ∈ history s ops) :
    st.before.Writable := by
  obtain ⟨first, before⟩ := Session.before_of_mem member
  rw [before]
  exact h.runAll first

/-- When the deadline can be kept, the last check is the last one that has not given
up. -/
theorem lastCheckSat_iff (h : s.Writable)
    (kept : ∀ d ∈ s.options.deadline, d.isOnClock = true ∧ d.canBeWaited = true) :
    LastCheckSat (history s ops) ↔ SatSince (history s ops) := by
  have never : ∀ st ∈ history s ops, ¬ st.GaveUp := by
    rintro st member ⟨fault, ⟨d, given, bad, -⟩, -⟩
    obtain ⟨first, before⟩ := before_of_mem member
    rw [before, options_runAll h] at given
    obtain ⟨onClock, waits⟩ := kept d given
    rw [onClock, waits] at bad
    cases bad
  refine ⟨LastCheckSat.satSince, ?_⟩
  rintro ⟨earlier, st, later, split, found, since⟩
  refine ⟨earlier, st, later, split, found, fun st' member =>
    ⟨fun check => ?_, (since st' member).2⟩⟩
  exact never st' (by rw [split]; simp [member]) ((since st' member).1 check)

/-- **Models are current** in a session with some history. -/
structure GivesCurrentModels (s : Session) (steps : List Step) : Prop where
  /-- As long as the session runs, a model is never refused for want of a check when
  the history makes it current. -/
  given : s.phase.isRunning = true → LastCheckSat steps → ∀ vars,
    ¬ ∃ e, (model vars s).1 = .error e ∧ e.kind = .noModelAvailable
  /-- It is so refused exactly when the last check that has not given up has not found
  the assertions satisfiable, or something has changed them since. -/
  refused_iff : s.phase.isRunning = true → ∀ vars,
    (∃ e, (model vars s).1 = .error e ∧ e.kind = .noModelAvailable) ↔ ¬ SatSince steps
  /-- No check gives up when the deadline can be kept: then a model is refused exactly
  when the history does not make it current. -/
  current : (∀ d ∈ s.options.deadline, d.isOnClock = true ∧ d.canBeWaited = true) →
    s.phase.isRunning = true → ∀ vars,
      (∃ e, (model vars s).1 = .error e ∧ e.kind = .noModelAvailable) ↔ ¬ LastCheckSat steps
  /-- What has been written is what the steps have written. -/
  commands : s.trace.commands = steps.flatMap Step.writes
  /-- And that is what they had to say. -/
  spoken : ∀ st ∈ steps, st.op.Says st.before st.writes
  /-- Values have been asked for only after a check has found the assertions
  satisfiable, with nothing but questions written since; or the request is a line of a
  broken assertion. -/
  asked : ∀ earlier st later, steps = earlier ++ st :: later → ∀ line ∈ st.writes,
    startsWith line "(get-value" = true → st.op.IsModel ∧ AnsweredSat earlier ∨ st.IsBroken
  /-- A session that does not run remembers no result. -/
  forgotten : s.phase.isRunning = false → s.status = none

end Session

/-- **Models are current**, whatever a session has been through and whatever its
solver does, as far as the last check that has not given up is the last one. -/
theorem Operation.models_current (launch : Launch) (options : SessionOptions)
    (ops : List Operation) :
    (runAll { launch, options } ops).GivesCurrentModels (history { launch, options } ops) := by
  have writable := Session.writable_new launch options
  have remembers (ops : List Operation) :
      (runAll { launch, options } ops).Remembers (history { launch, options } ops) :=
    (Session.remembers_new launch options).runAll writable ops
  have refused (running : (runAll { launch, options } ops).phase.isRunning = true)
      (vars : Option Operand) :
      (∃ e, (Session.model vars (runAll { launch, options } ops)).1 = .error e ∧
        e.kind = .noModelAvailable) ↔ ¬ SatSince (history { launch, options } ops) := by
    obtain ⟨c, phase⟩ := Session.exists_of_isRunning running
    rw [Session.model_refused_iff (writable.runAll ops) phase vars]
    exact not_congr ((remembers ops).sat_iff phase)
  refine ⟨fun running sat vars => ?_, refused, fun kept running vars => ?_,
    Session.commands_runAll writable ops,
    fun st member => Step.says_writes (writable.before_of_mem member),
    fun earlier st later split line wrote request => ?_, fun idle => ?_⟩
  · exact (refused running vars).not.2 (not_not.2 sat.satSince)
  · rw [refused running vars]
    rw [Session.options_runAll writable] at kept
    exact not_congr (Session.lastCheckSat_iff writable kept).symm
  · have member : st ∈ history { launch, options } ops := by simp [split]
    have writes : st.before.Writable := writable.before_of_mem member
    refine (Step.isModel_of_writes writes wrote request).imp (fun model => ⟨model, ?_⟩) id
    obtain ⟨first, rfl, before⟩ := history_eq_append split
    obtain ⟨c, running, process, sat⟩ :=
      Step.sat_of_writes writes model (List.ne_nil_of_mem wrote)
    rw [before] at running sat
    exact (remembers first).answeredSat running process sat
  · exact (remembers ops).status_of_idle idle

/-- A host on which a process reacts to each check, by the number of questions before
it, and to each request for the value of one constant. -/
def answeringHost (check : Nat → Reaction) (values : Reaction) : Host :=
  { muteHost with
    behaviour := fun history command => .taken <|
      if command == Command.checkSat.text then check history.questions
      else if command == (Command.getValue ["x"]).text then values
      else {} }

/-- A result survives a scope that cannot be closed, and not one that is
opened. -/
example : [[.check], [.check, .pop], [.check, .push], [.check, .push, .check]].map
    (fun ops => (Operation.runAll { launch := .process ⟨"z3", ["z3"]⟩, options := {} }
      (.openOn (answeringHost (fun _ => { output := "sat\n" }) {}) :: ops)).status) =
    [some .sat, some .sat, none, some .sat] := by decide +kernel

/-- **A model after a check without a result**: with a deadline that is too far away to
be waited for, a check gives up that is not answered at once, the session runs on, and
it gives the model of the check before. -/
theorem Operation.model_after_given_up :
    let host := answeringHost (fun asked => if asked = 0 then { output := "sat\n" } else {})
      { output := "((x true))\n" }
    let new : Session :=
      { launch := .process ⟨"z3", ["z3"]⟩, options := { deadline := some (.whole 10000000000) } }
    let first : List Operation := [.openOn host, .assert (.var "x" (some .bool)), .check]
    let asked := runAll new first
    (runAll new (first ++ [.check])).phase.isRunning = true ∧
      (Session.check asked).1.toOption = none ∧
      ¬ LastCheckSat (history new (first ++ [.check])) ∧
      (Session.model none (runAll new (first ++ [.check]))).1.toOption =
        some [("x", .bool true)] := by
  intro host new first asked
  refine ⟨by decide +kernel, by decide +kernel, fun current => ?_, by decide +kernel⟩
  let last : Step := ⟨.check, asked⟩
  have split : history new (first ++ [.check]) = history new first ++ [last] := rfl
  rw [split, LastCheckSat, Since.concat_iff] at current
  rcases current with found | ⟨-, other, -⟩
  · have nothing : last.found = none := by decide +kernel
    cases nothing.symm.trans found
  · exact other rfl

end SmtDialogue
