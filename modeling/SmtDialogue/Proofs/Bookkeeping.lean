import SmtDialogue.Proofs.Account

/-!
# Two accounts of one session

An in-process solver and the session that talks to it keep separate accounts of the
declared constants and of the open scopes. They agree whenever the session is
running between two operations (`Session.Tallies`), whatever has been asserted: by
expressions of any shape, over names of any characters. What cannot be kept in step
does not go on, so the names that a running session has declared are all on one
line, and every assertion arrives in one piece (`Session.sendAll_lines`).
-/

namespace SmtDialogue

open Smt Text

/-! ## Sessions with their solvers -/

namespace Session

/-- **A running session agrees with what is kept for its solver**: the account is
that of its tables, each of which has grown out of those saved before it, and
each name has been declared once, on one line. -/
structure Tallies (s : Session) (b : InProcess) : Prop where
  /-- The session is running. -/
  running : s.phase = .running (.inProcess b)
  /-- The account agrees. -/
  keeps : b.Keeps s.declared s.scopes
  /-- The saved tables have grown out of each other. -/
  grown : s.declared.GrownFrom s.scopes
  /-- Each constant has been declared once. -/
  once : s.declared.names.Nodup
  /-- Names are on one line. -/
  whole : ∀ x ∈ s.declared.names, BreakFree x

/-- Whether every assertion that a solver has taken is that of an expression,
over the constants that it came with. -/
def Account (asserted : Expr → Prop) (events : List Event) : Prop :=
  ∀ text constants, .asserted text constants ∈ events → Grounded asserted text constants

/-- **What holds of a session with an in-process solver between operations.** -/
def Booked (asserted : Expr → Prop) (s : Session) : Prop :=
  Account asserted s.trace.toList ∧
    match s.phase with
    | .created => s.launch = .inProcess ∧ s.declared = [] ∧ s.scopes = []
    | .running c => ∃ b, c = .inProcess b ∧ s.Tallies b
    | .failed c => ∃ b, c = .inProcess b
    | .closed => True

variable {asserted : Expr → Prop} {s : Session} {b : InProcess}

/-- A command that the solver takes. -/
theorem send_taken (running : s.phase = .running (.inProcess b)) {text : String} {b' : InProcess}
    {events : List Event} (sent : b.send text = { outcome := .ok (), state := b', events }) :
    send text s = (.ok (), s.saying (.inProcess b') events) := by
  have taken : ((Channel.inProcess b).send text).outcome = .ok () := congrArg Reply.outcome sent
  rw [send, exchange_of_ok running taken, after, Channel.send, sent]
  rfl

/-- A command that ends the dialogue. -/
theorem send_refused (running : s.phase = .running (.inProcess b)) {text : String} {fault : Fault}
    (sent : b.send text = { outcome := .error fault, state := b })
    (ends : fault.endsDialogue = true) :
    send text s = (.error (.fault fault), (s.saying (.inProcess b) []).fail) := by
  have failed : ((Channel.inProcess b).send text).outcome = .error fault :=
    congrArg Reply.outcome sent
  rw [send, exchange_of_error running failed, after, Channel.send, sent, giveUp, if_pos ends]
  rfl

/-- **The lines of an assertion**, at a solver that knows some of the constants:
they all arrive and the names that were new are on one line, or the dialogue is
broken off. An assertion that is rejected comes after all declarations. -/
theorem sendAll_lines {known new : SortTable} {t : Term}
    (running : s.phase = .running (.inProcess b)) (keeps : b.Keeps known s.scopes)
    (once : (known ++ new).names.Nodup) (writable : ∀ x ∈ new.names, isWritable x = true)
    (whole : ∀ x ∈ known.names, BreakFree x) (named : t.Named fun x => isWritable x = true)
    (covers : ∀ x ∈ t.names, x ∈ (known ++ new).names) :
    (∃ b', sendAll (lines (textOf (declareAll new ++ [.assert t]))) s =
        (.ok (), s.saying (.inProcess b') [.asserted (Command.assert t).text (known ++ new)]) ∧
      b'.Keeps (known ++ new) s.scopes ∧ ∀ x ∈ (known ++ new).names, BreakFree x) ∨
    ∃ fault b', sendAll (lines (textOf (declareAll new ++ [.assert t]))) s =
        (.error (.fault fault), (s.saying (.inProcess b') []).fail) ∧
      ∀ reason command, fault = .assertionRejected reason command →
        command = (Command.assert t).text ∧ b'.constants = known ++ new := by
  -- a declaration that is taken moves from the new constants to the known ones
  induction new generalizing s b known with
  | nil =>
    rw [List.append_nil] at covers ⊢
    have line : lines (textOf (declareAll [] ++ [.assert t])) = [(Command.assert t).text] :=
      lines_textOf (List.forall_mem_singleton.2 (breakFree_append.2 ⟨breakFree_append.2
        ⟨by decide, named.breakFree_text fun x hx => whole x (covers x hx)⟩, by decide⟩))
    rw [line, sendAll_singleton]
    have sent := b.send_assert t
    cases rejection : b.binding.rejection b.history (Command.assert t).text with
    | some reason =>
      rw [rejection] at sent
      refine .inr ⟨_, b, send_refused running sent rfl, fun _ _ same => ?_⟩
      cases same
      exact ⟨rfl, keeps.constants⟩
    | none =>
      rw [rejection] at sent
      refine .inl ⟨{ b with history := b.history.addAll [.asserted (Command.assert t).text
        b.constants] }, ?_, ⟨keeps.constants, keeps.names, keeps.marks⟩, whole⟩
      rw [← keeps.constants]
      exact send_taken running sent
  | cons entry new ih =>
    obtain ⟨name, sort⟩ := entry
    have fresh : name ∉ known.names := by
      rw [SortTable.names_append, List.nodup_append] at once
      exact fun here => once.2.2 name here name List.mem_cons_self rfl
    have own : isWritable name = true := writable name List.mem_cons_self
    by_cases single : BreakFree name
    · obtain ⟨b₁, sent, keeps₁⟩ := keeps.declare own fresh sort
      have line : lines (textOf (declareAll ((name, sort) :: new) ++ [.assert t])) =
          (Command.declare name sort).text :: lines (textOf (declareAll new ++ [.assert t])) :=
        lines_textOf_cons (Command.breakFree_declare single sort) (by simp)
      have others := ih (s := s.saying (.inProcess b₁) []) rfl
        keeps₁ (by simpa using once) (fun x hx => writable x (List.mem_cons_of_mem _ hx))
        (by
          rw [SortTable.names_append]
          exact List.forall_mem_append.2 ⟨whole, List.forall_mem_singleton.2 single⟩)
        (by simpa using covers)
      rw [line]
      show (∃ b', (send _ >>= fun _ => sendAll _) s = _ ∧ _) ∨
        ∃ fault b', (send _ >>= fun _ => sendAll _) s = _ ∧ _
      rw [SessionM.bind_of_ok (send_taken running sent), List.append_cons known]
      exact others
    · obtain ⟨piece, more, line, lead, unfinished⟩ :=
        exists_lines_broken own single sort (declareAll new ++ [.assert t])
      have line : lines (textOf (declareAll ((name, sort) :: new) ++ [.assert t])) =
        piece :: more := line
      rw [line]
      have refused := send_refused running (b.send_broken lead unfinished) rfl
      exact .inr ⟨.unfinished .quotedSymbol, b, SessionM.bind_of_error refused _, nofun⟩

/-! ## Operations that leave the account as it is -/

theorem account_append {es fs : List Event} :
    Account asserted (es ++ fs) ↔ Account asserted es ∧ Account asserted fs := by
  simp only [Account, List.mem_append, or_imp, forall_and]

/-- A session that has gone on from a booked one, with an account that agrees. -/
theorem Booked.next (h : s.Booked asserted) {t : Session} {events : List Event}
    (trace : t.trace = s.trace.addAll events) (account : Account asserted events)
    (tallies : t.Tallies b) : t.Booked asserted := by
  refine ⟨?_, ?_⟩
  · rw [trace, History.toList_addAll]
    exact account_append.2 ⟨h.1, account⟩
  · rw [tallies.running]
    exact ⟨b, rfl, tallies⟩

/-- A session that is over. -/
theorem Booked.finish (h : s.Booked asserted) {t : Session} (events : List Event)
    (trace : t.trace = s.trace.addAll events) (account : Account asserted events)
    (finished : (∃ b, t.phase = .failed (.inProcess b)) ∨ t.phase = .closed) :
    t.Booked asserted := by
  refine ⟨?_, ?_⟩
  · rw [trace, History.toList_addAll]
    exact account_append.2 ⟨h.1, account⟩
  · rcases finished with ⟨b, finished⟩ | finished <;> rw [finished]
    · exact ⟨b, rfl⟩
    · trivial

/-- A running session has an account. -/
theorem Booked.exists_tallies (h : s.Booked asserted) {c : Channel}
    (running : s.phase = .running c) : ∃ b, s.Tallies b := by
  obtain ⟨-, phase⟩ := h
  rw [running] at phase
  obtain ⟨b, -, tallies⟩ := phase
  exact ⟨b, tallies⟩

/-- Whether an operation leaves booked sessions booked, whatever comes of it. -/
def Minds (asserted : Expr → Prop) {α : Type} (x : SessionM α) : Prop :=
  ∀ s : Session, s.Booked asserted → (x s).2.Booked asserted

namespace Minds

variable {α β : Type} {x : SessionM α}

theorem pure (a : α) : Minds asserted (pure a : SessionM α) := fun _ h => h

theorem throw (e : SessionError) : Minds asserted (throw e : SessionM α) := fun _ h => h

theorem get : Minds asserted (get : SessionM Session) := fun _ h => h

theorem bind (first : Minds asserted x) {f : α → SessionM β} (next : ∀ a, Minds asserted (f a)) :
    Minds asserted (x >>= f) := fun s h => by
  have minded := first s h
  rw [SessionM.bind_apply]
  rcases same : x s with ⟨_ | a, s'⟩
  · rw [same] at minded
    exact minded
  · rw [same] at minded
    exact next a s' minded

theorem requireRunning (operation : String) : Minds asserted (requireRunning operation) :=
  fun s h => by
    unfold Session.requireRunning
    split <;> exact h

theorem giveUp (fault : Fault) : Minds asserted (giveUp fault : SessionM α) := fun s h => by
  show (if fault.endsDialogue then s.fail else s).Booked asserted
  split
  · refine ⟨h.1, ?_⟩
    have phase := h.2
    unfold fail
    cases running : s.phase with
    | running c =>
      rw [running] at phase
      obtain ⟨b, same, -⟩ := phase
      exact ⟨b, same⟩
    | created | failed | closed =>
      rw [running] at phase
      exact phase
  · exact h

theorem interpret (answer : Except Fault α) : Minds asserted (interpret answer) := by
  cases answer with
  | ok a => exact pure a
  | error fault => exact giveUp fault

theorem written (w : Except WriteError α) : Minds asserted (written w) := by
  cases w with
  | ok a => exact pure a
  | error cause => exact throw _

/-- What the last check found is no part of the account. -/
theorem status (status : Option Status) :
    Minds asserted (modify fun s => { s with status } : SessionM Unit) := fun s h => by
  refine ⟨h.1, ?_⟩
  have phase := h.2
  show match s.phase with
    | .created => s.launch = .inProcess ∧ s.declared = [] ∧ s.scopes = []
    | .running c => ∃ b, c = .inProcess b ∧ ({ s with status } : Session).Tallies b
    | .failed c => ∃ b, c = .inProcess b
    | .closed => True
  cases running : s.phase with
  | running c =>
    rw [running] at phase
    obtain ⟨b, same, tallies⟩ := phase
    exact ⟨b, same, congrArg Phase.running same, tallies.keeps, tallies.grown, tallies.once,
      tallies.whole⟩
  | created | failed | closed =>
    rw [running] at phase
    exact phase

/-- An exchange that leaves the account as it was. -/
theorem exchange {act : Channel → Reply Channel α}
    (idle : ∀ b : InProcess, b.Idle (act (.inProcess b))) : Minds asserted (exchange act) :=
  fun s h => by
    cases phase : s.phase with
    | running c =>
      obtain ⟨b, tallies⟩ := h.exists_tallies phase
      obtain ⟨⟨b', state, constants, declared, marks⟩, quiet⟩ := idle b
      have next : (s.after (act (.inProcess b))).Booked asserted := by
        refine h.next rfl (fun text table here => absurd here (quiet text table))
          (b := b') ⟨?_, ⟨?_, ?_, ?_⟩, tallies.grown, tallies.once, tallies.whole⟩
        · exact congrArg Phase.running state
        · exact constants.trans tallies.keeps.constants
        · exact declared.trans tallies.keeps.names
        · exact marks.trans tallies.keeps.marks
      cases outcome : (act (.inProcess b)).outcome with
      | ok a =>
        rw [exchange_of_ok tallies.running outcome]
        exact next
      | error fault =>
        rw [exchange_of_error tallies.running outcome]
        exact giveUp fault _ next
    | created | failed | closed =>
      unfold Session.exchange
      rw [phase]
      exact h

theorem check : Minds asserted check :=
  (requireRunning _).bind fun _ => get.bind fun _ =>
    (exchange fun b => b.idle_askStatus _).bind fun _ => (interpret _).bind fun found =>
      (status (some found)).bind fun _ => pure found

theorem askValues (found : Model) (requests : List (List String)) :
    Minds asserted (askValues found requests) := by
  induction requests generalizing found with
  | nil => exact pure found
  | cons names rest ih =>
    exact get.bind fun _ => (written _).bind fun _ =>
      (exchange fun b => b.idle_askValues _ _ _).bind fun _ => (interpret _).bind fun values => ih _

theorem answers (names : List String) (defaults : Model) :
    Minds asserted (answers names defaults) :=
  (askValues _ _).bind fun _ => pure _

theorem model (vars : Option Operand) : Minds asserted (model vars) := fun s h => by
  cases phase : s.phase with
  | created | failed | closed =>
    have idle : s.phase.isRunning = false := by
      rw [phase]
      rfl
    unfold Session.model
    rw [requireRunning_bind idle]
    exact h
  | running c =>
    by_cases sat : s.status = some .sat
    · rw [model_of_sat phase sat]
      split
      · exact answers _ _ s h
      · split
        · exact h
        · split
          · exact h
          · exact answers _ _ s h
    · unfold Session.model
      rw [SessionM.bind_of_ok (requireRunning_of_running phase _),
        SessionM.bind_of_ok (SessionM.get_apply s), if_neg (mt beq_iff_eq.1 sat)]
      exact h

end Minds

/-! ## Operations that change the account -/

/-- A scope is opened on both sides. -/
theorem Tallies.push (h : s.Tallies b) : ∃ b' s', Session.push s = (.ok (), s') ∧
    s'.trace = s.trace.addAll [.pushed] ∧ s'.Tallies b' := by
  obtain ⟨b', sent, keeps⟩ := h.keeps.push
  refine ⟨b', { s.saying (.inProcess b') [.pushed] with
    scopes := s.declared :: s.scopes, status := none }, ?_, rfl,
    rfl, keeps, ⟨List.prefix_rfl, h.grown⟩, h.once, h.whole⟩
  unfold Session.push
  rw [SessionM.bind_of_ok (requireRunning_of_running h.running _),
    SessionM.bind_of_ok (send_taken h.running sent)]
  rfl

/-- **A scope is closed on both sides**, and every constant declared in it is
there to be deleted. -/
theorem Tallies.pop (h : s.Tallies b) {saved : SortTable} {outer : List SortTable}
    (opened : s.scopes = saved :: outer) : ∃ b' s', Session.pop s = (.ok (), s') ∧
    s'.trace = s.trace.addAll [.popped] ∧ s'.Tallies b' ∧ s'.declared = saved ∧
    (b.declared.drop saved.length).foldlM SortTable.delete? b.constants = some saved := by
  have grown := h.grown
  rw [opened] at grown
  obtain ⟨⟨new, declared⟩, around⟩ := grown
  have keeps := h.keeps
  have once := h.once
  rw [opened, ← declared] at keeps
  rw [← declared] at once
  obtain ⟨b', sent, keeps', deleted⟩ := keeps.pop once
  have names : saved.names.Sublist s.declared.names := by
    rw [← declared, SortTable.names_append]
    exact List.sublist_append_left _ _
  refine ⟨b', { s.saying (.inProcess b') [.popped] with
    declared := saved, scopes := outer, status := none }, ?_, rfl,
    ⟨rfl, keeps', around, h.once.sublist names, fun x hx => h.whole x (names.subset hx)⟩, rfl,
    keeps'.constants ▸ deleted⟩
  unfold Session.pop
  rw [SessionM.bind_of_ok (requireRunning_of_running h.running _),
    SessionM.bind_of_ok (SessionM.get_apply s), opened]
  dsimp only
  rw [SessionM.bind_of_ok (send_taken h.running sent)]
  rfl

/-- **An expression is asserted on both sides**, or refused, or the dialogue is
broken off. What has been handed to the solver is its assertion, with a constant
for each variable. -/
theorem Tallies.assert (h : s.Tallies b) (e : Expr) :
    (∃ cause, Session.assert e s = (.error (.write cause), s)) ∨
    (∃ b' s' text, Session.assert e s = (.ok (), s') ∧ Grounded (· = e) text s'.declared ∧
      s'.trace = s.trace.addAll [.asserted text s'.declared] ∧ s'.Tallies b') ∨
    ∃ fault b' s', Session.assert e s = (.error (.fault fault), s') ∧ s'.trace = s.trace ∧
      s'.phase = .failed (.inProcess b') ∧
      ∀ reason command, fault = .assertionRejected reason command →
        Grounded (· = e) command b'.constants := by
  unfold Session.assert
  rw [SessionM.bind_of_ok (requireRunning_of_running h.running _),
    SessionM.bind_of_ok (SessionM.get_apply s)]
  cases written : assertion s.declared e with
  | error cause => exact .inl ⟨cause, rfl⟩
  | ok result =>
    obtain ⟨commands, declared⟩ := result
    obtain ⟨t, new, term, made, rfl, rfl⟩ := assertion_eq_ok_iff.1 written
    have declaring := newDeclarations_spec made
    have named := Term.named_ofExpr term
    have covers := Term.mem_names_of_hasSort declaring.sorted term
    have once : (s.declared ++ new).names.Nodup := declaring.nodup h.once
    have parsed : Item.parse (Command.assert t).text = .ok [(Command.assert t).item] :=
      Command.parse_text named
    have grounded : Grounded (· = e) (Command.assert t).text (s.declared ++ new) :=
      ⟨e, t, rfl, term, rfl, parsed, declaring.sorted, covers⟩
    rw [SessionM.bind_of_ok (written_ok _ s)]
    dsimp only
    rw [SessionM.bind_of_ok (SessionM.modify_apply _ s)]
    rcases sendAll_lines (s := { s with declared := s.declared ++ new }) h.running h.keeps once
      declaring.writable h.whole named covers with
      ⟨b', sent, keeps, whole⟩ | ⟨fault, b', sent, rejected⟩
    · rw [SessionM.bind_of_ok sent]
      exact .inr (.inl ⟨b', _, _, rfl, grounded, rfl, rfl, keeps, h.grown.append new, once, whole⟩)
    · refine .inr (.inr ⟨fault, b', _, SessionM.bind_of_error sent _, rfl, rfl, ?_⟩)
      intro reason command same
      obtain ⟨rfl, constants⟩ := rejected reason command same
      exact constants ▸ grounded

/-! ## Opening and closing -/

theorem booked_new (asserted : Expr → Prop) (options : SessionOptions) :
    Booked asserted { launch := .inProcess, options } :=
  ⟨fun _ _ here => absurd here List.not_mem_nil, rfl, rfl, rfl⟩

theorem Minds.greet : Minds asserted greet :=
  (Minds.exchange fun b => b.idle_greeting (.inl rfl)).bind fun _ => .bind .get fun s => by
    show Minds asserted (if s.options.logic.isEmpty = true then Pure.pure () else _)
    split
    · exact .pure ()
    · exact .exchange fun b => b.idle_greeting (.inr ⟨_, rfl⟩)

/-- Closing a session hands nothing to its solver. -/
theorem Booked.close (h : s.Booked asserted) : s.close.Booked asserted := by
  have quiet : Account asserted [] := fun _ _ here => absurd here List.not_mem_nil
  have released : s.close.trace = s.trace := by
    have phase := h.2
    unfold Session.close
    cases running : s.phase with
    | created | closed => rfl
    | running c =>
      rw [running] at phase
      obtain ⟨b, rfl, -⟩ := phase
      rfl
    | failed c =>
      rw [running] at phase
      obtain ⟨b, rfl⟩ := phase
      rfl
  exact h.finish [] released quiet (.inr (phase_close s))

/-- Starting the solver of a session. -/
theorem Booked.start (h : s.Booked asserted) (created : s.phase = .created) (host : Host) :
    (Session.start host s).2.Booked asserted := by
  obtain ⟨launch, options, phase, declared, scopes, status, trace⟩ := s
  obtain rfl : phase = .created := created
  obtain ⟨before, rfl, rfl, rfl⟩ := h
  obtain ⟨keeps, quiet⟩ := InProcess.keeps_start host.binding options.deadline
  have account : Account asserted
      (trace.addAll (InProcess.start host.binding options.deadline).events).toList := by
    rw [History.toList_addAll]
    exact account_append.2 ⟨before, fun text table here => absurd here (quiet text table)⟩
  unfold Session.start
  dsimp only
  cases (InProcess.start host.binding options.deadline).outcome with
  | ok => exact ⟨account, _, rfl, rfl, keeps, trivial, List.nodup_nil, List.forall_mem_nil _⟩
  | error fault => exact ⟨account, rfl, rfl, rfl⟩

theorem Booked.openOn (h : s.Booked asserted) (host : Host) :
    (Session.openOn host s).2.Booked asserted := by
  by_cases created : s.phase = .created
  · have started := h.start created host
    unfold Session.openOn
    rw [created]
    dsimp only
    generalize Session.start host s = r at started
    rcases r with ⟨e | ⟨⟩, s₁⟩
    · exact started
    · have greeted := Minds.greet s₁ started
      dsimp only
      generalize Session.greet s₁ = r at greeted
      rcases r with ⟨e | ⟨⟩, s₂⟩
      · exact greeted.close
      · exact greeted
  · rw [openOn_of_opened created host]
    exact h

/-- **One operation** leaves a session booked, whatever comes of it. -/
theorem Booked.run (h : s.Booked asserted) {op : Operation}
    (known : ∀ e, op = .assert e → asserted e) : (op.run s).2.Booked asserted := by
  have quiet : Account asserted [.pushed] ∧ Account asserted [.popped] := by
    constructor <;> intro text constants here <;> cases List.mem_singleton.1 here
  cases phase : s.phase with
  | created | failed | closed =>
    rcases op.isInner_or with inner | ⟨host, rfl⟩ | rfl
    · obtain ⟨operation, same⟩ := run_of_idle (by rw [phase]; rfl) inner
      rw [same]
      exact h
    · exact h.openOn host
    · exact h.close
  | running c =>
    obtain ⟨b, tallies⟩ := h.exists_tallies phase
    cases op with
    | openOn host => exact h.openOn host
    | close => exact h.close
    | check => exact (Minds.check.bind fun _ => .pure ()) s h
    | model vars => exact ((Minds.model vars).bind fun _ => .pure ()) s h
    | push =>
      obtain ⟨b', s', same, trace, next⟩ := tallies.push
      rw [show Operation.run .push s = _ from same]
      exact h.next trace quiet.1 next
    | pop =>
      cases opened : s.scopes with
      | nil =>
        rcases pop_course phase with ⟨-, same⟩ | ⟨saved, outer, some, -⟩
        · rw [show Operation.run .pop s = _ from same]
          exact h
        · cases opened.symm.trans some
      | cons saved outer =>
        obtain ⟨b', s', same, trace, next, -⟩ := tallies.pop opened
        rw [show Operation.run .pop s = _ from same]
        exact h.next trace quiet.2 next
    | assert e =>
      rcases tallies.assert e with ⟨cause, same⟩ | ⟨b', s', text, same, grounded, trace, next⟩ |
        ⟨fault, b', s', same, trace, failed, -⟩
      · rw [show Operation.run (.assert e) s = _ from same]
        exact h
      · rw [show Operation.run (.assert e) s = _ from same]
        refine h.next trace (fun text' constants here => ?_) next
        cases List.mem_singleton.1 here
        exact grounded.mono fun _ same => same ▸ known e rfl
      · rw [show Operation.run (.assert e) s = _ from same]
        exact h.finish [] trace (fun _ _ here => absurd here List.not_mem_nil)
          (.inl ⟨b', failed⟩)

/-- **Any operations** leave a session booked. -/
theorem Booked.runAll (h : s.Booked asserted) {ops : List Operation}
    (known : ∀ e, .assert e ∈ ops → asserted e) : (Operation.runAll s ops).Booked asserted := by
  induction ops generalizing s with
  | nil => exact h
  | cons op ops ih =>
    exact ih (h.run fun e same => known e (same ▸ List.mem_cons_self))
      fun e member => known e (List.mem_cons_of_mem _ member)

/-! ## The account of a run -/

/-- **The two accounts of a session are one**: what is said of a session, of what
is kept for its solver, and of some expressions that have been asserted. -/
structure Reconciled (s : Session) (b : InProcess) : Prop where
  /-- The names on this side are those of the session, each of them once. -/
  names : b.declared = s.declared.names ∧ b.declared.Nodup
  /-- The constants have the sorts that the session has recorded. -/
  constants : b.constants = s.declared
  /-- There is a mark for each open scope, and it is the size of the table that
  was saved when the scope was opened, whose names are those up to the mark. -/
  marks : b.marks.length = s.scopes.length ∧ ∀ i (inside : i < s.scopes.length),
    b.marks[i]? = some s.scopes[i].length ∧
      s.scopes[i].names = b.declared.take s.scopes[i].length
  /-- Closing a scope goes through: the scope has a mark, the constants behind it
  can be deleted one by one, and those that remain are the saved ones. -/
  pops : ∀ saved outer, s.scopes = saved :: outer →
    ∃ mark marks s', b.marks = mark :: marks ∧ Session.pop s = (.ok (), s') ∧
      (b.declared.drop mark).foldlM SortTable.delete? b.constants = some saved ∧
      s'.declared = saved
  /-- What is handed to the solver and rejected by it is the assertion of the
  expression, over the constants that it came with. -/
  rejected : ∀ e reason command s',
    Session.assert e s = (.error (.fault (.assertionRejected reason command)), s') →
      ∃ b', s'.phase = .failed (.inProcess b') ∧ Grounded (· = e) command b'.constants

theorem Tallies.reconciled (h : s.Tallies b) : s.Reconciled b where
  names := ⟨h.keeps.names, h.keeps.names ▸ h.once⟩
  constants := h.keeps.constants
  marks := by
    refine ⟨by rw [h.keeps.marks, List.length_map], fun i inside => ⟨?_, ?_⟩⟩
    · rw [h.keeps.marks]
      simp [inside]
    · obtain ⟨new, whole⟩ := h.grown.prefix_of_mem (List.getElem_mem inside)
      have length : s.scopes[i].names.length = s.scopes[i].length := List.length_map _
      rw [h.keeps.names, ← whole, SortTable.names_append, List.take_left' length]
  pops saved outer opened := by
    obtain ⟨b', s', same, -, -, declared, deleted⟩ := h.pop opened
    refine ⟨saved.length, outer.map List.length, s', ?_, same, deleted, declared⟩
    rw [h.keeps.marks, opened]
    rfl
  rejected e reason command s' refused := by
    rcases h.assert e with ⟨cause, same⟩ | ⟨b', s'', text, same, -⟩ |
      ⟨fault, b', s'', same, -, failed, rejected⟩
    · cases same.symm.trans refused
    · cases same.symm.trans refused
    · cases same.symm.trans refused
      exact ⟨b', failed, rejected reason command rfl⟩

end Session

/-- **The account kept for an in-process solver stays in step**, whatever is done
with the session and whatever the solver does. As long as the session is running,
the constants, their names and the marks agree with the tables of the session.
Every assertion that the solver has taken is that of an asserted expression, and
came with a constant for each of its variables. -/
theorem Operation.reconciled_run (options : SessionOptions) (ops : List Operation) :
    let s := runAll { launch := .inProcess, options } ops
    (∀ c, s.phase = .running c → ∃ b, c = .inProcess b ∧ s.Reconciled b) ∧
    ∀ text constants, .asserted text constants ∈ s.trace.toList →
      Grounded (fun e => .assert e ∈ ops) text constants := by
  have booked := (Session.booked_new (fun e => .assert e ∈ ops) options).runAll fun _ => id
  refine ⟨fun c running => ?_, booked.1⟩
  obtain ⟨b, tallies⟩ := booked.exists_tallies running
  exact ⟨b, Phase.running.inj (running.symm.trans tallies.running), tallies.reconciled⟩

/-- A session with a name between bars, a constant that is declared in an inner
scope and at another sort when that has been closed, and a scope that cannot be
closed. -/
def rescoping : List Operation :=
  [.openOn muteHost, .assert (.var "a b" (some .bool)), .push, .assert (.var "x" (some .bool)),
   .push, .pop, .pop, .pop, .push,
   .assert (.node ⟨.le, "le_x_x", none, none, none⟩ [.var "x" none, .var "x" none])]

theorem reconciled_rescoping :
    let s := Operation.runAll { launch := .inProcess, options := {} } rescoping
    s.declared = [("a b", .bool), ("x", .int)] ∧ s.scopes = [[("a b", .bool)]] ∧
      (∃ b, s.phase = .running (.inProcess b) ∧ s.Reconciled b) ∧
      Grounded (fun e => .assert e ∈ rescoping) "(assert |a b|)" [("a b", .bool)] ∧
      Grounded (fun e => .assert e ∈ rescoping) "(assert (<= x x))"
        [("a b", .bool), ("x", .int)] := by
  obtain ⟨running, grounded⟩ := Operation.reconciled_run {} rescoping
  have goesOn : (Operation.runAll { launch := .inProcess, options := {} }
      rescoping).phase.isRunning = true := by decide +kernel
  refine ⟨by decide +kernel, by decide +kernel, ?_, grounded _ _ (by decide +kernel),
    grounded _ _ (by decide +kernel)⟩
  cases phase : (Operation.runAll { launch := .inProcess, options := {} } rescoping).phase with
  | created | failed | closed =>
    rw [phase] at goesOn
    cases goesOn
  | running c =>
    obtain ⟨b, rfl, reconciled⟩ := running c phase
    exact ⟨b, rfl, reconciled⟩

end SmtDialogue
