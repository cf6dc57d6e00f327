import SmtDialogue.Proofs.Exchange
import SmtDialogue.Session.Assertion
import SmtDialogue.Session.LifeCycle
import SmtDialogue.Session.Model

/-!
# Sessions in step with their solvers

Three parties keep an account of the open scopes: the solver, by what it has
heard; the session, by its table of declared constants and the tables that it
saves when scopes are opened; and whoever reads the dialogue. `InStep` says that
the three agree, and each operation on a running session has one lemma that says
what the scopes are after it. An operation that ends in an error leaves the
session in step with the same scopes, or has broken the dialogue off
(`Leads`).

More can be kept along with this, of the events and of the solver at once; what
is `kept` only has to be stable under the exchanges that a session has with its
solver.
-/

namespace SmtDialogue

open Smt

/-- Whether something about events and solver lasts through the exchanges of a
session with some deadline. -/
structure Channel.Stable (deadline : Option Seconds) (kept : History → Channel → Prop) : Prop where
  /-- It lasts when a command is sent. -/
  send : ∀ {h : History} {c : Channel} {text : String}, isQuestion text = false → kept h c →
    kept (h.addAll (c.send text).events) (c.send text).state
  /-- It lasts through a check. -/
  status : ∀ {h : History} {c : Channel}, kept h c →
    kept (h.addAll (c.askStatus deadline).events) (c.askStatus deadline).state
  /-- It lasts when values are asked for. -/
  values : ∀ {h : History} {c : Channel} (sorts : SortTable) (names : List String), kept h c →
    kept (h.addAll (c.askValues deadline sorts names).events)
      (c.askValues deadline sorts names).state

namespace SessionM

variable {α β : Type} {x : SessionM α} {s s' : Session}

/-- After a result the next operation goes on. -/
theorem bind_of_ok {a : α} (h : x s = (.ok a, s')) (f : α → SessionM β) :
    (x >>= f) s = f a s' := by
  rw [bind_apply, h]

/-- After an error nothing goes on. -/
theorem bind_of_error {e : SessionError} (h : x s = (.error e, s')) (f : α → SessionM β) :
    (x >>= f) s = (.error e, s') := by
  rw [bind_apply, h]

end SessionM

namespace Session

variable (deadline : Option Seconds) (kept : History → Channel → Prop)

/-- **A running session is in step with its solver**: replaying what the solver
has heard gives the constants that the session has declared and, for each open
scope, the constants that it has saved. -/
structure InStep (scopes : Scopes) (s : Session) : Prop where
  /-- What the solver has heard gives the scopes, and more is kept. -/
  heard : ∃ c, s.phase = .running c ∧ c.Heard scopes [] ∧ kept s.trace c
  /-- The deadline of its questions. -/
  deadline : s.options.deadline = deadline
  /-- The constants that are live have been declared by the session. -/
  live : scopes.live = s.declared
  /-- What was live when scopes were opened has been saved by the session. -/
  saved : scopes.saved = s.scopes
  /-- Each constant has been declared once. -/
  once : s.declared.names.Nodup
  /-- The names of constants can be written. -/
  writable : ∀ x ∈ s.declared.names, isWritable x = true

/-- The dialogue has been broken off; what the solver had heard by then can
still be replayed. -/
def Broken (s : Session) : Prop :=
  ∃ c scopes pending, s.phase = .failed c ∧ c.Heard scopes pending ∧ kept s.trace c

/-- **What an operation leads to**, from a session in step with some scopes: a
session in step with the scopes that its result asks for, or, after an error,
with the same scopes, unless the dialogue has been broken off. -/
def Leads {α : Type} (before : Scopes) (after : α → Scopes → Prop) :
    Except SessionError α × Session → Prop
  | (.ok a, s) => ∃ scopes, after a scopes ∧ s.InStep deadline kept scopes
  | (.error _, s) => s.InStep deadline kept before ∨ s.Broken kept

variable {deadline : Option Seconds} {kept : History → Channel → Prop}
variable {s : Session} {scopes : Scopes} {α : Type}

/-! ## One exchange -/

/-- The session after an exchange. -/
def after (s : Session) (reply : Reply Channel α) : Session :=
  { s with phase := .running reply.state, trace := s.trace.addAll reply.events }

theorem exchange_of_ok {c : Channel} (running : s.phase = .running c)
    {act : Channel → Reply Channel α} {a : α} (ok : (act c).outcome = .ok a) :
    exchange act s = (.ok a, s.after (act c)) := by
  unfold exchange
  rw [running]
  simp only [ok]
  rfl

theorem exchange_of_error {c : Channel} (running : s.phase = .running c)
    {act : Channel → Reply Channel α} {fault : Fault} (failed : (act c).outcome = .error fault) :
    exchange act s = giveUp fault (s.after (act c)) := by
  unfold exchange
  rw [running]
  simp only [failed]
  rfl

theorem requireRunning_of_running {c : Channel} (running : s.phase = .running c)
    (operation : String) : requireRunning operation s = (.ok (), s) := by
  rw [requireRunning, running]
  rfl

theorem built_ok (a : α) (s : Session) : built (.ok a) s = (.ok a, s) := rfl

theorem written_ok (a : α) (s : Session) : written (.ok a) s = (.ok a, s) := rfl

/-- An exchange that changes no scope leaves the session in step. -/
theorem InStep.after (h : s.InStep deadline kept scopes) {reply : Reply Channel α}
    (heard : reply.state.Heard scopes [])
    (keeps : kept (s.trace.addAll reply.events) reply.state) :
    (s.after reply).InStep deadline kept scopes where
  heard := ⟨_, rfl, heard, keeps⟩
  deadline := h.deadline
  live := h.live
  saved := h.saved
  once := h.once
  writable := h.writable

/-- A fault leaves a session in step or breaks the dialogue off. -/
theorem InStep.giveUp (h : s.InStep deadline kept scopes) (fault : Fault)
    (after : α → Scopes → Prop) :
    Leads deadline kept scopes after (giveUp fault s) := by
  show (if fault.endsDialogue then s.fail else s).InStep deadline kept scopes ∨
    (if fault.endsDialogue then s.fail else s).Broken kept
  obtain ⟨c, running, heard, keeps⟩ := h.heard
  split
  · refine .inr ⟨c, scopes, [], ?_, heard, keeps⟩
    rw [fail, running]
  · exact .inl h

/-- A question whose answer is then interpreted. -/
theorem InStep.ask (h : s.InStep deadline kept scopes) {act : Channel → Reply Channel α}
    (heard : ∀ c : Channel, c.Heard scopes [] → (act c).state.Heard scopes [])
    (keeps : ∀ (t : History) (c : Channel), kept t c →
      kept (t.addAll (act c).events) (act c).state) :
    Leads deadline kept scopes (fun _ scopes' => scopes' = scopes) (exchange act s) := by
  obtain ⟨c, running, hc, keep⟩ := h.heard
  have next := h.after (heard c hc) (keeps _ _ keep)
  cases outcome : (act c).outcome with
  | ok a =>
    rw [exchange_of_ok running outcome]
    exact ⟨scopes, rfl, next⟩
  | error fault =>
    rw [exchange_of_error running outcome]
    exact next.giveUp fault _

theorem InStep.interpret (h : s.InStep deadline kept scopes) (answer : Except Fault α) :
    Leads deadline kept scopes (fun _ scopes' => scopes' = scopes) (interpret answer s) := by
  cases answer with
  | ok a => exact ⟨scopes, rfl, h⟩
  | error fault => exact h.giveUp fault _

/-- One operation after another, the first of which leaves the scopes as they
are. -/
theorem Leads.bind {β : Type} {x : SessionM α} {f : α → SessionM β}
    {after : β → Scopes → Prop}
    (first : Leads deadline kept scopes (fun _ scopes' => scopes' = scopes) (x s))
    (next : ∀ a s', x s = (.ok a, s') → s'.InStep deadline kept scopes →
      Leads deadline kept scopes after (f a s')) :
    Leads deadline kept scopes after ((x >>= f) s) := by
  rw [SessionM.bind_apply]
  rcases hx : x s with ⟨_ | a, s'⟩
  · rw [hx] at first
    exact first
  · rw [hx] at first
    obtain ⟨_, rfl, inStep⟩ := first
    exact next a s' hx inStep

/-! ## Commands without an answer -/

/-- A command that is taken or ends the dialogue. -/
theorem send_cases {c : Channel} (running : s.phase = .running c) {text : String}
    {before after : Channel → Prop} (follows : (c.send text).Follows before after) :
    (send text s = (.ok (), s.after (c.send text)) ∧ after (c.send text).state) ∨
      ∃ e, send text s = (.error e, (s.after (c.send text)).fail) ∧ before (c.send text).state := by
  unfold Reply.Follows at follows
  unfold send
  cases outcome : (c.send text).outcome with
  | ok =>
    rw [outcome] at follows
    exact .inl ⟨exchange_of_ok running outcome, follows⟩
  | error fault =>
    rw [outcome] at follows
    refine .inr ⟨.fault fault, ?_, follows.1⟩
    rw [exchange_of_error running outcome, Session.giveUp, if_pos follows.2]

theorem sendAll_singleton (text : String) (s : Session) : sendAll [text] s = send text s := by
  show (send text >>= fun _ => pure ()) s = _
  rw [SessionM.bind_apply]
  rcases send text s with ⟨_ | _, _⟩ <;> rfl

/-- A session whose dialogue has been broken off by a command. -/
theorem broken_fail {reply : Reply Channel α} {pending : SortTable}
    (heard : reply.state.Heard scopes pending)
    (keeps : kept (s.trace.addAll reply.events) reply.state) :
    (s.after reply).fail.Broken kept := ⟨_, scopes, pending, rfl, heard, keeps⟩

section Stable

variable (stable : Channel.Stable deadline kept)
include stable

/-- Declarations in a row: all of them are taken, or the dialogue is broken
off. -/
theorem sendAll_declareAll {new pending : SortTable} (rest : List String) {c : Channel}
    (running : s.phase = .running c) (heard : c.Heard scopes pending) (keep : kept s.trace c)
    (writable : ∀ x ∈ new.names, isWritable x = true)
    (once : (scopes.live ++ (pending ++ new)).names.Nodup) :
    (∃ c' t', c'.Heard scopes (pending ++ new) ∧ kept t' c' ∧
      sendAll ((declareAll new).map Command.text ++ rest) s =
        sendAll rest { s with phase := .running c', trace := t' }) ∨
    ∃ e s', sendAll ((declareAll new).map Command.text ++ rest) s = (.error e, s') ∧
      s'.Broken kept := by
  -- a declaration that is taken moves from the new constants to the pending ones
  induction new generalizing s pending c with
  | nil =>
    refine .inl ⟨c, s.trace, by rwa [List.append_nil], keep, ?_⟩
    rw [← running]
    rfl
  | cons entry new ih =>
    obtain ⟨name, sort⟩ := entry
    have fresh : name ∉ (scopes.live ++ pending).names := by
      rw [← List.append_assoc, SortTable.names_append, List.nodup_append] at once
      exact fun here => once.2.2 name here name List.mem_cons_self rfl
    have follows := c.follows_declare heard (writable name List.mem_cons_self) fresh sort
    have keeps := stable.send
      (show isQuestion (Command.declare name sort).text = false from
        Command.isQuestion_text nofun nofun) keep
    show (∃ c' t', _ ∧ _ ∧ (send _ >>= fun _ => sendAll _) s = _) ∨
      ∃ e s', (send _ >>= fun _ => sendAll _) s = _ ∧ _
    rcases send_cases running follows with ⟨taken, heard⟩ | ⟨e, refused, heard⟩
    · rw [SessionM.bind_of_ok taken]
      rw [List.append_cons] at once ⊢
      exact ih rfl heard keeps (fun x hx => writable x (List.mem_cons_of_mem _ hx)) once
    · rw [SessionM.bind_of_error refused]
      exact .inr ⟨e, _, rfl, broken_fail heard keeps⟩

/-- A command without an answer that changes the scopes. -/
theorem InStep.send (h : s.InStep deadline kept scopes) {c : Command} {scopes' : Scopes}
    (command : isQuestion c.text = false)
    (follows : ∀ channel : Channel, channel.Heard scopes [] →
      (channel.send c.text).Follows (Channel.Heard scopes []) (Channel.Heard scopes' [])) :
    (∃ reply : Reply Channel Unit, send c.text s = (.ok (), s.after reply) ∧
      reply.state.Heard scopes' [] ∧ kept (s.trace.addAll reply.events) reply.state) ∨
    ∃ e s', send c.text s = (.error e, s') ∧ s'.Broken kept := by
  obtain ⟨channel, running, heard, keep⟩ := h.heard
  rcases send_cases running (follows channel heard) with ⟨taken, heard⟩ | ⟨e, refused, heard⟩
  · exact .inl ⟨_, taken, heard, stable.send command keep⟩
  · exact .inr ⟨e, _, refused, broken_fail heard (stable.send command keep)⟩

/-- Opening a scope. -/
theorem InStep.push (h : s.InStep deadline kept scopes) :
    Leads deadline kept scopes (fun _ scopes' => scopes' = scopes.opening) (push s) := by
  obtain ⟨channel, running, -, -⟩ := h.heard
  unfold Session.push
  rw [SessionM.bind_of_ok (requireRunning_of_running running _)]
  rcases h.send stable (c := .push) (Command.isQuestion_text nofun nofun)
    (fun _ => Channel.follows_push) with ⟨reply, taken, heard, keeps⟩ | ⟨e, s', refused, broken⟩
  · rw [SessionM.bind_of_ok taken]
    refine ⟨_, rfl, ⟨_, rfl, heard, keeps⟩, h.deadline, ?_, ?_, h.once, h.writable⟩
    · rw [Scopes.live_opening]
      exact h.live
    · rw [Scopes.saved_opening, h.live, h.saved]
      rfl
  · rw [SessionM.bind_of_error refused]
    exact .inr broken

/-- Closing a scope. -/
theorem InStep.pop (h : s.InStep deadline kept scopes) :
    Leads deadline kept scopes (fun _ scopes' => scopes.step .pop = some scopes') (pop s) := by
  obtain ⟨channel, running, -, -⟩ := h.heard
  unfold Session.pop
  rw [SessionM.bind_of_ok (requireRunning_of_running running _),
    SessionM.bind_of_ok (SessionM.get_apply s)]
  cases opened : s.scopes with
  | nil => exact .inl h
  | cons saved around =>
    have saves := h.saved.trans opened
    obtain ⟨scopes', new, makes, rfl, rfl, live⟩ := Scopes.exists_pop saves
    have declared : s.declared = scopes'.live ++ new := h.live.symm.trans live
    have names : scopes'.live.names.Sublist s.declared.names := by
      rw [declared, SortTable.names_append]
      exact List.sublist_append_left _ _
    dsimp only
    rcases h.send stable (c := .pop) (Command.isQuestion_text nofun nofun)
      (fun _ heard => Channel.follows_pop heard (by rw [h.live]; exact h.once) saves makes) with
      ⟨reply, taken, heard, keeps⟩ | ⟨e, s', refused, broken⟩
    · rw [SessionM.bind_of_ok taken]
      exact ⟨scopes', makes, ⟨_, rfl, heard, keeps⟩, h.deadline, rfl, rfl, h.once.sublist names,
        fun x hx => h.writable x (names.subset hx)⟩
    · rw [SessionM.bind_of_error refused]
      exact .inr broken

/-! ## Assertions -/

/-- **Asserting an expression.** -/
theorem InStep.assert (h : s.InStep deadline kept scopes) {e : Expr} (built : e.Built)
    (whole : ∀ x ∈ e.variableNames, Text.BreakFree x) :
    Leads deadline kept scopes
      (fun _ scopes' => ∃ t new, Term.ofExpr e = .ok t ∧ Declaring scopes.live e new ∧
        scopes' = (scopes.declaring new).asserting t) (assert e s) := by
  obtain ⟨channel, running, heard, keep⟩ := h.heard
  unfold Session.assert
  rw [SessionM.bind_of_ok (requireRunning_of_running running _),
    SessionM.bind_of_ok (SessionM.get_apply s)]
  cases written : assertion s.declared e with
  | error cause => exact .inl h
  | ok result =>
    obtain ⟨commands, declared⟩ := result
    obtain ⟨t, new, term, made, rfl, rfl⟩ := assertion_eq_ok_iff.1 written
    have declaring := newDeclarations_spec made
    have names : (scopes.live ++ new).names.Nodup := by
      rw [h.live]
      exact declaring.nodup h.once
    have writable : ∀ x ∈ (s.declared ++ new).names, isWritable x = true := by
      rw [SortTable.names_append]
      exact List.forall_mem_append.2 ⟨h.writable, declaring.writable⟩
    have sorted : t.sort? (scopes.live ++ new) = some .bool := by
      rw [h.live]
      exact sort?_ofExpr built declaring.sorted term
    have named : t.Over fun x => isWritable x = true :=
      (Term.over_ofExpr built whole term).mono fun _ h => h.1
    rw [SessionM.bind_of_ok (written_ok _ s)]
    dsimp only
    rw [SessionM.bind_of_ok (SessionM.modify_apply _ s), lines_assertion built whole declaring term]
    -- the session believes in the declarations before they are sent, so that a refusal in their
    -- midst may only end in a dialogue that has been broken off
    rcases sendAll_declareAll (s := { s with declared := s.declared ++ new }) stable
      [(Command.assert t).text] running heard keep declaring.writable names with
      ⟨c, trace, heard, keep, same⟩ | ⟨e, s', refused, broken⟩
    · rw [sendAll_singleton] at same
      have follows := c.follows_assert heard named sorted
      have keeps := stable.send
        (show isQuestion (Command.assert t).text = false from
          Command.isQuestion_text nofun nofun) keep
      let s' := { s with declared := s.declared ++ new, phase := .running c, trace := trace }
      rcases send_cases (s := s') rfl follows with ⟨taken, heard⟩ | ⟨e, refused, heard⟩
      · rw [SessionM.bind_of_ok (same.trans taken)]
        refine ⟨_, ⟨t, new, term, h.live ▸ declaring, rfl⟩, ⟨_, rfl, heard, keeps⟩, h.deadline, ?_,
          h.saved, ?_, writable⟩
        · rw [Scopes.live_asserting, Scopes.live_declaring, h.live]
          rfl
        · show (s.declared ++ new).names.Nodup
          rw [← h.live]
          exact names
      · rw [SessionM.bind_of_error (same.trans refused)]
        exact .inr (broken_fail heard keeps)
    · rw [SessionM.bind_of_error refused]
      exact .inr broken

/-! ## Questions -/

omit stable in
/-- What the last check found is no part of the dialogue. -/
theorem InStep.withStatus (h : s.InStep deadline kept scopes) (status : Option Status) :
    ({ s with status } : Session).InStep deadline kept scopes :=
  ⟨h.heard, h.deadline, h.live, h.saved, h.once, h.writable⟩

/-- A check. -/
theorem InStep.check (h : s.InStep deadline kept scopes) :
    Leads deadline kept scopes (fun _ scopes' => scopes' = scopes) (check s) := by
  obtain ⟨channel, running, -, -⟩ := h.heard
  unfold Session.check
  rw [SessionM.bind_of_ok (requireRunning_of_running running _),
    SessionM.bind_of_ok (SessionM.get_apply s), h.deadline]
  refine Leads.bind (h.ask (fun c heard => Channel.heard_askStatus heard deadline)
    fun t c => stable.status) fun response s₁ _ h₁ => ?_
  exact Leads.bind (h₁.interpret _) fun status s₂ _ h₂ =>
    ⟨scopes, rfl, h₂.withStatus (some status)⟩

omit stable in
theorem flatten_cutParts (size room : Nat) (part xs : List α) :
    (cutParts size room part xs).flatten = part.reverse ++ xs := by
  induction xs generalizing room part with
  | nil =>
    rw [cutParts]
    split
    · next none => simp [List.isEmpty_iff.1 none]
    · simp
  | cons x xs ih =>
    cases room with
    | zero => rw [cutParts, List.flatten_cons, ih]; simp
    | succ room => rw [cutParts, ih]; simp

omit stable in
/-- The requests for some constants are for these constants. -/
theorem flatten_requests (names : List String) : (requests names).flatten = names :=
  flatten_cutParts _ _ [] names

omit stable in
/-- The parts of a list that has been cut are not empty and have the size, or less. -/
theorem length_of_mem_cutParts {size room : Nat} {part xs : List α} (pos : 0 < size)
    (fits : part.length + room = size) :
    ∀ p ∈ cutParts size room part xs, p ≠ [] ∧ p.length ≤ size := by
  induction xs generalizing room part with
  | nil =>
    rw [cutParts]
    split
    · nofun
    · next some =>
      refine List.forall_mem_singleton.2 ⟨?_, by rw [List.length_reverse]; omega⟩
      simpa using some
  | cons x xs ih =>
    cases room with
    | zero =>
      have full : part ≠ [] := List.ne_nil_of_length_pos (by omega)
      rw [cutParts, List.forall_mem_cons]
      exact ⟨⟨by simpa using full, by rw [List.length_reverse]; omega⟩,
        ih (by rw [List.length_singleton]; omega)⟩
    | succ room =>
      rw [cutParts]
      exact ih (by rw [List.length_cons]; omega)

omit stable in
/-- The first of some variables is asked for when it has been declared, and has
a default value otherwise. -/
theorem partitionVariables_cons {declared : SortTable} {e : Expr} {es : List Expr}
    {parts : List String × Model} :
    partitionVariables declared (e :: es) = .ok parts ↔
      e.isVariable = true ∧ ∃ names defaults,
        partitionVariables declared es = .ok (names, defaults) ∧
        parts = if declared.contains e.name then (e.name :: names, defaults)
          else (names, (Model.set [] e.name (defaultValue e)).update defaults) := by
  rw [partitionVariables]
  by_cases var : e.isVariable = true
  · rw [if_pos var, Outcome.bind_eq_ok_iff]
    constructor
    · rintro ⟨⟨names, defaults⟩, rest, made⟩
      refine ⟨var, names, defaults, rest, ?_⟩
      cases here : declared.contains e.name <;> rw [here] at made <;>
        exact (Except.ok.inj made).symm
    · rintro ⟨-, names, defaults, rest, rfl⟩
      refine ⟨(names, defaults), rest, ?_⟩
      cases declared.contains e.name <;> rfl
  · simp [var]

omit stable in
/-- Only constants that have been declared are asked for. -/
theorem mem_of_partitionVariables {declared : SortTable} {es : List Expr} {names : List String}
    {defaults : Model} (h : partitionVariables declared es = .ok (names, defaults)) :
    ∀ x ∈ names, x ∈ declared.names := by
  induction es generalizing names defaults with
  | nil =>
    cases h
    nofun
  | cons e es ih =>
    obtain ⟨-, names', defaults', rest, made⟩ := partitionVariables_cons.1 h
    split at made
    · next here =>
      cases made
      exact List.forall_mem_cons.2 ⟨SortTable.contains_iff.1 here, ih rest⟩
    · cases made
      exact ih rest

/-- Requests for the values of declared constants. -/
theorem InStep.askValues {requests : List (List String)} {found : Model} {s : Session}
    (h : s.InStep deadline kept scopes) (known : ∀ x ∈ requests.flatten, x ∈ s.declared.names) :
    Leads deadline kept scopes (fun _ scopes' => scopes' = scopes)
      (askValues found requests s) := by
  induction requests generalizing found s with
  | nil => exact ⟨scopes, rfl, h⟩
  | cons names requests ih =>
    rw [List.flatten_cons, List.forall_mem_append] at known
    have writable : ∀ x ∈ names, isWritable x = true := fun x hx => h.writable x (known.1 x hx)
    have request := getValueOf_of_writable writable
    unfold Session.askValues
    rw [SessionM.bind_of_ok (SessionM.get_apply s), request,
      SessionM.bind_of_ok (written_ok _ s), h.deadline]
    have live : ∀ x ∈ names, x ∈ scopes.live.names := by
      rw [h.live]
      exact known.1
    refine Leads.bind (h.ask (fun c heard => Channel.heard_askValues heard writable live deadline _)
      fun t c => stable.values s.declared names) fun response s₁ _ h₁ => ?_
    refine Leads.bind (h₁.interpret _) fun values s₂ _ h₂ => ih h₂ fun x hx => ?_
    rw [← h₂.live, h.live]
    exact known.2 x hx

omit stable in
/-- The values of some constants, on top of which come default values. -/
def answers (names : List String) (defaults : Model) : SessionM Model :=
  Session.askValues [] (requests names) >>= fun found => pure (found.update defaults)

omit stable in
/-- A model after a satisfiable check. -/
theorem model_of_sat {c : Channel} (running : s.phase = .running c) (sat : s.status = some .sat)
    (vars : Option Operand) :
    Session.model vars s =
      match vars with
      | none => answers s.declared.names [] s
      | some operand =>
        match Expr.collect operand with
        | .error cause => (.error (.build cause), s)
        | .ok es =>
          match partitionVariables s.declared es with
          | .error e => (.error e, s)
          | .ok (names, defaults) => answers names defaults s := by
  unfold Session.model
  rw [SessionM.bind_of_ok (requireRunning_of_running running _),
    SessionM.bind_of_ok (SessionM.get_apply s), sat]
  cases vars with
  | none => rfl
  | some operand =>
    cases h : Expr.collect operand with
    | error cause =>
      dsimp only
      rw [h]
      rfl
    | ok es =>
      dsimp only
      rw [h, if_pos (beq_self_eq_true _), SessionM.bind_of_ok (built_ok es s)]
      dsimp only
      cases partitionVariables s.declared es <;> rfl

/-- Values of variables. -/
theorem InStep.model (h : s.InStep deadline kept scopes) (vars : Option Operand) :
    Leads deadline kept scopes (fun _ scopes' => scopes' = scopes) (model vars s) := by
  obtain ⟨channel, running, -, -⟩ := h.heard
  by_cases sat : s.status = some .sat
  · have asked {names : List String} {defaults : Model}
        (known : ∀ x ∈ names, x ∈ s.declared.names) :
        Leads deadline kept scopes (fun _ scopes' => scopes' = scopes)
          (answers names defaults s) :=
      Leads.bind (h.askValues stable (by rwa [flatten_requests])) fun _ _ _ h₁ => ⟨scopes, rfl, h₁⟩
    rw [model_of_sat running sat]
    split
    · exact asked fun _ h => h
    · split
      · exact .inl h
      · split
        · exact .inl h
        · next parts => exact asked (mem_of_partitionVariables parts)
  · unfold Session.model
    rw [SessionM.bind_of_ok (requireRunning_of_running running _),
      SessionM.bind_of_ok (SessionM.get_apply s), if_neg (mt beq_iff_eq.1 sat)]
    exact .inl h

/-! ## Opening -/

/-- The first words. -/
theorem InStep.greet (h : s.InStep deadline kept {}) :
    Leads deadline kept {} (fun _ scopes' => scopes' = {}) (greet s) := by
  have say {s : Session} (h : s.InStep deadline kept {}) {c : Command}
      (greeting : c = .produceModels ∨ ∃ logic, c = .setLogic logic) :
      Leads deadline kept {} (fun _ scopes' => scopes' = {}) (Session.send c.text s) := by
    refine h.ask (fun channel heard => Channel.heard_greeting heard greeting) fun t c =>
      stable.send (Command.isQuestion_text ?_ ?_)
    · obtain rfl | ⟨logic, rfl⟩ := greeting <;> nofun
    · obtain rfl | ⟨logic, rfl⟩ := greeting <;> nofun
  unfold Session.greet
  refine Leads.bind (say h (.inl rfl)) fun _ s₁ _ h₁ => ?_
  rw [SessionM.bind_of_ok (SessionM.get_apply s₁)]
  by_cases none : s₁.options.logic.isEmpty = true
  · rw [if_pos none]
    exact ⟨{}, rfl, h₁⟩
  · rw [if_neg none]
    exact say h₁ (.inr ⟨_, rfl⟩)

omit stable in
/-- A solver that has been started has heard nothing. -/
theorem start_of_ok {host : Host} {s' : Session} (h : start host s = (.ok (), s')) :
    ∃ c es, s' = { s with phase := .running c, trace := s.trace.addAll es } ∧ c.Heard {} [] := by
  unfold start at h
  cases launch : s.launch with
  | process backend =>
    simp only [launch] at h
    split at h
    · cases h
    · split at h
      · cases h
      · cases h
        exact ⟨_, [_], rfl, rfl⟩
  | inProcess =>
    simp only [launch] at h
    split at h
    · cases h
      exact ⟨_, _, rfl, InProcess.heard_start _ _⟩
    · cases h

/-- **Opening a session.** It ends in step with the new solver, or as the start
of the solver has left it, or closed. -/
theorem openOn_leads {host : Host} (created : s.phase = .created)
    (bare : s.options.deadline = deadline ∧ s.declared = [] ∧ s.scopes = [])
    (starts : ∀ c s', start host s = (.ok (), s') → s'.phase = .running c → kept s'.trace c) :
    match openOn host s with
    | (.ok (), s') => s'.InStep deadline kept {}
    | (.error e, s') => start host s = (.error e, s') ∨
      ∃ s'' : Session, s' = s''.close ∧ (s''.InStep deadline kept {} ∨ s''.Broken kept) := by
  unfold openOn
  rw [created]
  rcases started : start host s with ⟨e | ⟨⟩, s₁⟩
  · exact .inl rfl
  · obtain ⟨c, es, rfl, heard⟩ := start_of_ok started
    obtain ⟨timed, declared, saved⟩ := bare
    have inStep : InStep deadline kept {}
        { s with phase := .running c, trace := s.trace.addAll es } :=
      { heard := ⟨c, rfl, heard, starts c _ started rfl⟩
        deadline := timed
        live := declared.symm
        saved := saved.symm
        once := by
          show s.declared.names.Nodup
          rw [declared]
          exact List.nodup_nil
        writable := by
          show ∀ x ∈ s.declared.names, _
          rw [declared]
          nofun }
    have greeted := inStep.greet stable
    dsimp only
    rcases hg : Session.greet { s with phase := .running c, trace := s.trace.addAll es } with
      ⟨e | ⟨⟩, s₂⟩
    · rw [hg] at greeted
      exact .inr ⟨s₂, rfl, greeted⟩
    · rw [hg] at greeted
      obtain ⟨_, rfl, next⟩ := greeted
      exact next

end Stable

end Session

end SmtDialogue
