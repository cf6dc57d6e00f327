import SmtDialogue.Proofs.CurrentModels
import SmtDialogue.Proofs.Oracle

/-!
# Solvers of both kinds are interchangeable

What comes of an operation, when the solver answers from an oracle, depends on what
has been said in the dialogue and not on the kind of solver: on the open scopes,
on what has been done with the assertions, and on what the last check found
(`Talk`). Each operation has one lemma, which says so of all sessions that have had
the same talk (`Determined`), and by induction two sessions that have begun alike
go on alike (`Operation.observations_interchange`).
-/

namespace SmtDialogue

open Smt

open Smt.Scopes (replay replayCalls)

/-- **What has been said in a dialogue.** -/
structure Talk where
  /-- The open scopes. -/
  scopes : Scopes := {}
  /-- What has been done with the assertions. -/
  deeds : List String := []
  /-- What the last check found, as long as that is still true. -/
  status : Option Status := none

/-- Where a session is in its life, with what has been said until then. -/
inductive Stage where
  /-- Not opened yet. -/
  | created
  /-- In dialogue. -/
  | running (t : Talk)
  /-- Closed, with the tables that were there before. -/
  | closed (declared : SortTable) (scopes : List SortTable)

/-- A host on which solvers of both kinds can be started and answer from an
oracle. -/
structure Host.Serves (o : Oracle) (backend : Backend) (options : SessionOptions)
    (host : Host) : Prop where
  /-- The executable is there. -/
  found : host.world.canRun ((backend.argv ++ options.extraArgs).headD "") = true
  /-- It can be started. -/
  starts : host.launchError = none
  /-- The process answers from the oracle. -/
  process : host.behaviour.Tells host.newlines options.deadline o
  /-- So does the in-process solver. -/
  binding : host.binding.Tells o

namespace Session

variable {o : Oracle} {deadline : Option Seconds} {t : Talk} {s : Session} {α β : Type}

/-- **A running session has had a talk** with a solver that answers from an oracle:
it is in step with the solver and the scopes of the talk. -/
structure Talks (o : Oracle) (deadline : Option Seconds) (t : Talk) (s : Session) : Prop where
  /-- The session is in step with its solver. -/
  inStep : s.InStep deadline (fun _ _ => True) t.scopes
  /-- The solver answers from the oracle, and has been told the talk. -/
  solver : ∃ c, s.phase = .running c ∧ c.Tells o deadline ∧ c.deeds = t.deeds
  /-- The names of the constants arrive as they are. -/
  whole : ∀ x ∈ t.scopes.live.names, Text.BreakFree x
  /-- The session remembers what the last check found. -/
  status : s.status = t.status

/-- **What comes of an operation is determined by the talk before it**: the same
result, or an error of the same kind, and the same talk after it. -/
def Determined (o : Oracle) (deadline : Option Seconds) (t : Talk) (x : SessionM α) : Prop :=
  ∃ result t', ∀ s, s.Talks o deadline t →
    (x s).1.mapError SessionError.kind = result ∧ (x s).2.Talks o deadline t'

/-- Of all exchanges it can be kept that nothing is. -/
theorem stable_true (deadline : Option Seconds) :
    Channel.Stable deadline fun _ _ => True where
  send _ _ := trivial
  status _ := trivial
  values _ _ _ := trivial

namespace Determined

/-- An operation with a result after all talks like this. -/
theorem of_ok {x : SessionM α} (a : α) (t' : Talk)
    (h : ∀ s, s.Talks o deadline t → ∃ s', x s = (.ok a, s') ∧ s'.Talks o deadline t') :
    Determined o deadline t x := by
  refine ⟨.ok a, t', fun s talks => ?_⟩
  obtain ⟨s', same, next⟩ := h s talks
  rw [same]
  exact ⟨rfl, next⟩

/-- An operation that is refused after all talks like this. -/
theorem of_error {x : SessionM α} (e : SessionError)
    (h : ∀ s, s.Talks o deadline t → x s = (.error e, s)) : Determined o deadline t x := by
  refine ⟨.error e.kind, t, fun s talks => ?_⟩
  rw [h s talks]
  exact ⟨rfl, talks⟩

/-- Operations that do the same after all talks like this. -/
theorem congr {x y : SessionM α} (h : Determined o deadline t y)
    (same : ∀ s, s.Talks o deadline t → x s = y s) : Determined o deadline t x := by
  obtain ⟨result, t', determined⟩ := h
  refine ⟨result, t', fun s talks => ?_⟩
  rw [same s talks]
  exact determined s talks

/-- What is reported of the result of an operation. -/
theorem report {x : SessionM α} (h : Determined o deadline t x) (f : α → β) :
    Determined o deadline t (x >>= fun a => pure (f a)) := by
  obtain ⟨result, t', same⟩ := h
  refine ⟨result.map f, t', fun s talks => ?_⟩
  obtain ⟨outcome, next⟩ := same s talks
  rw [SessionM.bind_apply, ← outcome]
  rcases hx : x s with ⟨_ | a, s'⟩ <;>
    · rw [hx] at next
      exact ⟨rfl, next⟩

end Determined

/-! ## Commands without an answer -/

/-- Commands without an answer go through. -/
theorem sendAll_of_tells {c : Channel} (running : s.phase = .running c) (tells : c.Tells o deadline)
    {cmds : List Command} (statements : ∀ cmd ∈ cmds, cmd.IsStatement) :
    ∃ c' trace, sendAll (cmds.map Command.text) s =
        (.ok (), { s with phase := .running c', trace := trace }) ∧
      c'.Tells o deadline ∧ c'.deeds = c.deeds ++ cmds.filterMap Command.deed? := by
  induction cmds generalizing s c with
  | nil => exact ⟨c, s.trace, by rw [← running]; rfl, tells, (List.append_nil _).symm⟩
  | cons cmd cmds ih =>
    have grants := tells.send (statements cmd List.mem_cons_self)
    have sent : send cmd.text s = (.ok (), s.after (c.send cmd.text)) :=
      exchange_of_ok running grants.outcome
    obtain ⟨c', trace, rest, tells', deeds⟩ :=
      ih (s := s.after (c.send cmd.text)) rfl grants.tells
        fun cmd' h => statements cmd' (List.mem_cons_of_mem _ h)
    refine ⟨c', trace, (SessionM.bind_of_ok sent _).trans rest, tells', ?_⟩
    rw [deeds, grants.done, List.append_assoc]
    cases does : cmd.deed? <;> simp [does]

/-- A command without an answer goes through. -/
theorem send_of_tells {c : Channel} (running : s.phase = .running c) (tells : c.Tells o deadline)
    (cmd : Command) (statement : cmd.IsStatement) :
    ∃ c' trace, send cmd.text s = (.ok (), { s with phase := .running c', trace := trace }) ∧
      c'.Tells o deadline ∧ c'.deeds = c.deeds ++ cmd.deed?.toList :=
  have grants := tells.send statement
  ⟨_, _, exchange_of_ok running grants.outcome, grants.tells, grants.done⟩

/-- Opening a scope. -/
theorem determined_push : Determined o deadline t push := by
  refine .of_ok () { scopes := t.scopes.opening, deeds := t.deeds ++ [Command.push.text] }
    fun s talks => ?_
  obtain ⟨c, running, tells, deeds⟩ := talks.solver
  obtain ⟨c', trace, sent, tells', deeds'⟩ := send_of_tells running tells .push trivial
  have pushed : push s = (.ok (), { s with
      phase := .running c', trace := trace,
      scopes := s.declared :: s.scopes, status := none }) := by
    unfold push
    rw [SessionM.bind_of_ok (requireRunning_of_running running _), SessionM.bind_of_ok sent]
    rfl
  have leads := talks.inStep.push (stable_true deadline)
  rw [pushed] at leads
  obtain ⟨_, rfl, inStep⟩ := leads
  exact ⟨_, pushed, inStep, ⟨c', rfl, tells', by rw [deeds', deeds]; rfl⟩,
    by rw [Scopes.live_opening]; exact talks.whole, rfl⟩

/-- Closing a scope. -/
theorem determined_pop : Determined o deadline t pop := by
  have opened {s : Session} (talks : s.Talks o deadline t) : t.scopes.saved = s.scopes :=
    talks.inStep.saved
  cases saved : t.scopes.saved with
  | nil =>
    refine .of_error .noScope fun s talks => ?_
    obtain ⟨c, running, -⟩ := talks.solver
    unfold pop
    rw [SessionM.bind_of_ok (requireRunning_of_running running _),
      SessionM.bind_of_ok (SessionM.get_apply s), ← opened talks, saved]
    rfl
  | cons table around =>
    obtain ⟨scopes', new, makes, live, -, split⟩ := Scopes.exists_pop saved
    refine .of_ok () { scopes := scopes', deeds := t.deeds ++ [Command.pop.text] }
      fun s talks => ?_
    obtain ⟨c, running, tells, deeds⟩ := talks.solver
    obtain ⟨c', trace, sent, tells', deeds'⟩ := send_of_tells running tells .pop trivial
    have popped : pop s = (.ok (), { s with
        phase := .running c', trace := trace, declared := table, scopes := around
        status := none }) := by
      unfold pop
      rw [SessionM.bind_of_ok (requireRunning_of_running running _),
        SessionM.bind_of_ok (SessionM.get_apply s), ← opened talks, saved]
      dsimp only
      rw [SessionM.bind_of_ok sent]
      rfl
    have leads := talks.inStep.pop (stable_true deadline)
    rw [popped] at leads
    obtain ⟨_, made, inStep⟩ := leads
    obtain rfl := Option.some.inj (makes.symm.trans made)
    have whole : ∀ x ∈ scopes'.live.names, Text.BreakFree x := fun x hx => talks.whole x <| by
      rw [split, SortTable.names_append, ← live]
      exact List.mem_append_left _ hx
    exact ⟨_, popped, inStep, ⟨c', rfl, tells', by rw [deeds', deeds]; rfl⟩, whole, rfl⟩

/-- Asserting an expression. -/
theorem determined_assert {e : Expr} (built : e.Built)
    (whole : ∀ x ∈ e.variableNames, Text.BreakFree x) :
    Determined o deadline t (assert e) := by
  cases written : assertion t.scopes.live e with
  | error cause =>
    refine .of_error (.write cause) fun s talks => ?_
    obtain ⟨c, running, -⟩ := talks.solver
    unfold assert
    rw [SessionM.bind_of_ok (requireRunning_of_running running _),
      SessionM.bind_of_ok (SessionM.get_apply s), ← talks.inStep.live, written]
    rfl
  | ok result =>
    obtain ⟨commands, declared⟩ := result
    obtain ⟨term, new, made, fresh, rfl, rfl⟩ := assertion_eq_ok_iff.1 written
    have declaring := newDeclarations_spec fresh
    have statements : ∀ cmd ∈ declareAll new ++ [.assert term], cmd.IsStatement := by
      refine List.forall_mem_append.2 ⟨fun cmd here => ?_, List.forall_mem_singleton.2 trivial⟩
      obtain ⟨⟨name, sort⟩, entry, rfl⟩ := List.mem_map.1 here
      exact declaring.writable name (List.mem_map_of_mem entry)
    refine .of_ok ()
      { scopes := (t.scopes.declaring new).asserting term
        deeds := t.deeds ++ (declareAll new ++ [Command.assert term]).filterMap Command.deed? }
      fun s talks => ?_
    obtain ⟨c, running, tells, deeds⟩ := talks.solver
    obtain ⟨c', trace, sent, tells', deeds'⟩ :=
      sendAll_of_tells (s := { s with declared := t.scopes.live ++ new }) running tells statements
    have asserted : assert e s = (.ok (), { s with
        phase := .running c', trace := trace, declared := t.scopes.live ++ new
        status := none }) := by
      unfold assert
      rw [SessionM.bind_of_ok (requireRunning_of_running running _),
        SessionM.bind_of_ok (SessionM.get_apply s), ← talks.inStep.live, written,
        SessionM.bind_of_ok (written_ok _ s)]
      dsimp only
      rw [SessionM.bind_of_ok (SessionM.modify_apply _ s),
        lines_assertion built whole declaring made, ← List.map_singleton, ← List.map_append,
        SessionM.bind_of_ok sent]
      rfl
    have leads := talks.inStep.assert (stable_true deadline) built whole
    rw [asserted] at leads
    obtain ⟨_, ⟨term', new', made', -, rfl⟩, inStep⟩ := leads
    obtain rfl := Except.ok.inj (made.symm.trans made')
    -- what has been declared besides is read off what the session believes to be declared
    have live := inStep.live
    rw [Scopes.live_asserting, Scopes.live_declaring] at live
    obtain rfl := List.append_cancel_left live
    refine ⟨_, asserted, inStep, ⟨c', rfl, tells', by rw [deeds', deeds]⟩, fun x hx => ?_, rfl⟩
    rw [Scopes.live_asserting, Scopes.live_declaring, SortTable.names_append, List.mem_append] at hx
    exact hx.elim (talks.whole x) fun here => whole x (declaring.names x here)

/-! ## Questions -/

/-- A check finds what the oracle says. -/
theorem determined_check (keepable : KeepableBy deadline) : Determined o deadline t check := by
  let status := o.status t.deeds t.scopes
  refine .of_ok status
    { scopes := t.scopes, deeds := t.deeds ++ [Command.checkSat.text], status := some status }
    fun s talks => ?_
  obtain ⟨c, running, tells, deeds⟩ := talks.solver
  obtain ⟨c₁, running₁, heard, -⟩ := talks.inStep.heard
  obtain rfl := Phase.running.inj (running.symm.trans running₁)
  obtain ⟨response, grants, word⟩ := tells.askStatus heard keepable
  rw [deeds] at word
  have checked : check s =
      (.ok status, { s.after (c.askStatus deadline) with status := some status }) := by
    unfold check
    rw [SessionM.bind_of_ok (requireRunning_of_running running _),
      SessionM.bind_of_ok (SessionM.get_apply s), talks.inStep.deadline,
      SessionM.bind_of_ok (exchange_of_ok running grants.outcome), Answer.status_of_trim word]
    rfl
  have next := talks.inStep.after (Channel.heard_askStatus heard deadline) trivial
  exact ⟨_, checked, next.withStatus _, ⟨_, rfl, grants.tells, by rw [grants.done, deeds]⟩,
    talks.whole, rfl⟩

/-- After a limit on this side the dialogue goes on. -/
theorem interpret_of_goesOn {fault : Fault} (goesOn : fault.endsDialogue = false) (s : Session) :
    (interpret (.error fault) : SessionM α) s = (.error (.fault fault), s) := by
  show giveUp fault s = _
  rw [giveUp, goesOn, if_neg Bool.false_ne_true]

/-- What is read of the values of a valuation, request by request, on top of the
values found before. -/
def readRequests (ρ : Valuation) (found : Model) : List (List String) → Except Fault Model
  | [] => .ok found
  | names :: rest => do
    let values ← Answer.reading ρ names
    readRequests ρ (found.update values) rest

/-- Asking for the values of declared constants gives what is read of the values of
the oracle. -/
theorem Talks.askValues (talks : s.Talks o deadline t) (keepable : KeepableBy deadline)
    {requests : List (List String)} (known : ∀ x ∈ requests.flatten, x ∈ t.scopes.live.names)
    (found : Model) :
    (askValues found requests s).1 =
        (readRequests (o.values t.deeds t.scopes) found requests).mapError SessionError.fault ∧
      (askValues found requests s).2.Talks o deadline t := by
  induction requests generalizing found s with
  | nil => exact ⟨rfl, talks⟩
  | cons names requests ih =>
    rw [List.flatten_cons, List.forall_mem_append] at known
    have writable : ∀ x ∈ names, isWritable x = true := fun x hx =>
      talks.inStep.writable x (talks.inStep.live ▸ known.1 x hx)
    have request := getValueOf_of_writable writable
    obtain ⟨c, running, tells, deeds⟩ := talks.solver
    obtain ⟨c₁, running₁, heard, -⟩ := talks.inStep.heard
    obtain rfl := Phase.running.inj (running.symm.trans running₁)
    obtain ⟨response, grants, answer⟩ := tells.askValues heard keepable known.1 writable
      fun x hx => talks.whole x (known.1 x hx)
    rw [deeds] at answer
    have next : (s.after (c.askValues deadline t.scopes.live names)).Talks o deadline t :=
      ⟨talks.inStep.after (Channel.heard_askValues heard writable known.1 deadline _) trivial,
        ⟨_, rfl, grants.tells, by rw [grants.done, deeds, List.append_nil]⟩, talks.whole,
        talks.status⟩
    unfold Session.askValues readRequests
    rw [SessionM.bind_of_ok (SessionM.get_apply s), request,
      SessionM.bind_of_ok (written_ok _ s), talks.inStep.deadline, ← talks.inStep.live,
      SessionM.bind_of_ok (exchange_of_ok running grants.outcome),
      Answer.values_eq_reading answer]
    cases read : Answer.reading (o.values t.deeds t.scopes) names with
    | ok values =>
      exact ih next known.2 _
    | error fault =>
      -- a numeral that is too long is a limit on this side, and the dialogue goes on
      rw [SessionM.bind_of_error (interpret_of_goesOn (Answer.endsDialogue_of_reading read) _)]
      exact ⟨rfl, next⟩

/-- Values of variables. -/
theorem determined_model (keepable : KeepableBy deadline) (vars : Option Operand) :
    Determined o deadline t (model vars) := by
  by_cases sat : t.status = some .sat
  · have asked {names : List String} (known : ∀ x ∈ names, x ∈ t.scopes.live.names)
        (defaults : Model) : Determined o deadline t (answers names defaults) := by
      let read := readRequests (o.values t.deeds t.scopes) [] (requests names)
      refine Determined.report
        ⟨(read.mapError SessionError.fault).mapError SessionError.kind, t, fun s talks => ?_⟩ _
      have known : ∀ x ∈ (requests names).flatten, x ∈ t.scopes.live.names := by
        rwa [flatten_requests]
      obtain ⟨outcome, next⟩ := talks.askValues keepable known []
      exact ⟨congrArg (Except.mapError SessionError.kind) outcome, next⟩
    have same {s : Session} (talks : s.Talks o deadline t) :
        s.declared = t.scopes.live ∧ ∃ c, s.phase = .running c ∧ s.status = some .sat := by
      obtain ⟨c, running, -⟩ := talks.solver
      exact ⟨talks.inStep.live.symm, c, running, talks.status.trans sat⟩
    cases vars with
    | none =>
      refine (asked (fun _ live => live) []).congr fun s talks => ?_
      obtain ⟨declared, c, running, found⟩ := same talks
      rw [model_of_sat running found, declared]
    | some operand =>
      cases collected : Expr.collect operand with
      | error cause =>
        refine .of_error (.build cause) fun s talks => ?_
        obtain ⟨-, c, running, found⟩ := same talks
        rw [model_of_sat running found]
        simp only [collected]
      | ok es =>
        cases parts : partitionVariables t.scopes.live es with
        | error e =>
          refine .of_error e fun s talks => ?_
          obtain ⟨declared, c, running, found⟩ := same talks
          rw [model_of_sat running found]
          simp only [collected, declared, parts]
        | ok parts' =>
          obtain ⟨names, defaults⟩ := parts'
          refine (asked (mem_of_partitionVariables parts) defaults).congr fun s talks => ?_
          obtain ⟨declared, c, running, found⟩ := same talks
          rw [model_of_sat running found]
          simp only [collected, declared, parts]
  · refine .of_error .noModel fun s talks => ?_
    obtain ⟨c, running, -⟩ := talks.solver
    unfold Session.model
    rw [SessionM.bind_of_ok (requireRunning_of_running running _),
      SessionM.bind_of_ok (SessionM.get_apply s), talks.status, if_neg (mt beq_iff_eq.1 sat)]
    rfl

/-! ## Opening -/

/-- A new session, with a solver of either kind. -/
def IsNew (backend : Backend) (options : SessionOptions) (s : Session) : Prop :=
  ∃ launch, (launch = .inProcess ∨ launch = .process backend) ∧ s = { launch, options }

variable {backend : Backend} {options : SessionOptions} {host : Host}

/-- A solver is started that has been told nothing. -/
theorem IsNew.start (new : s.IsNew backend options) (serves : host.Serves o backend options)
    (keepable : KeepableBy options.deadline) :
    ∃ c trace, start host s = (.ok (), { s with phase := .running c, trace := trace }) ∧
      c.Tells o options.deadline ∧ c.deeds = [] := by
  obtain ⟨launch, rfl | rfl, rfl⟩ := new
  · obtain ⟨b, es, started, binding, limit, told⟩ := 
      Channel.exists_start host.binding keepable.canKeep
    refine ⟨.inProcess b, History.empty.addAll es, ?_,
      ⟨binding ▸ serves.binding, limit ▸ keepable⟩, told⟩
    unfold Session.start
    simp only [started]
  · refine ⟨.process (host.started backend),
      History.empty.add (.spawned (backend.argv ++ options.extraArgs)), ?_,
      ⟨serves.process, rfl, rfl, .nil rfl rfl⟩, rfl⟩
    have found : host.world.canRun
        ((argv { launch := .process backend, options } backend).headD "") = true := serves.found
    unfold Session.start
    simp only [found, serves.starts]
    rfl

/-- The first words go through. -/
theorem greet_of_tells {c : Channel} (running : s.phase = .running c)
    (tells : c.Tells o deadline) :
    ∃ c' trace, greet s = (.ok (), { s with phase := .running c', trace := trace }) ∧
      c'.Tells o deadline ∧ c'.deeds = c.deeds := by
  obtain ⟨c₁, trace, sent, tells₁, deeds₁⟩ :=
    send_of_tells running tells .produceModels trivial
  have greeting : greet s = if s.options.logic.isEmpty then
      (.ok (), { s with phase := .running c₁, trace := trace })
    else send (Command.setLogic s.options.logic).text
      { s with phase := .running c₁, trace := trace } := by
    unfold greet
    rw [SessionM.bind_of_ok sent, SessionM.bind_of_ok (SessionM.get_apply _)]
    split <;> rfl
  rw [greeting]
  split
  · exact ⟨c₁, trace, rfl, tells₁, by rw [deeds₁]; exact List.append_nil _⟩
  · obtain ⟨c₂, trace₂, sent₂, tells₂, deeds₂⟩ :=
      send_of_tells (s := { s with phase := .running c₁, trace := trace }) rfl tells₁
        (.setLogic s.options.logic) trivial
    exact ⟨c₂, trace₂, sent₂, tells₂, by rw [deeds₂, deeds₁]; simp [Command.deed?]⟩

/-- **Opening a new session** begins a talk. -/
theorem IsNew.openOn (new : s.IsNew backend options) (serves : host.Serves o backend options)
    (keepable : KeepableBy options.deadline) :
    ∃ s', openOn host s = (.ok (), s') ∧ s'.Talks o options.deadline {} := by
  obtain ⟨c, trace, started, tells, told⟩ := new.start serves keepable
  obtain ⟨c', trace', greeted, tells', deeds⟩ :=
    greet_of_tells (s := { s with phase := .running c, trace := trace }) rfl tells
  obtain ⟨launch, -, rfl⟩ := new
  have opened : Session.openOn host { launch, options } =
      (.ok (), { launch, options, phase := .running c', trace := trace' }) := by
    unfold Session.openOn
    simp only [started, greeted]
  have leads := openOn_leads (s := { launch, options }) (stable_true options.deadline) rfl
    ⟨rfl, rfl, rfl⟩ fun _ s' (_ : Session.start host { launch, options } = (.ok (), s')) _ => trivial
  rw [opened] at leads
  exact ⟨_, opened, leads, ⟨c', rfl, tells', by rw [deeds, told]⟩, nofun, rfl⟩

/-! ## Stages -/

/-- Whether a session is at a stage. -/
def IsAt (o : Oracle) (backend : Backend) (options : SessionOptions) : Stage → Session → Prop
  | .created, s => s.IsNew backend options
  | .running t, s => s.Talks o options.deadline t
  | .closed declared scopes, s =>
    s.phase = .closed ∧ s.declared = declared ∧ s.scopes = scopes ∧ s.status = none

end Session

/-- What comes of an operation that goes through. -/
inductive Report where
  /-- Nothing but that it has. -/
  | done
  /-- The status that a check has found. -/
  | status (status : Status)
  /-- The values of variables. -/
  | model (model : Model)

namespace Operation

/-- An operation on a session, with what comes of it. -/
def perform : Operation → SessionM Report
  | check => Session.check >>= fun status => pure (.status status)
  | model vars => Session.model vars >>= fun model => pure (.model model)
  | op => op.run >>= fun _ => pure .done

variable {o : Oracle} {backend : Backend} {options : SessionOptions} {s s' : Session}
variable {op : Operation} {stage : Stage}

/-- What comes of an operation makes no difference to the session. -/
theorem forget_perform (op : Operation) (s : Session) :
    (op.perform >>= fun _ => pure ()) s = op.run s := by
  cases op with
  | check =>
    simp only [perform, run, SessionM.bind_apply]
    rcases Session.check s with ⟨_ | _, _⟩ <;> rfl
  | model vars =>
    simp only [perform, run, SessionM.bind_apply]
    rcases Session.model vars s with ⟨_ | _, _⟩ <;> rfl
  | openOn | assert | push | pop | close =>
    simp only [perform, SessionM.bind_apply]
    rcases run _ s with ⟨_ | _, _⟩ <;> rfl

theorem perform_of_idle (idle : s.phase.isRunning = false) (inner : op.IsInner) :
    ∃ operation, op.perform s = (.error (.notRunning operation s.name s.phase.word), s) := by
  cases op with
  | openOn | close => exact inner.elim
  | assert | push | pop =>
    obtain ⟨operation, same⟩ := Session.run_of_idle idle inner
    exact ⟨operation, SessionM.bind_of_error same _⟩
  | check | model =>
    exact ⟨_, SessionM.bind_of_error (Session.requireRunning_bind idle _) _⟩

theorem perform_of_opened (opened : s.phase ≠ .created) (host : Host) :
    (openOn host).perform s = (.error (.alreadyOpened s.phase.word), s) :=
  SessionM.bind_of_error (x := Session.openOn host) (Session.openOn_of_opened opened host) _

/-- **One operation**: what comes of it, and the stage after it, depend on the stage
before it. -/
theorem exists_stage (wellFormed : op.WellFormed)
    (served : ∀ host, op = .openOn host → host.Serves o backend options)
    (keepable : KeepableBy options.deadline) (stage : Stage) :
    ∃ result stage', ∀ s : Session, s.IsAt o backend options stage →
      (op.perform s).1.mapError SessionError.kind = result ∧
        (op.perform s).2.IsAt o backend options stage' := by
  cases stage with
  | created =>
    rcases op.isInner_or with inner | ⟨host, rfl⟩ | rfl
    · refine ⟨.error .sessionState, .created, fun s new => ?_⟩
      have idle : s.phase.isRunning = false := by
        obtain ⟨launch, -, rfl⟩ := new
        rfl
      obtain ⟨operation, refused⟩ := perform_of_idle idle inner
      rw [refused]
      exact ⟨rfl, new⟩
    · refine ⟨.ok .done, .running {}, fun s new => ?_⟩
      obtain ⟨s', opened, talks⟩ := Session.IsNew.openOn new (served host rfl) keepable
      have performed : (openOn host).perform s = (.ok .done, s') :=
        SessionM.bind_of_ok (x := Session.openOn host) opened _
      rw [performed]
      exact ⟨rfl, talks⟩
    · refine ⟨.ok .done, .closed [] [], fun s new => ?_⟩
      obtain ⟨launch, -, rfl⟩ := new
      exact ⟨rfl, rfl, rfl, rfl, rfl⟩
  | running t =>
    have goesOn (determined : Session.Determined o options.deadline t op.perform) :
        ∃ result stage', ∀ s : Session, s.IsAt o backend options (.running t) →
          (op.perform s).1.mapError SessionError.kind = result ∧
            (op.perform s).2.IsAt o backend options stage' := by
      obtain ⟨result, t', same⟩ := determined
      exact ⟨result, .running t', same⟩
    cases op with
    | openOn host =>
      refine ⟨.error .sessionState, .running t, fun s talks => ?_⟩
      obtain ⟨c, running, -⟩ := talks.solver
      rw [perform_of_opened fun created => by cases running.symm.trans created]
      exact ⟨rfl, talks⟩
    | close =>
      refine ⟨.ok .done, .closed t.scopes.live t.scopes.saved, fun s talks => ?_⟩
      obtain ⟨c, running, -⟩ := talks.solver
      have closed : s.close = { s with
          phase := .closed, status := none, trace := s.trace.addAll (c.release true) } := by
        rw [Session.close, running]
      show _ ∧ (s.close).IsAt o backend options _
      rw [closed]
      exact ⟨rfl, rfl, talks.inStep.live.symm, talks.inStep.saved.symm, rfl⟩
    | assert e =>
      obtain ⟨built, whole⟩ := wellFormed
      exact goesOn ((Session.determined_assert built whole).report fun _ => Report.done)
    | check => exact goesOn ((Session.determined_check keepable).report Report.status)
    | model vars => exact goesOn ((Session.determined_model keepable vars).report Report.model)
    | push => exact goesOn (Session.determined_push.report fun _ => Report.done)
    | pop => exact goesOn (Session.determined_pop.report fun _ => Report.done)
  | closed declared scopes =>
    rcases op.isInner_or with inner | ⟨host, rfl⟩ | rfl
    · refine ⟨.error .sessionState, .closed declared scopes, fun s at_ => ?_⟩
      obtain ⟨operation, refused⟩ := perform_of_idle (by rw [at_.1]; rfl) inner
      rw [refused]
      exact ⟨rfl, at_⟩
    · refine ⟨.error .sessionState, .closed declared scopes, fun s at_ => ?_⟩
      rw [perform_of_opened fun created => by cases at_.1.symm.trans created]
      exact ⟨rfl, at_⟩
    · refine ⟨.ok .done, .closed declared scopes, fun s at_ => ?_⟩
      show _ ∧ (s.close).IsAt o backend options _
      rw [Session.close_of_closed at_.1]
      exact ⟨rfl, at_⟩

end Operation

/-! ## Runs -/

/-- The scopes that are open at a solver, with what is declared and asserted in
them, as the solver has been told. -/
def Channel.told : Channel → Option Scopes
  | process p => replay p.history.commands
  | inProcess b => replayCalls b.history.toList

/-- **What can be observed of an operation**: what comes of it, and after it the
state of the session, its tables, what the last check found, and the scopes at the
solver of a running session. -/
structure Observation where
  /-- What has come of the operation. -/
  outcome : Except ErrorKind Report
  /-- The word for the phase after it. -/
  phase : String
  /-- The constants declared. -/
  declared : SortTable
  /-- The constants saved for the open scopes. -/
  scopes : List SortTable
  /-- What the last check found. -/
  status : Option Status
  /-- The scopes at the solver. -/
  told : Option Scopes

/-- What can be observed of a session after an operation. -/
def Session.observed (s : Session) (outcome : Except ErrorKind Report) : Observation where
  outcome := outcome
  phase := s.phase.word
  declared := s.declared
  scopes := s.scopes
  status := s.status
  told :=
    match s.phase with
    | .running c => c.told
    | _ => none

/-- What can be observed at a stage. -/
def Stage.observed (outcome : Except ErrorKind Report) : Stage → Observation
  | created =>
    { outcome, phase := "created", declared := [], scopes := [], status := none, told := none }
  | running t =>
    { outcome, phase := "running", declared := t.scopes.live, scopes := t.scopes.saved
      status := t.status, told := some t.scopes }
  | closed declared scopes =>
    { outcome, phase := "closed", declared, scopes, status := none, told := none }

namespace Operation

/-- What can be observed of some operations, one after the other. -/
def observations (s : Session) : List Operation → List Observation
  | [] => []
  | op :: ops =>
    let (outcome, s') := op.perform s
    s'.observed (outcome.mapError SessionError.kind) :: observations s' ops

variable {o : Oracle} {backend : Backend} {options : SessionOptions} {s s' : Session}

/-- What can be observed of a session is what can be observed at its stage. -/
theorem observed_of_isAt {stage : Stage} (h : s.IsAt o backend options stage)
    (outcome : Except ErrorKind Report) : s.observed outcome = stage.observed outcome := by
  unfold Session.observed
  cases stage with
  | created =>
    obtain ⟨launch, -, rfl⟩ := h
    rfl
  | running t =>
    obtain ⟨c, running, heard, -⟩ := h.inStep.heard
    have told : c.told = some t.scopes := by
      cases c with
      | process p =>
        rw [← t.scopes.declaring_nil]
        exact heard
      | inProcess b => exact heard.replayed
    rw [running, h.status, ← h.inStep.live, ← h.inStep.saved]
    simp only [told]
    rfl
  | closed declared scopes =>
    obtain ⟨closed, rfl, rfl, status⟩ := h
    rw [closed, status]
    rfl

/-- While it is running, a session believes what the solver has been told. -/
theorem told_of_running {stage : Stage} {outcome : Except ErrorKind Report}
    (running : (stage.observed outcome).phase = "running") :
    ∃ scopes, (stage.observed outcome).told = some scopes ∧
      scopes.live = (stage.observed outcome).declared ∧
      scopes.saved = (stage.observed outcome).scopes := by
  cases stage with
  | running t => exact ⟨t.scopes, rfl, rfl, rfl⟩
  | created => exact absurd running (show "created" ≠ "running" by decide)
  | closed => exact absurd running (show "closed" ≠ "running" by decide)

/-- **A run**: sessions that are at one stage go on alike. -/
theorem observations_of_isAt {ops : List Operation} (wellFormed : ∀ op ∈ ops, op.WellFormed)
    (served : ∀ host, openOn host ∈ ops → host.Serves o backend options)
    (keepable : KeepableBy options.deadline) (stage : Stage) :
    ∃ stages : List (Except ErrorKind Report × Stage), ∀ s : Session,
      s.IsAt o backend options stage →
        observations s ops = stages.map fun st => st.2.observed st.1 := by
  induction ops generalizing stage with
  | nil => exact ⟨[], fun _ _ => rfl⟩
  | cons op ops ih =>
    obtain ⟨outcome, stage', step⟩ := exists_stage (wellFormed op List.mem_cons_self)
      (fun host same => served host (same ▸ List.mem_cons_self)) keepable stage
    obtain ⟨stages, rest⟩ := ih (fun op' h => wellFormed op' (List.mem_cons_of_mem _ h))
      (fun host h => served host (List.mem_cons_of_mem _ h)) stage'
    refine ⟨(outcome, stage') :: stages, fun s at_ => ?_⟩
    obtain ⟨same, next⟩ := step s at_
    have head : (op.perform s).2.observed ((op.perform s).1.mapError SessionError.kind) =
        stage'.observed outcome := by
      rw [same, observed_of_isAt next]
    exact congrArg₂ List.cons head (rest _ next)

/-- **Solvers of both kinds are interchangeable.** When the solvers of two sessions,
one in-process and one a process, answer from one oracle, take every command and do
not run out of time, the same operations come to the same in both: the same results
and the same kinds of errors, the same states and the same tables, and the solvers
have been told the same scopes, in which the same terms are asserted and the same
constants are declared at the same sorts, those that the session believes to be. -/
theorem observations_interchange (o : Oracle) (backend : Backend) (options : SessionOptions)
    (keepable : KeepableBy options.deadline) (ops : List Operation)
    (wellFormed : ∀ op ∈ ops, op.WellFormed)
    (served : ∀ host, openOn host ∈ ops → host.Serves o backend options) :
    observations { launch := .inProcess, options } ops =
        observations { launch := .process backend, options } ops ∧
      ∀ ob ∈ observations { launch := .inProcess, options } ops, ob.phase = "running" →
        ∃ scopes, ob.told = some scopes ∧ scopes.live = ob.declared ∧ scopes.saved = ob.scopes := by
  obtain ⟨stages, same⟩ := observations_of_isAt wellFormed served keepable .created
  have inProcess := same { launch := .inProcess, options } ⟨.inProcess, .inl rfl, rfl⟩
  have process := same { launch := .process backend, options } ⟨.process backend, .inr rfl, rfl⟩
  refine ⟨inProcess.trans process.symm, fun ob here running => ?_⟩
  rw [inProcess] at here
  obtain ⟨⟨outcome, stage⟩, -, rfl⟩ := List.mem_map.1 here
  exact told_of_running running

/-- An oracle that finds the assertions satisfiable as long as there are at most
two of them in scope, and gives the constants of each sort one value. -/
def countingOracle : Oracle where
  status _ scopes := if scopes.asserted.length ≤ 2 then .sat else .unsat
  values _ scopes x := if scopes.live.sortOf? x = some .int then .int (-3) else .bool true

/-- A host with solvers that answer from the oracle. -/
def countingHost : Host where
  world := { executables := ["z3"] }
  behaviour := countingOracle.behaviour
  binding := countingOracle.binding

/-- A session in which a name that has to be quoted is declared in a scope, and
again at another sort when the scope has been closed. -/
def requoting : List Operation :=
  [.openOn countingHost, .push, .assert (.var "a b" (some .bool)), .check, .model none, .pop, .pop,
   .model none, .assert (.node ⟨.le, "le_a b_a b", none, none, none⟩
     [.var "a b" none, .var "a b" none]), .check, .model none, .close, .check]

theorem observations_requoting :
    let backend : Backend := ⟨"z3", ["z3"]⟩
    let options : SessionOptions := { deadline := some (.whole 2), logic := "QF_LIA" }
    observations { launch := .inProcess, options } requoting =
        observations { launch := .process backend, options } requoting ∧
      ∀ ob ∈ observations { launch := .inProcess, options } requoting, ob.phase = "running" →
        ∃ scopes, ob.told = some scopes ∧ scopes.live = ob.declared ∧ scopes.saved = ob.scopes := by
  intro backend options
  have keepable : KeepableBy options.deadline := by
    rintro _ ⟨⟩
    exact ⟨rfl, by decide +kernel⟩
  refine observations_interchange countingOracle backend options keepable requoting ?_
    fun host here => ?_
  · have bool : (Expr.var "a b" (some .bool)).Built := .var _ _ _ _
    have untyped : (Expr.var "a b" none).Built := .var _ _ _ _
    have made : Expr.combineExprs .le [.var "a b" none, .var "a b" none] =
      .ok (.node ⟨.le, "le_a b_a b", none, none, none⟩ [.var "a b" none, .var "a b" none]) := rfl
    have atMost := Expr.Built.of_combineExprs made rfl fun c hc => by
      rcases List.mem_pair.1 hc with rfl | rfl <;> exact untyped
    simp only [requoting, List.forall_mem_cons, WellFormed, List.not_mem_nil]
    exact ⟨trivial, trivial, ⟨bool, by decide⟩, trivial, trivial, trivial, trivial, trivial,
      ⟨atMost, by decide⟩, trivial, trivial, trivial, trivial, fun _ here => here.elim⟩
  · simp only [requoting, List.mem_cons, reduceCtorEq, openOn.injEq, List.not_mem_nil, or_false]
      at here
    subst here
    exact ⟨by decide +kernel, rfl, countingOracle.tells_behaviour _ _,
      countingOracle.tells_binding⟩

/-- **A deadline for one kind of solver only**: `1e308` seconds are no number of
milliseconds, so an in-process solver cannot be opened with them, and a process is and
answers from the oracle. -/
theorem observations_differ :
    let backend : Backend := ⟨"z3", ["z3"]⟩
    let deadline : Seconds := .fraction (.ofInt (.ofNat (Nat.pow 10 308)))
    let options : SessionOptions := { deadline := some deadline }
    let ops := [.openOn countingHost, .check]
    countingHost.Serves countingOracle backend options ∧
      (observations { launch := .inProcess, options } ops).map (fun ob => (ob.phase, ob.status)) =
        [("created", none), ("created", none)] ∧
      (observations { launch := .process backend, options } ops).map
        (fun ob => (ob.phase, ob.status)) = [("running", none), ("running", some .sat)] ∧
      observations { launch := .inProcess, options } ops ≠
        observations { launch := .process backend, options } ops := by
  intro backend deadline options ops
  have serves : countingHost.Serves countingOracle backend options :=
    ⟨by decide +kernel, rfl, countingOracle.tells_behaviour _ _, countingOracle.tells_binding⟩
  have inProcess : (observations { launch := .inProcess, options } ops).map
      (fun ob => (ob.phase, ob.status)) = [("created", none), ("created", none)] := by
    decide +kernel
  have process : (observations { launch := .process backend, options } ops).map
      (fun ob => (ob.phase, ob.status)) = [("running", none), ("running", some .sat)] := by
    decide +kernel
  refine ⟨serves, inProcess, process, fun same => ?_⟩
  rw [same, process] at inProcess
  exact absurd inProcess (by decide)

example : (observations { launch := .process ⟨"z3", ["z3"]⟩, options := {} } requoting).map
    (fun ob => (ob.phase, ob.declared, ob.status)) =
    [("running", [], none), ("running", [], none), ("running", [("a b", .bool)], none),
     ("running", [("a b", .bool)], some .sat), ("running", [("a b", .bool)], some .sat),
     ("running", [], none), ("running", [], none), ("running", [], none),
     ("running", [("a b", .int)], none), ("running", [("a b", .int)], some .sat),
     ("running", [("a b", .int)], some .sat), ("closed", [("a b", .int)], none),
     ("closed", [("a b", .int)], none)] := by
  decide +kernel

end Operation

end SmtDialogue
