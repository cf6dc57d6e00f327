import SmtDialogue.Proofs.Interchange
import SmtDialogue.Proofs.Questions
import SmtDialogue.Proofs.Values

/-!
# What is asked for is what is reported

The values of many variables are not asked for at once. The names are cut into
requests of limited size, the answers are read one by one and put together, and the
default values of undeclared variables come on top. When the solver recites one
valuation (`Channel.Recites`), none of this can be seen in the result: the model has
the requested names and no others, whatever their number, with the values of the
valuation and the default values, and the requests one after the other are for the
declared ones of them (`Session.Retrieved`).

Solvers of both kinds that answer from an oracle recite (`Channel.Tells.recites`).
-/

namespace SmtDialogue

open Smt

/-! ## Models put together -/

namespace Model

variable {ρ : Valuation}

/-- The models of some requests, each on top of those before. -/
def gathering (ρ : Valuation) (found : Model) (requests : List (List String)) : Model :=
  requests.foldl (fun found names => found.update (.giving ρ names)) found

/-- **Models put together** give the values of all requests. -/
theorem gives_gathering {found : Model} {done : List String} (gives : found.Gives ρ done)
    (requests : List (List String)) :
    (gathering ρ found requests).Gives ρ (done ++ requests.flatten) := by
  induction requests generalizing found done with
  | nil =>
    rw [List.flatten_nil, List.append_nil]
    exact gives
  | cons names requests ih =>
    rw [List.flatten_cons, ← List.append_assoc]
    exact ih (gives.update (gives_giving ρ names) (once_giving ρ names))

theorem once_gathering {found : Model} (once : found.Once) (requests : List (List String)) :
    (gathering ρ found requests).Once := by
  induction requests generalizing found with
  | nil => exact once
  | cons names requests ih => exact ih (once.update (.giving ρ names))

end Model

namespace Answer

/-- An answer with the values of some names, each of them short enough and in any order,
is read as these values. -/
theorem values_of_pairs {ρ : Valuation} {solver response : String} {names : List String}
    {items : List Item} (answer : Item.parse response = .ok [.list items])
    (same : ∀ item, item ∈ items ↔ item ∈ pairs ρ names)
    (short : ∀ x ∈ names, (ρ x).isWritable = true) :
    values solver response names = .ok (.giving ρ names) := by
  have entry {x : String} (hx : x ∈ names) :
      IsEntry (.list [.symbol x, (literalForm (ρ x)).item]) x (ρ x) :=
    item_entryForm ρ x ▸ isEntry_entryForm (short x hx)
  refine values_of_entries answer (fun item here => ?_) fun x hx => ?_
  · obtain ⟨x, hx, rfl⟩ := List.mem_map.1 ((same item).1 here)
    exact ⟨x, ρ x, entry hx, fun _ => rfl⟩
  · exact ⟨_, (same _).2 (List.mem_map_of_mem hx), ρ x, entry hx⟩

end Answer

/-! ## Solvers that recite a valuation -/

/-- Whether some names make a request: there are any, and they are those of declared
constants. -/
def SortTable.IsRequest (declared : SortTable) (names : List String) : Prop :=
  names ≠ [] ∧ ∀ x ∈ names, x ∈ declared.names

namespace Channel

variable {deadline : Option Seconds} {declared : SortTable} {ρ : Valuation} {c : Channel}

/-- The solver after some requests. -/
def afterRequests (deadline : Option Seconds) (declared : SortTable) (c : Channel)
    (asked : List (List String)) : Channel :=
  asked.foldl (fun c names => (c.askValues deadline declared names).state) c

/-- **A solver recites a valuation**: it answers every request with one entry for each
requested name, in any order, and takes the values from the valuation, whatever has been
requested before. -/
def Recites (deadline : Option Seconds) (declared : SortTable) (ρ : Valuation) (c : Channel) :
    Prop :=
  ∀ asked names, (∀ request ∈ asked, declared.IsRequest request) → declared.IsRequest names →
    ∃ response items,
      ((c.afterRequests deadline declared asked).askValues deadline declared names).outcome =
        .ok response ∧
      Item.parse response = .ok [.list items] ∧ ∀ item, item ∈ items ↔ item ∈ Answer.pairs ρ names

/-- The next request is answered. -/
theorem Recites.answer (recites : c.Recites deadline declared ρ) {names : List String}
    (request : declared.IsRequest names) : ∃ response items,
      (c.askValues deadline declared names).outcome = .ok response ∧
      Item.parse response = .ok [.list items] ∧
      ∀ item, item ∈ items ↔ item ∈ Answer.pairs ρ names :=
  recites [] names nofun request

/-- After a request the solver recites as before. -/
theorem Recites.next (recites : c.Recites deadline declared ρ) {names : List String}
    (request : declared.IsRequest names) :
    (c.askValues deadline declared names).state.Recites deadline declared ρ :=
  fun asked more each last =>
    recites (names :: asked) more (List.forall_mem_cons.2 ⟨request, each⟩) last

variable {o : Oracle} {scopes : Scopes}

/-- **A solver that answers from an oracle recites** the values that the oracle gives to
the constants, as nothing is done by asking for them. -/
theorem Tells.recites (tells : c.Tells o deadline) (heard : c.Heard scopes [])
    (keepable : KeepableBy deadline) (writable : ∀ x ∈ scopes.live.names, isWritable x = true)
    (whole : ∀ x ∈ scopes.live.names, Text.BreakFree x) :
    c.Recites deadline scopes.live (o.values c.deeds scopes) := by
  intro asked
  induction asked generalizing c with
  | nil =>
    intro names _ request
    obtain ⟨response, grants, answer⟩ := tells.askValues heard keepable request.2
      (fun x hx => writable x (request.2 x hx)) fun x hx => whole x (request.2 x hx)
    exact ⟨response, _, grants.outcome, answer, fun _ => Iff.rfl⟩
  | cons first asked ih =>
    intro names each request
    obtain ⟨⟨-, known⟩, each⟩ := List.forall_mem_cons.1 each
    have reachable : ∀ x ∈ first, isWritable x = true := fun x hx => writable x (known x hx)
    obtain ⟨response, grants, -⟩ := tells.askValues heard keepable known reachable
      fun x hx => whole x (known x hx)
    have next := ih grants.tells
      (heard_askValues heard reachable known deadline scopes.live) names each request
    rwa [grants.done, List.append_nil] at next

end Channel

namespace Session

variable {s : Session} {c : Channel} {ρ : Valuation}

/-! ## Requests -/

/-- The requests for declared constants are requests, of limited size. -/
theorem isRequest_of_mem_requests {declared : SortTable} {names : List String}
    (known : ∀ x ∈ names, x ∈ declared.names) :
    ∀ request ∈ requests names, declared.IsRequest request ∧ request.length ≤ requestSize := by
  intro request here
  have size : 0 < requestSize := by decide
  obtain ⟨some, fits⟩ := length_of_mem_cutParts size (Nat.zero_add requestSize) request here
  refine ⟨⟨some, fun x hx => known x ?_⟩, fits⟩
  rw [← flatten_requests names]
  exact List.mem_flatten_of_mem here hx

example : (requests (List.replicate 101 "x")).map List.length = [50, 50, 1] := by decide

/-- **Asking a solver that recites** goes through, and the solver goes on reciting. -/
theorem askValues_of_recites (writable : ∀ x ∈ s.declared.names, isWritable x = true)
    (running : s.phase = .running c) (recites : c.Recites s.options.deadline s.declared ρ)
    {requests : List (List String)} (each : ∀ names ∈ requests, s.declared.IsRequest names)
    (short : ∀ x ∈ requests.flatten, (ρ x).isWritable = true) (found : Model) :
    ∃ c' events,
      askValues found requests s = (.ok (.gathering ρ found requests), s.saying c' events) ∧
      c'.isProcess = c.isProcess ∧ c'.Recites s.options.deadline s.declared ρ ∧
      commandsOf events = c.written (requests.map fun names => (Command.getValue names).text) := by
  induction requests generalizing s c found with
  | nil => exact ⟨c, [], by rw [saying_nil running]; rfl, rfl, recites, c.written_nil.symm⟩
  | cons names requests ih =>
    obtain ⟨request, each⟩ := List.forall_mem_cons.1 each
    rw [List.flatten_cons, List.forall_mem_append] at short
    obtain ⟨response, items, answered, parsed, same⟩ := recites.answer request
    have utters := c.utters_askValues s.options.deadline s.declared names
    let reply := c.askValues s.options.deadline s.declared names
    obtain ⟨c', events, rest, kind, still, said⟩ := ih (s := s.saying reply.state reply.events)
      writable rfl (recites.next request) each short.2 (found.update (.giving ρ names))
    refine ⟨c', reply.events ++ events, ?_, kind.trans utters.kind, still, ?_⟩
    · unfold askValues
      rw [SessionM.bind_of_ok (SessionM.get_apply s),
        getValueOf_of_writable fun x hx => writable x (request.2 x hx),
        SessionM.bind_of_ok (written_ok _ s), SessionM.bind_of_ok (exchange_of_ok running answered),
        Answer.values_of_pairs parsed same short.1, ← saying_saying]
      exact rest
    · rw [commandsOf_append, utters.all _ answered, said, Channel.written_congr utters.kind,
        ← c.written_append]
      rfl

/-! ## Models -/

/-- The names of the variables that are given, or of all declared constants when none
are. -/
def requested (declared : SortTable) (vs : Option (List Expr)) : List String :=
  vs.elim declared.names fun vs => vs.map Expr.name

/-- Variables are parted into those that are asked for and those that are not. -/
theorem exists_partitionVariables (declared : SortTable) {vs : List Expr}
    (vars : ∀ v ∈ vs, v.isVariable = true) :
    ∃ parts, partitionVariables declared vs = .ok parts := by
  induction vs with
  | nil => exact ⟨_, rfl⟩
  | cons v vs ih =>
    obtain ⟨var, vars⟩ := List.forall_mem_cons.1 vars
    obtain ⟨⟨names, defaults⟩, rest⟩ := ih vars
    exact ⟨_, partitionVariables_cons.2 ⟨var, names, defaults, rest, rfl⟩⟩

/-- **What a model is made of**: the values of the declared ones of the requested names,
on top of which come the default values of the others. They depend on the table of the
session and on nothing else of it. -/
theorem exists_answers (declared : SortTable) {vars : Option Operand} {vs : Option (List Expr)}
    (collected : vars.mapM Expr.collect = .ok vs) (each : ∀ v ∈ vs.getD [], v.isVariable = true) :
    ∃ defaults,
      (∀ (s : Session) (c : Channel), s.phase = .running c → s.status = some .sat →
        s.declared = declared → Session.model vars s =
          answers ((requested declared vs).filter declared.contains) defaults s) ∧
      defaults.Once ∧ ∀ x, defaults.valueOf? x = if declared.contains x then none
        else ((vs.getD []).reverse.find? (·.name == x)).map defaultValue := by
  cases vars with
  | none =>
    cases collected
    have all : declared.names.filter declared.contains = declared.names :=
      List.filter_eq_self.2 fun x hx => SortTable.contains_iff.2 hx
    refine ⟨[], ?_, List.nodup_nil, fun x => by simp [Model.valueOf?]⟩
    rintro s c running sat rfl
    rw [model_of_sat running sat]
    show answers _ _ s = answers (s.declared.names.filter s.declared.contains) _ s
    rw [all]
  | some operand =>
    cases found : Expr.collect operand with
    | error cause =>
      rw [Option.mapM_some, found] at collected
      cases collected
    | ok es =>
      rw [Option.mapM_some, found] at collected
      cases collected
      obtain ⟨⟨names, defaults⟩, parts⟩ := exists_partitionVariables declared each
      obtain ⟨rfl, once, defaultOf⟩ := partitionVariables_spec parts
      refine ⟨defaults, ?_, once, defaultOf⟩
      rintro s c running sat rfl
      rw [Option.getD_some] at parts
      rw [model_of_sat running sat]
      simp only [found, parts]
      rfl

/-- **Answers of a solver that recites**, with default values on top. -/
theorem answers_of_recites (writable : ∀ x ∈ s.declared.names, isWritable x = true)
    (running : s.phase = .running c) (recites : c.Recites s.options.deadline s.declared ρ)
    {names : List String} (known : ∀ x ∈ names, x ∈ s.declared.names)
    (short : ∀ x ∈ names, (ρ x).isWritable = true) (defaults : Model) :
    ∃ c' events,
      answers names defaults s =
        (.ok ((Model.gathering ρ [] (requests names)).update defaults), s.saying c' events) ∧
      c'.Recites s.options.deadline s.declared ρ ∧
      commandsOf events =
        c.written ((requests names).map fun part => (Command.getValue part).text) := by
  have readable : ∀ x ∈ (requests names).flatten, (ρ x).isWritable = true := by
    rwa [flatten_requests]
  obtain ⟨c', events, asked, -, still, said⟩ := askValues_of_recites writable running recites
    (fun request here => (isRequest_of_mem_requests known request here).1) readable []
  exact ⟨c', events, SessionM.bind_of_ok asked _, still, said⟩

/-- **What a session retrieves** from a solver that recites a valuation, when the values
of variables are asked for, with a model as the result: exactly the requested names, and
a session that is as it was but for what has been said. -/
structure Retrieved (s : Session) (c : Channel) (ρ : Valuation) (vars : Option Operand)
    (vs : Option (List Expr)) (m : Model) (c' : Channel) (events : List Event) : Prop where
  /-- The model is the result, and the dialogue goes on. -/
  result : Session.model vars s = (.ok m, s.saying c' events)
  /-- Each name has one value. -/
  once : m.Once
  /-- The names are those that have been requested. -/
  names : ∀ x, x ∈ m.map Prod.fst ↔ x ∈ requested s.declared vs
  /-- A declared one has the value of the valuation. -/
  known : ∀ x ∈ requested s.declared vs, x ∈ s.declared.names → m.valueOf? x = some (ρ x)
  /-- An undeclared one has a default value. The last one of several variables of a name
  counts. -/
  free : ∀ before v after, vs = some (before ++ v :: after) → v.name ∉ s.declared.names →
    (∀ u ∈ after, u.name ≠ v.name) →
      m.valueOf? v.name = some (if v.sort = some .int then .int 0 else .bool false)
  /-- The declared ones have been asked for, in order and in requests of limited size. -/
  asked : ∃ parts : List (List String),
    parts.flatten = (requested s.declared vs).filter s.declared.contains ∧
    (∀ part ∈ parts, part ≠ [] ∧ part.length ≤ 50) ∧
    commandsOf events = c.written (parts.map fun names => (Command.getValue names).text)
  /-- When they are asked for again, the result is the same. -/
  again : (Session.model vars (s.saying c' events)).1 = .ok m

section Values

variable {declared : SortTable} {vs : Option (List Expr)} {defaults : Model} {x : String}

/-- What has been requested and not declared are given variables. -/
theorem mem_requested_iff (other : x ∉ declared.names) :
    x ∈ requested declared vs ↔ ∃ v ∈ vs.getD [], v.name = x := by
  cases vs with
  | none => exact iff_of_false other (by simp)
  | some vs => exact List.mem_map

/-- The values of the declared ones of the requested names with default values on top. -/
theorem valueOf?_retrieved (ρ : Valuation) (once : defaults.Once)
    (defaultOf : ∀ x, defaults.valueOf? x = if declared.contains x then none
      else ((vs.getD []).reverse.find? (·.name == x)).map defaultValue) (x : String) :
    ((Model.gathering ρ [] (requests ((requested declared vs).filter declared.contains))).update
        defaults).valueOf? x =
      if x ∈ declared.names then (if x ∈ requested declared vs then some (ρ x) else none)
      else ((vs.getD []).reverse.find? (·.name == x)).map defaultValue := by
  have gives := Model.gives_gathering (Model.gives_nil ρ)
    (requests ((requested declared vs).filter declared.contains))
  rw [flatten_requests, List.nil_append] at gives
  rw [Model.valueOf?_update once, gives, defaultOf]
  by_cases live : x ∈ declared.names
  · rw [if_pos (SortTable.contains_iff.2 live), if_pos live, Option.none_or]
    simp [List.mem_filter, SortTable.contains_iff.2 live]
  · have none : x ∉ (requested declared vs).filter declared.contains := fun here =>
      live (SortTable.contains_iff.1 (List.mem_filter.1 here).2)
    rw [if_neg (mt SortTable.contains_iff.1 live), if_neg live, if_neg none, Option.or_none]

/-- The last one of several variables of a name counts. -/
theorem find?_reverse_of_last {before after : List Expr} {v : Expr}
    (last : ∀ u ∈ after, u.name ≠ v.name) :
    (before ++ v :: after).reverse.find? (·.name == v.name) = some v := by
  have later : after.reverse.find? (·.name == v.name) = none :=
    List.find?_eq_none.2 fun u hu => mt beq_iff_eq.1 (last u (List.mem_reverse.1 hu))
  rw [List.reverse_append, List.reverse_cons, List.append_assoc, List.find?_append, later,
    Option.none_or]
  simp

theorem defaultValue_eq (v : Expr) :
    defaultValue v = if v.sort = some .int then .int 0 else .bool false := by
  simp only [defaultValue, beq_iff_eq]

end Values

/-- **A session whose solver recites** retrieves what is requested. -/
theorem exists_retrieved (writable : ∀ x ∈ s.declared.names, isWritable x = true)
    (running : s.phase = .running c) (sat : s.status = some .sat)
    (recites : c.Recites s.options.deadline s.declared ρ) {vars : Option Operand}
    {vs : Option (List Expr)} (collected : vars.mapM Expr.collect = .ok vs)
    (each : ∀ v ∈ vs.getD [], v.isVariable = true)
    (short : ∀ x ∈ requested s.declared vs, x ∈ s.declared.names → (ρ x).isWritable = true) :
    ∃ m c' events, s.Retrieved c ρ vars vs m c' events := by
  obtain ⟨defaults, asking, once, defaultOf⟩ := exists_answers s.declared collected each
  let names := (requested s.declared vs).filter s.declared.contains
  have asked {x : String} (hx : x ∈ names) :
      x ∈ requested s.declared vs ∧ x ∈ s.declared.names :=
    (List.mem_filter.1 hx).imp_right SortTable.contains_iff.1
  have known : ∀ x ∈ names, x ∈ s.declared.names := fun x hx => (asked hx).2
  have readable : ∀ x ∈ names, (ρ x).isWritable = true := fun x hx =>
    short x (asked hx).1 (asked hx).2
  obtain ⟨c', events, first, still, said⟩ :=
    answers_of_recites writable running recites known readable defaults
  obtain ⟨_, _, second, -⟩ :=
    answers_of_recites (s := s.saying c' events) writable rfl still known readable defaults
  have value := valueOf?_retrieved ρ once defaultOf
  have bare : Model.Once [] := List.nodup_nil
  refine ⟨_, c', events, (asking s c running sat rfl).trans first,
    (Model.once_gathering bare _).update defaults, fun x => ?_, fun x here live => ?_,
    ?_, ⟨requests names, flatten_requests names, fun part here => ?_, said⟩, ?_⟩
  · rw [← not_iff_not, ← Model.valueOf?_eq_none_iff, value]
    by_cases live : x ∈ s.declared.names
    · simp [live]
    · simp [live, mem_requested_iff live]
  · rw [value, if_pos live, if_pos here]
  · rintro before v after rfl other last
    rw [value, if_neg other, Option.getD_some, find?_reverse_of_last last, ← defaultValue_eq]
    rfl
  · obtain ⟨⟨some, -⟩, fits⟩ := isRequest_of_mem_requests known part here
    exact ⟨some, fits⟩
  · rw [asking (s.saying c' events) c' rfl sat rfl, second]

/-! ## Sessions with solvers that recite -/

/-- **In a talk with a solver that answers from an oracle** the solver recites the values
of the oracle. -/
theorem Talks.recites {o : Oracle} {deadline : Option Seconds} {t : Talk}
    (talks : s.Talks o deadline t) (keepable : KeepableBy deadline) :
    ∃ c, s.phase = .running c ∧
      c.Recites s.options.deadline s.declared (o.values t.deeds t.scopes) := by
  obtain ⟨c, running, tells, deeds⟩ := talks.solver
  obtain ⟨c₁, running₁, heard, -⟩ := talks.inStep.heard
  obtain rfl := Phase.running.inj (running.symm.trans running₁)
  refine ⟨c, running, ?_⟩
  rw [talks.inStep.deadline, ← talks.inStep.live, ← deeds]
  exact tells.recites heard keepable
    (fun x live => talks.inStep.writable x (talks.inStep.live ▸ live)) talks.whole

/-- When the values of the declared constants cannot be read, there is no model. -/
theorem Talks.model_of_unread {o : Oracle} {deadline : Option Seconds} {t : Talk} {fault : Fault}
    (talks : s.Talks o deadline t) (keepable : KeepableBy deadline) (sat : s.status = some .sat)
    (unread : readRequests (o.values t.deeds t.scopes) [] (requests s.declared.names) =
      .error fault) : (Session.model none s).1 = .error (.fault fault) := by
  have known : ∀ x ∈ (requests s.declared.names).flatten, x ∈ t.scopes.live.names := by
    rw [flatten_requests, talks.inStep.live]
    exact fun _ hx => hx
  obtain ⟨c, running, -⟩ := talks.solver
  obtain ⟨outcome, -⟩ := talks.askValues keepable known []
  rw [unread] at outcome
  have failed : Session.askValues [] (requests s.declared.names) s =
      (.error (.fault fault), (Session.askValues [] (requests s.declared.names) s).2) :=
    Prod.ext outcome rfl
  rw [model_of_sat running sat]
  exact congrArg Prod.fst (SessionM.bind_of_error failed _)

end Session

namespace Operation

variable {o : Oracle} {backend : Backend} {options : SessionOptions}

/-- Operations lead from one stage to another. -/
theorem exists_isAt_runAll {ops : List Operation} (wellFormed : ∀ op ∈ ops, op.WellFormed)
    (served : ∀ host, openOn host ∈ ops → host.Serves o backend options)
    (keepable : KeepableBy options.deadline) {stage : Stage} {s : Session}
    (at_ : s.IsAt o backend options stage) :
    ∃ stage', (runAll s ops).IsAt o backend options stage' := by
  induction ops generalizing stage s with
  | nil => exact ⟨stage, at_⟩
  | cons op ops ih =>
    obtain ⟨_, stage', step⟩ := exists_stage (wellFormed op List.mem_cons_self)
      (fun host same => served host (same ▸ List.mem_cons_self)) keepable stage
    have next : (op.run s).2.IsAt o backend options stage' := by
      rw [← forget_perform, SessionM.forget_apply]
      exact (step s at_).2
    exact ih (fun op' h => wellFormed op' (List.mem_cons_of_mem _ h))
      (fun host h => served host (List.mem_cons_of_mem _ h)) next

/-- A session that runs is in a talk. -/
theorem exists_talks_runAll {ops : List Operation} (wellFormed : ∀ op ∈ ops, op.WellFormed)
    (served : ∀ host, openOn host ∈ ops → host.Serves o backend options)
    (keepable : KeepableBy options.deadline) {s : Session} (new : s.IsNew backend options)
    (running : (runAll s ops).phase.isRunning = true) :
    ∃ t, (runAll s ops).Talks o options.deadline t := by
  obtain ⟨stage, at_⟩ := exists_isAt_runAll wellFormed served keepable
    (show s.IsAt o backend options .created from new)
  cases stage with
  | running t => exact ⟨t, at_⟩
  | created =>
    obtain ⟨launch, -, same⟩ := at_
    rw [same] at running
    cases running
  | closed declared scopes =>
    rw [at_.1] at running
    cases running

/-- **What is asked for is what is reported**, whatever a session has been through, by a
running one whose last check was satisfiable. When the solver recites a valuation whose
values for the requested constants are short enough, a model of any variables, or of all
declared constants, has exactly the requested names, with the values of the valuation and
default values for undeclared ones; the requests are for the declared ones, in order and
at most 50 at a time; and asking again gives the same. -/
theorem model_exactly_requested (launch : Launch) (options : SessionOptions)
    (ops : List Operation) {s : Session} (reached : s = runAll { launch, options } ops)
    {c : Channel} (running : s.phase = .running c) (sat : s.status = some .sat) {ρ : Valuation}
    (recites : c.Recites s.options.deadline s.declared ρ) {vars : Option Operand}
    {vs : Option (List Expr)} (collected : vars.mapM Expr.collect = .ok vs)
    (each : ∀ v ∈ vs.getD [], v.isVariable = true)
    (short : ∀ x ∈ Session.requested s.declared vs, x ∈ s.declared.names →
      (ρ x).isWritable = true) :
    ∃ m c' events, s.Retrieved c ρ vars vs m c' events := by
  subst reached
  exact Session.exists_retrieved ((Session.writable_new launch options).runAll ops).declared
    running sat recites collected each short

/-- An oracle that finds everything satisfiable and has one valuation in mind. -/
def valuing (ρ : Valuation) : Oracle where
  status _ _ := .sat
  values _ _ := ρ

/-- A host with solvers that answer from it. -/
def valuingHost (ρ : Valuation) : Host where
  world := { executables := ["z3"] }
  behaviour := (valuing ρ).behaviour
  binding := (valuing ρ).binding

/-- A session in which two constants are declared, one of each sort. -/
def assigning (ρ : Valuation) : List Operation :=
  [.openOn (valuingHost ρ), .assert (.var "p q" (some .bool)),
   .assert (.node ⟨.le, "le_n_n", none, none, none⟩ [.var "n" none, .var "n" none]), .check]

theorem exists_talks_assigning {ρ : Valuation}
    (running : (runAll { launch := .process ⟨"z3", ["z3"]⟩, options := {} }
      (assigning ρ)).phase.isRunning = true) :
    ∃ t, (runAll { launch := .process ⟨"z3", ["z3"]⟩, options := {} } (assigning ρ)).Talks
      (valuing ρ) none t := by
  have bool : (Expr.var "p q" (some .bool)).Built := .var _ _ _ _
  have atMost : (Expr.node ⟨.le, "le_n_n", none, none, none⟩ [.var "n" none, .var "n" none]).Built :=
    .of_variables .le [("n", none), ("n", none)] rfl
  have new : Session.IsNew ⟨"z3", ["z3"]⟩ {}
      { launch := .process ⟨"z3", ["z3"]⟩, options := {} } := ⟨_, .inr rfl, rfl⟩
  have keepable : KeepableBy ({} : SessionOptions).deadline := nofun
  refine exists_talks_runAll ?_ (fun host here => ?_) keepable new running
  · simp only [assigning, List.forall_mem_cons, WellFormed, List.not_mem_nil]
    exact ⟨trivial, ⟨bool, by decide⟩, ⟨atMost, by decide⟩, trivial, fun _ here => here.elim⟩
  · simp only [assigning, List.mem_cons, reduceCtorEq, openOn.injEq, List.not_mem_nil, or_false]
      at here
    subst here
    have found : ({ executables := ["z3"] } : World).canRun "z3" = true := by decide +kernel
    exact ⟨found, rfl, (valuing ρ).tells_behaviour _ _, (valuing ρ).tells_binding⟩

/-- Declared and undeclared variables, one of them twice. -/
theorem model_exactly_requested_mixed :
    let ρ : Valuation := fun x => if x = "n" then .int (-3) else .bool true
    let s := runAll { launch := .process ⟨"z3", ["z3"]⟩, options := {} } (assigning ρ)
    let vs : List Expr := [.var "n" (some .int), .var "u" (some .int), .var "p q" (some .bool),
      .var "w" (some .bool), .var "n" (some .int)]
    ∃ c, s.phase = .running c ∧ s.status = some .sat ∧
      c.Recites s.options.deadline s.declared ρ ∧
      ∃ m c' events, s.Retrieved c ρ (some (.list (vs.map .expr))) (some vs) m c' events := by
  intro ρ s vs
  obtain ⟨isRunning, sat⟩ : s.phase.isRunning = true ∧ s.status = some .sat := by decide +kernel
  obtain ⟨t, talks⟩ : ∃ t, s.Talks (valuing ρ) none t := exists_talks_assigning isRunning
  obtain ⟨c, running, recites⟩ := talks.recites nofun
  refine ⟨c, running, sat, recites, ?_⟩
  have short : ∀ x, (ρ x).isWritable = true := fun x => by
    by_cases n : x = "n"
    · rw [show ρ x = .int (-3) from if_pos n]
      exact Value.isWritable_int_iff.2 (by decide)
    · rw [show ρ x = .bool true from if_neg n]
      rfl
  have collected : (some (Operand.list (vs.map .expr))).mapM Expr.collect = .ok (some vs) := rfl
  have reached : s = runAll { launch := .process ⟨"z3", ["z3"]⟩, options := {} } (assigning ρ) := rfl
  exact model_exactly_requested _ _ _ reached running sat recites collected (by decide)
    fun x _ _ => short x

/-- **A value with too many digits is not reported**, and no other value is: the model
of such a session is an error. -/
theorem model_none_of_power :
    let ρ : Valuation := fun x =>
      if x = "n" then .int (Nat.pow 10 Text.longestNumeral) else .bool true
    let s := runAll { launch := .process ⟨"z3", ["z3"]⟩, options := {} } (assigning ρ)
    ∃ c, s.phase = .running c ∧ s.status = some .sat ∧
      c.Recites s.options.deadline s.declared ρ ∧
      (Session.model none s).1 = .error (.fault (.numeralTooLong 4301)) := by
  intro ρ s
  obtain ⟨isRunning, sat, declared⟩ : s.phase.isRunning = true ∧ s.status = some .sat ∧
      s.declared.names = ["p q", "n"] := by decide +kernel
  obtain ⟨t, talks⟩ : ∃ t, s.Talks (valuing ρ) none t := exists_talks_assigning isRunning
  obtain ⟨c, running, recites⟩ := talks.recites nofun
  refine ⟨c, running, sat, recites, ?_⟩
  have long : Answer.value (literalForm (ρ "n")).item = .error (.numeralTooLong 4301) := by
    show Answer.value (literalForm (.int (Nat.pow 10 Text.longestNumeral))).item = _
    rw [Answer.value_literalForm_int, Int.natAbs_natCast, Answer.length_repr_pow (by decide),
      if_pos (Nat.lt_succ_self _)]
    rfl
  have unread : Answer.reading ρ ["p q", "n"] = .error (.numeralTooLong 4301) := by
    have first : Answer.value (literalForm (ρ "p q")).item = .ok (.bool true) :=
      Answer.value_literalForm_bool true
    unfold Answer.reading Answer.readValues
    rw [first, Outcome.bind_ok]
    unfold Answer.readValues
    rw [long]
    rfl
  refine talks.model_of_unread nofun sat ?_
  rw [declared]
  show (Answer.reading ρ ["p q", "n"] >>= fun values =>
    Session.readRequests ρ (Model.update [] values) []) = _
  rw [unread]
  rfl

end Operation

end SmtDialogue
