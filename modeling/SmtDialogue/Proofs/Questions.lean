import SmtDialogue.Proofs.Constraints

/-!
# What a session learns from a sound solver

A check that succeeds is true of what has been asserted, and after *satisfiable*
the values that are asked for are those of one model. The model of some variables
takes the values of declared constants from the solver and makes up those of the
others: zero or false, by the sort for which a variable was made. Constraints do
not depend on variables that have not been declared, so the model is that of a
valuation under which all constraints hold (`InStep.model_of_ok`).
-/

namespace SmtDialogue

open Smt

/-- What has come of two operations in a row. -/
theorem SessionM.bind_eq_ok {α β : Type} {x : SessionM α} {f : α → SessionM β} {s s' : Session}
    {b : β} (h : (x >>= f) s = (.ok b, s')) : ∃ a s₁, x s = (.ok a, s₁) ∧ f a s₁ = (.ok b, s') := by
  rw [SessionM.bind_apply] at h
  rcases hx : x s with ⟨_ | a, s₁⟩
  · rw [hx] at h
    cases h
  · rw [hx] at h
    exact ⟨a, s₁, rfl, h⟩

namespace Session

variable {s s' : Session} {α : Type} {scopes : Scopes} {deadline : Option Seconds}
variable {notes : List (List Expr)} {ρ : Valuation}

theorem giveUp_ne_ok {fault : Fault} {a : α} : giveUp fault s ≠ (.ok a, s') := nofun

/-- What has come of an exchange. -/
theorem exchange_eq_ok {c : Channel} (running : s.phase = .running c)
    {act : Channel → Reply Channel α} {a : α} (h : exchange act s = (.ok a, s')) :
    (act c).outcome = .ok a ∧ s' = s.after (act c) := by
  cases outcome : (act c).outcome with
  | ok b =>
    rw [exchange_of_ok running outcome] at h
    cases h
    exact ⟨rfl, rfl⟩
  | error fault =>
    rw [exchange_of_error running outcome] at h
    exact absurd h giveUp_ne_ok

theorem interpret_eq_ok {answer : Except Fault α} {a : α} (h : interpret answer s = (.ok a, s')) :
    answer = .ok a ∧ s' = s := by
  cases answer with
  | ok b =>
    cases h
    exact ⟨rfl, rfl⟩
  | error fault => exact absurd h giveUp_ne_ok

/-- **The solver of a session has a valuation in mind.** -/
def HasInMind (ρ : Valuation) (s : Session) : Prop :=
  ∃ c, s.phase = .running c ∧ c.HasInMind s.declared ρ

/-- **A check of a session with a sound solver** is true of what has been
asserted. -/
theorem InStep.check_of_ok (h : s.InStep deadline (Channel.Sound deadline) scopes) {status : Status}
    (ok : Session.check s = (.ok status, s')) :
    s'.InStep deadline (Channel.Sound deadline) scopes ∧ s'.status = some status ∧
      (status = .sat → ∃ ρ, scopes.Models ρ ∧ s'.HasInMind ρ) ∧
      (status = .unsat → ∀ ρ, ¬ scopes.Models ρ) := by
  have next := h.check (Channel.stable_sound deadline)
  rw [ok] at next
  obtain ⟨_, rfl, next⟩ := next
  obtain ⟨c, running, heard, sound⟩ := h.heard
  unfold Session.check at ok
  rw [SessionM.bind_of_ok (requireRunning_of_running running _),
    SessionM.bind_of_ok (SessionM.get_apply s), h.deadline] at ok
  obtain ⟨response, s₁, exchanged, ok⟩ := SessionM.bind_eq_ok ok
  obtain ⟨answered, rfl⟩ := exchange_eq_ok running exchanged
  obtain ⟨found, s₂, interpreted, ok⟩ := SessionM.bind_eq_ok ok
  obtain ⟨said, rfl⟩ := interpret_eq_ok interpreted
  cases ok
  obtain ⟨sat, unsat⟩ := Channel.askStatus_of_sound sound heard answered
  have word := Answer.word_of_status said
  refine ⟨next, rfl, ?_, ?_⟩
  · rintro rfl
    obtain ⟨ρ, models, mind⟩ := sat word.symm
    exact ⟨ρ, models, _, rfl, h.live ▸ mind⟩
  · rintro rfl
    exact unsat word.symm

/-! ## Values of variables -/

/-- **The values of some constants** that a sound solver has in mind. -/
theorem InStep.askValues_of_ok {requests : List (List String)} {found m : Model} {s : Session}
    {done : List String} (h : s.InStep deadline (Channel.Sound deadline) scopes)
    (known : ∀ x ∈ requests.flatten, x ∈ s.declared.names) (mind : s.HasInMind ρ)
    (gives : found.Gives ρ done) (ok : Session.askValues found requests s = (.ok m, s')) :
    m.Gives ρ (done ++ requests.flatten) := by
  induction requests generalizing found done s with
  | nil =>
    cases ok
    rwa [List.flatten_nil, List.append_nil]
  | cons names requests ih =>
    rw [List.flatten_cons, List.forall_mem_append] at known
    have writable : ∀ x ∈ names, isWritable x = true := fun x hx => h.writable x (known.1 x hx)
    have request := getValueOf_of_writable writable
    have live : ∀ x ∈ names, x ∈ scopes.live.names := by
      rw [h.live]
      exact known.1
    obtain ⟨c, running, heard, sound⟩ := h.heard
    obtain ⟨c', running', thinks⟩ := mind
    cases running.symm.trans running'
    unfold Session.askValues at ok
    rw [SessionM.bind_of_ok (SessionM.get_apply s), request,
      SessionM.bind_of_ok (written_ok _ s), h.deadline] at ok
    obtain ⟨response, s₁, exchanged, ok⟩ := SessionM.bind_eq_ok ok
    obtain ⟨answered, rfl⟩ := exchange_eq_ok running exchanged
    obtain ⟨values, s₂, interpreted, ok⟩ := SessionM.bind_eq_ok ok
    obtain ⟨said, rfl⟩ := interpret_eq_ok interpreted
    obtain ⟨still, answer⟩ := Channel.askValues_of_sound sound thinks known.1 writable answered
    obtain ⟨own, once⟩ : values.Gives ρ names ∧ values.Once := by
      rcases answer with pairs | ⟨item, parsed, reports⟩
      · exact Answer.gives_of_values pairs said
      · exact absurd said (Answer.values_of_error parsed reports)
    have next := h.after (Channel.heard_askValues heard writable live deadline s.declared)
      ((Channel.stable_sound deadline).values s.declared names sound)
    rw [List.flatten_cons, ← List.append_assoc]
    exact ih next known.2 ⟨_, rfl, still⟩ (gives.update own once) ok

end Session

/-- The sort over which a variable ranges that no constraint uses. -/
def Expr.freeSort (v : Expr) : SmtSort :=
  if v.sort == some .int then .int else .bool

/-- The sorts over which some variables range when no constraint uses them. The
last one of several variables of a name counts. -/
def Expr.freeSorts (vs : List Expr) : SortTable :=
  vs.reverse.map fun v => (v.name, v.freeSort)

/-- The sort at a name is that of the last variable of the name. -/
theorem Expr.sortOf?_freeSorts (vs : List Expr) (x : String) :
    (freeSorts vs).sortOf? x = (vs.reverse.find? (·.name == x)).map Expr.freeSort := by
  unfold freeSorts
  induction vs.reverse with
  | nil => rfl
  | cons v vs ih =>
    rw [List.map_cons, SortTable.sortOf?_cons, ih]
    by_cases same : x = v.name
    · simp [same]
    · simp [same, Ne.symm same]

theorem Expr.mem_names_freeSorts {vs : List Expr} {v : Expr} (hv : v ∈ vs) :
    v.name ∈ (freeSorts vs).names := by
  rw [freeSorts, SortTable.names, List.map_map]
  exact List.mem_map.2 ⟨v, List.mem_reverse.2 hv, rfl⟩

namespace Session

variable {s s' : Session} {scopes : Scopes} {deadline : Option Seconds}
variable {notes : List (List Expr)} {ρ : Valuation}

/-- A default value has the sort over which the variable ranges. -/
theorem sort_defaultValue (v : Expr) : (defaultValue v).sort = v.freeSort := by
  unfold defaultValue Expr.freeSort
  split <;> rfl

/-- **Variables that have been declared are asked for, the others have default
values.** The last one of several variables of a name counts. -/
theorem partitionVariables_spec {declared : SortTable} {vs : List Expr} {names : List String}
    {defaults : Model} (h : partitionVariables declared vs = .ok (names, defaults)) :
    names = (vs.map Expr.name).filter declared.contains ∧ defaults.Once ∧
      ∀ x, defaults.valueOf? x = if declared.contains x then none
        else (vs.reverse.find? (·.name == x)).map defaultValue := by
  induction vs generalizing names defaults with
  | nil =>
    cases h
    exact ⟨rfl, List.nodup_nil, fun x => by simp [Model.valueOf?]⟩
  | cons v vs ih =>
    obtain ⟨-, names', defaults', rest, made⟩ := partitionVariables_cons.1 h
    obtain ⟨rfl, once, defaultOf⟩ := ih rest
    have last (x : String) : ((v :: vs).reverse.find? (·.name == x)).map defaultValue =
        ((vs.reverse.find? (·.name == x)).map defaultValue).or
          (if x = v.name then some (defaultValue v) else none) := by
      rw [List.reverse_cons, List.find?_append, Option.map_or, List.find?_singleton]
      by_cases same : x = v.name
      · simp [same]
      · simp [same, Ne.symm same]
    rw [List.map_cons, List.filter_cons]
    split at made
    · next here =>
      cases made
      refine ⟨(if_pos here).symm, once, fun x => ?_⟩
      rw [defaultOf, last]
      by_cases same : x = v.name <;> simp [same, here]
    · next here =>
      cases made
      have bare : Model.Once [] := List.nodup_nil
      refine ⟨(if_neg here).symm, (bare.set _ _).update _, fun x => ?_⟩
      rw [Model.valueOf?_update once, Model.valueOf?_set, defaultOf, last]
      by_cases same : x = v.name
      · rw [same, if_neg here, if_neg here]
        rfl
      · rw [if_neg same]
        split <;> rfl

/-- The default values of undeclared variables have the sorts over which these range. -/
theorem sort_of_defaults {declared : SortTable} {vs : List Expr} {names : List String}
    {defaults : Model} (h : partitionVariables declared vs = .ok (names, defaults)) {x : String}
    (other : x ∉ declared.names) :
    (defaults.valueOf? x).map Value.sort = (Expr.freeSorts vs).sortOf? x := by
  obtain ⟨-, -, defaultOf⟩ := partitionVariables_spec h
  have sorts : Value.sort ∘ defaultValue = Expr.freeSort := funext sort_defaultValue
  rw [defaultOf, if_neg (mt SortTable.contains_iff.1 other), Option.map_map, sorts,
    Expr.sortOf?_freeSorts]

/-- **A model of some variables** is that of a valuation under which all
constraints hold, with undeclared variables at the sorts over which they range. -/
theorem InStep.model_of_ok (h : s.InStep deadline (Channel.Sound deadline) scopes)
    (noted : Noted notes scopes.all) (sat : s.status = some .sat) (models : scopes.Models ρ)
    (mind : s.HasInMind ρ) {vs : List Expr} {m : Model}
    (ok : Session.model (some (.list (vs.map .expr))) s = (.ok m, s')) :
    s'.InStep deadline (Channel.Sound deadline) scopes ∧
      ∃ σ, scopes.Models σ ∧ (∀ x ∉ scopes.live.names, ∀ sort,
          (Expr.freeSorts vs).sortOf? x = some sort → (σ x).sort = sort) ∧
        ∀ v ∈ vs, m.valueOf? v.name = some (σ v.name) := by
  have next := h.model (Channel.stable_sound deadline) (some (.list (vs.map .expr)))
  rw [ok] at next
  obtain ⟨_, rfl, next⟩ := next
  refine ⟨next, ?_⟩
  obtain ⟨c, running, -⟩ := h.heard
  rw [model_of_sat running sat] at ok
  dsimp only at ok
  rw [Expr.collect, Expr.collectAll_map_expr] at ok
  dsimp only at ok
  cases parts : partitionVariables s.declared vs with
  | error e =>
    rw [parts] at ok
    cases ok
  | ok parts' =>
    obtain ⟨names, defaults⟩ := parts'
    rw [parts] at ok
    obtain ⟨found, s₁, asked, made⟩ := SessionM.bind_eq_ok ok
    cases made
    obtain ⟨requested, once, defaultOf⟩ := partitionVariables_spec parts
    have none : ∀ x ∈ s.declared.names, defaults.valueOf? x = none := fun x live => by
      rw [defaultOf, if_pos (SortTable.contains_iff.2 live)]
    have gives := h.askValues_of_ok
      (by rw [flatten_requests]; exact mem_of_partitionVariables parts) mind (Model.gives_nil ρ) asked
    rw [flatten_requests, List.nil_append] at gives
    rw [h.live]
    -- the valuation in mind, but for variables that have default values
    refine ⟨fun x => (defaults.valueOf? x).getD (ρ x), noted.models_congr (fun x live => ?_) models,
      fun x other sort ranges => ?_, fun v hv => ?_⟩
    · rw [none x (h.live ▸ live)]
      rfl
    · rw [← sort_of_defaults parts other] at ranges
      obtain ⟨w, has, rfl⟩ := Option.map_eq_some_iff.1 ranges
      show ((defaults.valueOf? x).getD (ρ x)).sort = _
      rw [has]
      rfl
    · show _ = some ((defaults.valueOf? v.name).getD (ρ v.name))
      rw [Model.valueOf?_update once, gives]
      by_cases live : v.name ∈ s.declared.names
      · have asked : v.name ∈ names := by
          rw [requested]
          exact List.mem_filter.2 ⟨List.mem_map_of_mem hv, SortTable.contains_iff.2 live⟩
        rw [none _ live, if_pos asked]
        rfl
      · have default := sort_of_defaults parts live
        obtain ⟨sort, ranges⟩ := SortTable.exists_sortOf? (Expr.mem_names_freeSorts hv)
        rw [ranges] at default
        obtain ⟨w, has, -⟩ := Option.map_eq_some_iff.1 default
        rw [has]
        rfl

end Session

end SmtDialogue
