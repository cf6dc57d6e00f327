import SmtDialogue.Enumeration.Solve
import SmtDialogue.Proofs.Enumeration
import SmtDialogue.Proofs.Inference
import SmtDialogue.Proofs.Storing

/-!
# Deciding once leaves a model in the nodes

When some constraints are decided and found satisfiable, the nodes of the
constraints show a model afterwards: each variable has its value in the model, each
compound node the value that evaluation makes of it, and each constraint is true
(`Expr.Solved`). With any other result, an error included, no node has changed, and
the session that was opened for it is closed (`Solve.stores_model`).

Three things meet here. A sound solver gives the values of one valuation under which
all constraints hold (`InStep.model_of_ok`). It is asked for one variable of each
name, which is all that matters since a value goes by the name
(`Expr.mem_names_vars`). And an assignment that knows every name settles the
constraints, whatever nodes they share (`Graph.assign_spec`), so their values are
those of the valuation, to which evaluation agrees.
-/

namespace SmtDialogue

open Smt

/-! ## Constraints that have been solved -/

namespace Expr

/-- **An expression that a model satisfies in its nodes**: it is true, each variable
has its value in the model, and each compound node the value that evaluation makes
of it. -/
structure Solved (m : Model) (e : Expr) : Prop where
  /-- It is true. -/
  holds : e.value = some (.bool true)
  /-- Variables have their values in the model. -/
  assigned : ∀ n ∈ e.nodes, n.op = .identity → ∃ v, m.valueOf? n.name = some v ∧ n.value = some v
  /-- Compound nodes have the values that evaluation gives. -/
  evaluated : ∀ n ∈ e.nodes, n.op.isLeaf = false → n.evaluate = .ok n.value

theorem label_settled (ρ : String → Option Value) (e : Expr) :
    (e.settled ρ).label = { e.label with value := e.settledValue ρ } := by
  cases e
  rw [settled_node]
  rfl

/-- The variables that are collected have all names. -/
theorem mem_names_vars {es : List Expr} {x : String} :
    x ∈ (vars es).map name ↔ ∃ e ∈ es, x ∈ e.variableNames := by
  have all : ∀ vs found : List Expr,
      x ∈ (vs.foldl addByName found).map name ↔ x ∈ found.map name ∨ x ∈ vs.map name := by
    intro vs
    induction vs with
    | nil => simp
    | cons v vs ih =>
      intro found
      have added : x ∈ SortTable.addName (found.map name) v.name ↔
          x ∈ found.map name ∨ x = v.name := by
        unfold SortTable.addName
        split
        · next here => exact ⟨.inl, fun h => h.elim id fun same => same ▸ here⟩
        · rw [List.mem_append, List.mem_singleton]
      rw [List.foldl_cons, ih, map_name_addByName, added, List.map_cons, List.mem_cons, or_assoc]
  rw [vars, all, List.filter_flatMap, List.map_flatMap, List.mem_flatMap]
  simp [variableNames]

/-- **An expression is solved by its values under a model**, when the model has its
variables and makes it true. -/
theorem Built.solved {e : Expr} (built : e.Built) {m : Model}
    (has : ∀ x ∈ e.variableNames, ∃ v, m.valueOf? x = some v)
    (true_ : e.valueUnder m.valueOf? = .ok (some (.bool true))) :
    (e.settled m.valueOf?).Solved m where
  holds := by
    rw [value, label_settled]
    exact settledValue_of_ok true_
  assigned := by
    intro n hn var
    rw [nodes_settled] at hn
    obtain ⟨⟨l, cs⟩, hd, rfl⟩ := List.mem_map.1 hn
    rw [op, label_settled] at var
    have named : l.name ∈ e.variableNames :=
      List.mem_map.2 ⟨_, List.mem_filter.2 ⟨hd, beq_iff_eq.2 var⟩, rfl⟩
    obtain ⟨v, value⟩ := has l.name named
    refine ⟨v, ?_, ?_⟩
    · rw [name, label_settled]
      exact value
    · rw [Expr.value, label_settled, ← value]
      exact settledValue_of_ok (valueUnder_identity _ cs var)
  evaluated := by
    intro n hn _
    rw [nodes_settled] at hn
    obtain ⟨d, hd, rfl⟩ := List.mem_map.1 hn
    obtain ⟨v, value⟩ := (built.of_mem_nodes d hd).exists_valueUnder m.valueOf?
    rw [evaluate_settled, value, Expr.value, label_settled]
    exact congrArg _ (settledValue_of_ok value).symm

end Expr

/-- What is stored of a model are its values. -/
theorem Model.lookup_toAssignment (m : Model) (x : String) :
    m.toAssignment.lookup x = (m.valueOf? x).map some := by
  unfold toAssignment valueOf?
  induction m with
  | nil => rfl
  | cons entry m ih =>
    rw [List.map_cons, List.lookup_cons, List.lookup_cons, ih]
    cases x == entry.1 <;> rfl

/-! ## Deciding -/

namespace Session

variable {s s' : Session} {scopes : Scopes} {deadline : Option Seconds}

/-- **Assertions of several constraints** add them to those that the solver has. -/
theorem InStep.assertAll {es roots : List Expr} {around : List (List Expr)}
    (h : s.InStep deadline (Channel.Sound deadline) scopes)
    (noted : Noted (es :: around) scopes.all)
    (given : ∀ e ∈ roots, e.Built ∧ ∀ x ∈ e.variableNames, Text.BreakFree x)
    (ok : Session.assertAll roots s = (.ok (), s')) :
    ∃ scopes', s'.InStep deadline (Channel.Sound deadline) scopes' ∧
      Noted ((es ++ roots) :: around) scopes'.all := by
  induction roots generalizing es s scopes with
  | nil =>
    cases ok
    rw [List.append_nil]
    exact ⟨scopes, h, noted⟩
  | cons e roots ih =>
    obtain ⟨⟨built, whole⟩, others⟩ := List.forall_mem_cons.1 given
    obtain ⟨⟨⟩, s₁, asserted, ok⟩ := SessionM.bind_eq_ok ok
    have next := h.assert (Channel.stable_sound deadline) built whole
    rw [asserted] at next
    obtain ⟨_, ⟨t, new, term, declaring, rfl⟩, next⟩ := next
    have more := ih next (noted.asserting built term declaring) others ok
    rwa [List.append_assoc] at more

/-- A new session that has been opened is in step with the solver. -/
theorem inStep_of_openOn {host : Host} {launch : Launch} {options : SessionOptions}
    (sound : host.Sound options.deadline) (ok : openOn host { launch, options } = (.ok (), s')) :
    s'.InStep options.deadline (Channel.Sound options.deadline) {} := by
  let new : Session := { launch, options }
  have opened := openOn_leads (s := new) (Channel.stable_sound options.deadline) rfl
    ⟨rfl, rfl, rfl⟩ fun c s₁ started running => sound_of_start sound started running
  rw [ok] at opened
  exact opened

/-- **A session that was opened for one operation is closed after it**; one that
could not be opened is closed, or as new as it was. -/
theorem phase_during {α : Type} (host : Host) (body : SessionM α) (launch : Launch)
    (options : SessionOptions) :
    let new : Session := { launch, options }
    ((during host body new).2.phase = .created ∨ (during host body new).2.phase = .closed) ∧
      ((openOn host new).1 = .ok () → (during host body new).2.phase = .closed) := by
  intro new
  unfold during
  rcases opened : openOn host new with ⟨e | ⟨⟩, s'⟩
  · refine ⟨?_, nofun⟩
    unfold openOn at opened
    rcases started : start host new with ⟨e' | ⟨⟩, s₁⟩
    · rw [started] at opened
      cases opened
      exact .inl (start_of_error started).1
    · rw [started] at opened
      rcases greeted : greet s₁ with ⟨e' | ⟨⟩, s₂⟩
      · refine .inr ?_
        simp only [greeted, new] at opened
        cases opened
        exact phase_close s₂
      · simp only [greeted, new] at opened
        cases opened
  · exact ⟨.inr (phase_close _), fun _ => phase_close _⟩

end Session

namespace Solve

open Session

/-- **What a decision says**: with a model, that the constraints are satisfiable, and
the values are those of a valuation under which they hold; without one, something
else. -/
def Decides (roots : List Expr) : Status × Option Model → Prop
  | (status, some m) => status = .sat ∧ ∃ σ : Valuation, (∀ e ∈ roots, e.HoldsUnder σ) ∧
      ∀ x ∈ (Expr.vars roots).map Expr.name, m.valueOf? x = some (σ x)
  | (status, none) => status ≠ .sat

/-- **A decision of a session that has just been opened.** -/
theorem decides_of_ok {s s' : Session} {deadline : Option Seconds} {roots : List Expr}
    (h : s.InStep deadline (Channel.Sound deadline) {})
    (given : ∀ e ∈ roots, e.Built ∧ ∀ x ∈ e.variableNames, Text.BreakFree x)
    {found : Status × Option Model} (ok : decideAll roots s = (.ok found, s')) :
    Decides roots found := by
  have new : Noted [[]] ({} : Scopes).all := .scope .nil nofun .none
  unfold decideAll at ok
  obtain ⟨⟨⟩, s₁, asserted, ok⟩ := SessionM.bind_eq_ok ok
  obtain ⟨scopes, inStep, noted⟩ := h.assertAll new given asserted
  obtain ⟨status, s₂, checked, ok⟩ := SessionM.bind_eq_ok ok
  obtain ⟨inStep, status_eq, sat, -⟩ := inStep.check_of_ok checked
  by_cases satisfiable : status = .sat
  · subst satisfiable
    obtain ⟨m, s₃, asked, ok⟩ := SessionM.bind_eq_ok ok
    cases ok
    obtain ⟨ρ, models, mind⟩ := sat rfl
    obtain ⟨-, σ, models, -, values⟩ := inStep.model_of_ok noted status_eq models mind asked
    refine ⟨rfl, σ, fun e he => ?_, fun x hx => ?_⟩
    · refine (noted.models_iff.1 models).2 e ?_
      simpa using he
    · obtain ⟨v, hv, rfl⟩ := List.mem_map.1 hx
      exact values v hv
  · rw [if_neg (mt beq_iff_eq.1 satisfiable)] at ok
    cases ok
    exact satisfiable

/-- A decision in a session that was opened for it. -/
theorem decides_of_during {host : Host} {launch : Launch} {options : SessionOptions}
    (sound : host.Sound options.deadline) {roots : List Expr}
    (given : ∀ e ∈ roots, e.Built ∧ ∀ x ∈ e.variableNames, Text.BreakFree x)
    {found : Status × Option Model} {s' : Session}
    (ok : during host (decideAll roots) { launch, options } = (.ok found, s')) :
    Decides roots found := by
  unfold during at ok
  rcases opened : openOn host { launch, options } with ⟨e | ⟨⟩, s₁⟩
  · rw [opened] at ok
    cases ok
  · rw [opened] at ok
    rcases decided : decideAll roots s₁ with ⟨outcome, s₂⟩
    simp only [decided] at ok
    cases ok
    exact decides_of_ok (inStep_of_openOn sound opened) given decided

/-- **Values of a model solve the constraints.** -/
theorem assign_of_decides {g : Graph} {roots : List Expr} {m : Model}
    (given : ∀ e ∈ roots, e.Built ∧ g.Keeps e) {status : Status}
    (decides : Decides roots (status, some m)) :
    (g.assign m.toAssignment roots).1 = .ok () ∧ ∀ e ∈ roots,
      (g.assign m.toAssignment roots).2.current e = e.settled m.valueOf? ∧
        (e.settled m.valueOf?).Solved m := by
  obtain ⟨-, σ, holds, values⟩ := decides
  have has : ∀ e ∈ roots, ∀ x ∈ e.variableNames, m.valueOf? x = some (σ x) :=
    fun e he x hx => values x (Expr.mem_names_vars.2 ⟨e, he, hx⟩)
  obtain ⟨ok, settled⟩ := Graph.assign_spec (ρ := m.valueOf?) (fun e he => (given e he).2)
    (fun e he => (given e he).1) fun e he x hx => by
      rw [Model.lookup_toAssignment, has e he x hx]
      rfl
  refine ⟨ok, fun e he => ⟨settled e he, (given e he).1.solved (fun x hx => ⟨_, has e he x hx⟩) ?_⟩⟩
  rw [Expr.valueUnder_congr (has e he)]
  exact holds e he

/-- **Deciding once leaves a model in the nodes of the constraints.** -/
theorem stores_model {host : Host} {launch : Launch} {options : SessionOptions}
    (sound : host.Sound options.deadline) {constraints : Operand} {g g' : Graph}
    (given : ∀ roots, Expr.collect constraints = .ok roots → ∀ e ∈ roots,
      e.Built ∧ (∀ x ∈ e.variableNames, Text.BreakFree x) ∧ g.Keeps e)
    {outcome : Except SessionError Status} {s' : Session}
    (run : sat host constraints g { launch, options } = (outcome, g', s')) :
    (outcome = .ok .sat → ∃ roots m, Expr.collect constraints = .ok roots ∧
      (during host (decideAll roots) { launch, options }).1 = .ok (.sat, some m) ∧
      ∀ e ∈ roots, g'.current e = e.settled m.valueOf? ∧ (g'.current e).Solved m) ∧
    (outcome ≠ .ok .sat → g' = g) ∧
    (s'.phase = .created ∨ s'.phase = .closed) ∧
    (∀ roots, Expr.collect constraints = .ok roots →
      (openOn host { launch, options }).1 = .ok () → s'.phase = .closed) := by
  unfold sat at run
  cases collected : Expr.collect constraints with
  | error cause =>
    rw [collected] at run
    cases run
    exact ⟨nofun, fun _ => rfl, .inl rfl, nofun⟩
  | ok roots =>
    rw [collected] at run
    dsimp only at run
    obtain ⟨ends, closes⟩ := phase_during host (decideAll roots) launch options
    have parts := given roots collected
    have decides {found : Status × Option Model} {s₁ : Session}
        (ok : during host (decideAll roots) { launch, options } = (.ok found, s₁)) :
        Decides roots found :=
      decides_of_during sound (fun e he => ⟨(parts e he).1, (parts e he).2.1⟩) ok
    rcases decided : during host (decideAll roots) { launch, options } with
      ⟨e | ⟨status, _ | m⟩, s₁⟩
    · rw [decided] at run ends closes
      cases run
      exact ⟨nofun, fun _ => rfl, ends, fun _ _ => closes⟩
    · rw [decided] at run ends closes
      cases run
      refine ⟨fun satisfiable => ?_, fun _ => rfl, ends, fun _ _ => closes⟩
      exact absurd (Except.ok.inj satisfiable) (decides decided)
    · obtain ⟨ok, solved⟩ := assign_of_decides (g := g)
        (fun e he => ⟨(parts e he).1, (parts e he).2.2⟩) (decides decided)
      obtain ⟨rfl, -⟩ := decides decided
      rw [decided] at run ends closes
      rcases assigned : g.assign m.toAssignment roots with ⟨_ | ⟨⟩, g₁⟩
      · rw [assigned] at ok
        cases ok
      · simp only [assigned] at run solved
        cases run
        refine ⟨fun _ => ⟨roots, m, rfl, by rw [decided], fun e he => ?_⟩,
          fun other => absurd rfl other, ends, fun _ _ => closes⟩
        obtain ⟨same, satisfied⟩ := solved e he
        exact ⟨same, same ▸ satisfied⟩

/-- A node that is a constraint and the premise of another one, with the values of an
earlier assignment. -/
def sharing : Graph :=
  .ofCells #[⟨⟨.identity, "x", some .bool, some (.bool true), none⟩, []⟩,
    ⟨⟨.identity, "y", some .bool, some (.bool false), none⟩, []⟩,
    ⟨⟨.implies, "implies_x_y", none, some (.bool false), none⟩, [0, 1]⟩,
    ⟨⟨.implies, "implies_implies_x_y_y", none, some (.bool true), none⟩, [2, 1]⟩]

/-- The two constraints. -/
def sharers : List Expr := [sharing.view 2, sharing.view 3]

theorem built_sharers : ∀ e ∈ sharers, e.Built := by
  have x : (sharing.view 0).Built := .var _ _ _ _
  have y : (sharing.view 1).Built := .var _ _ _ _
  have first : (sharing.view 2).Built := by
    have made : Expr.combineExprs .implies [sharing.view 0, sharing.view 1] =
        .ok (.node ⟨.implies, "implies_x_y", none, none, none⟩
          [sharing.view 0, sharing.view 1]) := rfl
    exact .compound made rfl (List.forall_mem_cons.2 ⟨x, List.forall_mem_singleton.2 y⟩) _ _
  have second : (sharing.view 3).Built := by
    have made : Expr.combineExprs .implies [sharing.view 2, sharing.view 1] =
        .ok (.node ⟨.implies, "implies_implies_x_y_y", none, none, none⟩
          [sharing.view 2, sharing.view 1]) := rfl
    exact .compound made rfl (List.forall_mem_cons.2 ⟨first, List.forall_mem_singleton.2 y⟩) _ _
  exact List.forall_mem_cons.2 ⟨first, List.forall_mem_singleton.2 second⟩

/-- What comes of deciding the two constraints with a sound solver. -/
def decided : Except SessionError Status × Graph × Session :=
  sat { muteHost with binding := guessing } (.list (sharers.map .expr)) sharing
    { launch := .inProcess, options := {} }

theorem sat_decided : decided.1.toOption = some .sat ∧ decided.2.2.phase.word = "closed" := by
  decide +kernel

theorem stores_model_shared :
    decided.2.2.phase = .closed ∧ ∃ m, ∀ e ∈ sharers, (decided.2.1.current e).Solved m := by
  have sound := sound_guessingHost none
  have collected : Expr.collect (.list (sharers.map .expr)) = .ok sharers :=
    Expr.collectAll_map_expr sharers
  have given : ∀ roots, Expr.collect (.list (sharers.map .expr)) = .ok roots → ∀ e ∈ roots,
      e.Built ∧ (∀ x ∈ e.variableNames, Text.BreakFree x) ∧ sharing.Keeps e := by
    intro roots same
    cases collected.symm.trans same
    have whole : ∀ e ∈ sharers, ∀ x ∈ e.variableNames, Text.BreakFree x := by decide
    have kept : ∀ e ∈ sharers, sharing.Keeps e :=
      List.forall_mem_cons.2 ⟨sharing.keeps_view 2,
        List.forall_mem_singleton.2 (sharing.keeps_view 3)⟩
    exact fun e he => ⟨built_sharers e he, whole e he, kept e he⟩
  have found := sat_decided
  rcases run : decided with ⟨_ | status, g', s'⟩
  · rw [run] at found
    cases found.1
  · rw [run] at found
    cases found.1
    obtain ⟨stored, -, ends, -⟩ := stores_model sound given run
    obtain ⟨roots, m, same, -, solved⟩ := stored rfl
    cases collected.symm.trans same
    refine ⟨ends.resolve_left fun created => ?_, m, fun e he => (solved e he).2⟩
    rw [created] at found
    exact absurd found.2 (by decide)

end Solve

end SmtDialogue
