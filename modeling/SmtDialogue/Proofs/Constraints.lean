import SmtDialogue.Proofs.Scoping
import SmtDialogue.Proofs.SoundSolver

/-!
# The constraints of a session

What a caller believes to be asserted is a list of expressions for each open
scope, innermost first: an assertion that succeeds adds to the innermost one, and
closing a scope forgets its list (`Operation.constraints`). The solver has the
terms of these expressions (`Noted`), so the models of what it has heard are the
valuations of the declared sorts under which all constraints hold
(`models_iff`), and remain so whatever is done with the session
(`Tracked.run`).
-/

namespace SmtDialogue

open Smt

namespace Expr

/-- **A constraint holds** under a valuation. -/
def HoldsUnder (e : Expr) (ρ : Valuation) : Prop :=
  e.valueUnder (fun x => some (ρ x)) = .ok (some (.bool true))

/-- The value of an expression depends on its variables only. -/
theorem valueUnder_congr {ρ σ : String → Option Value} {e : Expr}
    (same : ∀ x ∈ e.variableNames, ρ x = σ x) : e.valueUnder ρ = e.valueUnder σ := by
  -- both are the value under one table of what the variables are assigned
  have given : ∀ x ∈ e.variableNames,
      (e.variableNames.map fun x => (x, ρ x)).lookup x = some (ρ x) :=
    fun x hx => List.lookup_graph ρ hx
  rw [← assign_eq_valueUnder given]
  exact assign_eq_valueUnder fun x hx => (given x hx).trans (by rw [same x hx])

/-- The variables of a sorted expression are in the table. -/
theorem HasSort.mem_names {table : SortTable} {e : Expr} {sort : SmtSort} (built : e.Built)
    (typed : e.HasSort table sort) : ∀ x ∈ e.variableNames, x ∈ table.names := by
  induction typed with
  | @var l cs sort leaf known _ =>
    intro x hx
    rcases mem_variableNames_node.1 hx with ⟨-, rfl⟩ | ⟨c, hc, -⟩
    · exact SortTable.mem_names_of_sortOf? known
    · rw [built.children_of_identity leaf] at hc
      cases hc
  | const leaf _ =>
    intro x hx
    obtain ⟨_, none, -⟩ := built.exists_of_const leaf
    rcases mem_variableNames_node.1 hx with ⟨var, -⟩ | ⟨c, hc, -⟩
    · rw [var] at leaf
      cases leaf
    · rw [none] at hc
      cases hc
  | ite choice _ _ _ test first second =>
    intro x hx
    rcases mem_variableNames_node.1 hx with ⟨var, -⟩ | ⟨c, hc, inside⟩
    · rw [var] at choice
      cases choice
    · have part := built.child hc
      simp only [List.mem_cons, List.not_mem_nil, or_false] at hc
      rcases hc with rfl | rfl | rfl
      · exact test part x inside
      · exact first part x inside
      · exact second part x inside
  | app takes gives _ parts =>
    intro x hx
    rcases mem_variableNames_node.1 hx with ⟨var, -⟩ | ⟨c, hc, hx⟩
    · rw [var] at takes
      cases takes
    · exact parts c hc (built.child hc) x hx

end Expr

namespace Smt

/-- **What is written for a constraint**: its term, which is a truth value over
the live constants. -/
structure Writes (live : SortTable) (e : Expr) (t : Term) : Prop where
  /-- The constraint has been made by the constructors. -/
  built : e.Built
  /-- It is a truth value. -/
  sorted : e.HasSort live .bool
  /-- Its term. -/
  term : Term.ofExpr e = .ok t

theorem Writes.mono {t u : SortTable} (h : t.Within u) {e : Expr} {term : Term}
    (writes : Writes t e term) : Writes u e term :=
  ⟨writes.built, writes.sorted.mono h, writes.term⟩

/-- **The constraints of some scopes**, those of each scope in their order. What
is declared in a scope is there for one of its constraints. -/
inductive Noted : List (List Expr) → List Scope → Prop
  | none : Noted [] []
  | scope {es : List Expr} {notes : List (List Expr)} {s : Scope} {outer : List Scope}
    (inner : List.Forall₂ (Writes (liveIn (s :: outer))) es s.asserted)
    (used : ∀ x ∈ s.declared.names, ∃ e ∈ es, x ∈ e.variableNames) (around : Noted notes outer) :
    Noted (es :: notes) (s :: outer)

/-- A constraint holds when its term does. -/
theorem Writes.holdsUnder_iff {live : SortTable} {e : Expr} {t : Term} (h : Writes live e t)
    {ρ : Valuation} (fits : live.Fits ρ) : e.HoldsUnder ρ ↔ t.eval ρ = some (.bool true) := by
  obtain ⟨v, -, value, terms⟩ := exists_haveValue fits h.built h.sorted
  rw [Expr.HoldsUnder, value, terms t h.term, Except.ok.injEq]

theorem Writes.forall_holdsUnder_iff {live : SortTable} {es : List Expr} {ts : List Term}
    (row : List.Forall₂ (Writes live) es ts) {ρ : Valuation} (fits : live.Fits ρ) :
    (∀ t ∈ ts, t.eval ρ = some (.bool true)) ↔ ∀ e ∈ es, e.HoldsUnder ρ := by
  induction row with
  | nil => simp
  | cons first _ ih =>
    rw [List.forall_mem_cons, List.forall_mem_cons, ih, first.holdsUnder_iff fits]

/-- The assertions of some scopes hold when the constraints do. -/
theorem Noted.holds_iff {notes : List (List Expr)} {scopes : List Scope} (h : Noted notes scopes)
    {ρ : Valuation} (fits : (liveIn scopes).Fits ρ) :
    (∀ t ∈ assertedIn scopes, t.eval ρ = some (.bool true)) ↔
      ∀ e ∈ notes.flatten, e.HoldsUnder ρ := by
  induction h with
  | none => simp [assertedIn]
  | @scope es notes s outer inner _ _ ih =>
    have outside : (liveIn outer).Fits ρ := fits.of_within (SortTable.within_append _ _)
    rw [assertedIn, List.forall_mem_append, ih outside, Writes.forall_holdsUnder_iff inner fits,
      List.flatten_cons, List.forall_mem_append, and_comm]

/-- **The models of what has been heard** are the valuations of the declared
sorts under which all constraints hold. -/
theorem Noted.models_iff {notes : List (List Expr)} {s : Scopes} (h : Noted notes s.all)
    {ρ : Valuation} : s.Models ρ ↔ s.live.Fits ρ ∧ ∀ e ∈ notes.flatten, e.HoldsUnder ρ :=
  and_congr_right fun fits => h.holds_iff fits

/-- **The live constants are those that constraints use.** -/
theorem Noted.mem_names_iff {notes : List (List Expr)} {scopes : List Scope}
    (h : Noted notes scopes) {x : String} :
    x ∈ (liveIn scopes).names ↔ ∃ e ∈ notes.flatten, x ∈ e.variableNames := by
  induction h with
  | none => simp [liveIn, SortTable.names]
  | @scope es notes s outer inner used _ ih =>
    rw [List.flatten_cons]
    constructor
    · intro live
      rw [liveIn, SortTable.names_append] at live
      rcases List.mem_append.1 live with live | live
      · obtain ⟨e, he, hx⟩ := ih.1 live
        exact ⟨e, List.mem_append_right _ he, hx⟩
      · obtain ⟨e, he, hx⟩ := used x live
        exact ⟨e, List.mem_append_left _ he, hx⟩
    · rintro ⟨e, he, hx⟩
      rcases List.mem_append.1 he with he | he
      · obtain ⟨t, -, writes⟩ := Outcome.exists_of_mem_right inner.flip he
        exact writes.sorted.mem_names writes.built x hx
      · rw [liveIn, SortTable.names_append]
        exact List.mem_append_left _ (ih.2 ⟨e, he, hx⟩)

/-- Models are told apart by live constants only. -/
theorem Noted.models_congr {notes : List (List Expr)} {s : Scopes} (h : Noted notes s.all)
    {ρ σ : Valuation} (same : ∀ x ∈ s.live.names, ρ x = σ x) (models : s.Models ρ) :
    s.Models σ := by
  rw [h.models_iff] at models ⊢
  refine ⟨fun x sort found => ?_, fun e he => ?_⟩
  · rw [← same x (SortTable.mem_names_of_sortOf? found)]
    exact models.1 x sort found
  · rw [Expr.HoldsUnder, ← Expr.valueUnder_congr fun x hx =>
      congrArg some (same x (h.mem_names_iff.2 ⟨e, he, hx⟩))]
    exact models.2 e he

/-! ## What operations do to constraints -/

namespace Noted

variable {s s' : Scopes} {es : List Expr} {notes : List (List Expr)}

/-- An assertion adds its constraint to the innermost scope, with what it has to
declare. -/
theorem asserting (h : Noted (es :: notes) s.all) {e : Expr} {t : Term} {new : SortTable}
    (built : e.Built) (term : Term.ofExpr e = .ok t) (declaring : Declaring s.live e new) :
    Noted ((es ++ [e]) :: notes) ((s.declaring new).asserting t).all := by
  have live : ((s.declaring new).asserting t).live = s.live ++ new :=
    (Scopes.live_asserting _ _).trans (Scopes.live_declaring _ _)
  have within : s.live.Within ((s.declaring new).asserting t).live := by
    rw [live]
    exact SortTable.within_append _ _
  have sorted : e.HasSort ((s.declaring new).asserting t).live .bool := by
    rw [live]
    exact declaring.sorted
  cases h with
  | scope inner used around =>
    refine .scope (List.rel_append (inner.imp fun _ _ writes => writes.mono within)
      (.cons ⟨built, sorted, term⟩ .nil)) ?_ around
    show ∀ x ∈ (s.inner.declared ++ new).names, _
    rw [SortTable.names_append]
    refine List.forall_mem_append.2 ⟨fun x old => ?_, fun x fresh => ?_⟩
    · obtain ⟨e', he, hx⟩ := used x old
      exact ⟨e', List.mem_append_left _ he, hx⟩
    · exact ⟨e, List.mem_append_right _ List.mem_cons_self, declaring.names x fresh⟩

theorem opening (h : Noted notes s.all) : Noted ([] :: notes) s.opening.all := .scope .nil nofun h

theorem pop (h : Noted (es :: notes) s.all) (makes : s.step .pop = some s') :
    Noted notes s'.all := by
  obtain ⟨inner, outer⟩ := s
  cases outer with
  | nil => cases makes
  | cons scope outer =>
    cases makes
    cases h with
    | scope _ _ around => exact around

end Noted

end Smt

namespace Operation

/-- The constraints of the open scopes after an operation, innermost scope first,
by what has come of it. -/
def note (op : Operation) (outcome : Except SessionError Unit) (open_ : List (List Expr)) :
    List (List Expr) :=
  match op, outcome, open_ with
  | assert e, .ok (), es :: around => (es ++ [e]) :: around
  | push, .ok (), open_ => [] :: open_
  | pop, .ok (), _ :: around => around
  | _, _, open_ => open_

/-- The constraints of the open scopes after some operations. -/
def noteAll (s : Session) (open_ : List (List Expr)) : List Operation → List (List Expr)
  | [] => open_
  | op :: ops => noteAll (op.run s).2 (op.note (op.run s).1 open_) ops

/-- **The constraints in force** after some operations on a new session: those
that have been asserted in scopes that are still open. -/
def constraints (s : Session) (ops : List Operation) : List Expr :=
  (noteAll s [[]] ops).flatten

end Operation

namespace Session

variable (deadline : Option Seconds)

/-- **What holds of a session with a sound solver between operations**: while it
is running, it is in step with the solver, and the solver has its
constraints. -/
def Tracked (notes : List (List Expr)) (s : Session) : Prop :=
  match s.phase with
  | .created => s.options.deadline = deadline ∧ s.declared = [] ∧ s.scopes = [] ∧ notes = [[]]
  | .running _ => ∃ scopes, s.InStep deadline (Channel.Sound deadline) scopes ∧
      Noted notes scopes.all
  | .failed _ | .closed => True

variable {deadline} {s : Session} {notes : List (List Expr)}

/-- A solver that could not be started leaves the session as new as it was. -/
theorem start_of_error {host : Host} {e : SessionError} {s' : Session}
    (h : start host s = (.error e, s')) :
    s'.phase = s.phase ∧ s'.options = s.options ∧ s'.declared = s.declared ∧
      s'.scopes = s.scopes := by
  unfold start at h
  cases launch : s.launch with
  | process backend =>
    simp only [launch] at h
    split at h
    · cases h
      exact ⟨rfl, rfl, rfl, rfl⟩
    · split at h
      · cases h
        exact ⟨rfl, rfl, rfl, rfl⟩
      · cases h
  | inProcess =>
    simp only [launch] at h
    split at h
    · cases h
    · cases h
      exact ⟨rfl, rfl, rfl, rfl⟩

/-- A sound solver that has been started is one. -/
theorem sound_of_start {host : Host} (sound : host.Sound s.options.deadline) {s' : Session}
    {c : Channel} (started : start host s = (.ok (), s')) (running : s'.phase = .running c) :
    Channel.Sound s.options.deadline s'.trace c := by
  unfold start at started
  cases launch : s.launch with
  | process backend =>
    simp only [launch] at started
    split at started
    · cases started
    · split at started
      · cases started
      · cases started
        cases running
        exact ⟨sound.behaviour, fun _ _ => .nil rfl rfl⟩
  | inProcess =>
    simp only [launch] at started
    split at started
    · cases started
      cases running
      exact (show (InProcess.start host.binding s.options.deadline).state.binding.Sound from
        InProcess.binding_start _ _ ▸ sound.binding)
    · cases started

theorem InStep.tracked {scopes : Scopes}
    (h : s.InStep deadline (Channel.Sound deadline) scopes) (noted : Noted notes scopes.all) :
    s.Tracked deadline notes := by
  obtain ⟨c, running, -⟩ := h.heard
  unfold Tracked
  rw [running]
  exact ⟨scopes, h, noted⟩

theorem Broken.tracked {kept : History → Channel → Prop} (h : s.Broken kept) :
    s.Tracked deadline notes := by
  obtain ⟨c, -, -, failed, -⟩ := h
  unfold Tracked
  rw [failed]
  trivial

theorem tracked_close (s : Session) : s.close.Tracked deadline notes := by
  unfold Tracked
  rw [phase_close]
  trivial

/-- What an operation leads to is tracked when its result is. -/
theorem Leads.tracked {α : Type} {scopes : Scopes}
    {after : α → Scopes → Prop} {r : Except SessionError α × Session}
    (h : Leads deadline (Channel.Sound deadline) scopes after r) (noted : Noted notes scopes.all)
    {f : Except SessionError α → List (List Expr)} (failed : ∀ e, f (.error e) = notes)
    (done : ∀ a scopes', after a scopes' → Noted (f (.ok a)) scopes'.all) :
    r.2.Tracked deadline (f r.1) := by
  rcases r with ⟨e | a, s'⟩
  · rw [failed]
    exact h.elim (fun next => next.tracked noted) Broken.tracked
  · obtain ⟨scopes', is, next⟩ := h
    exact next.tracked (done a scopes' is)

/-- Opening a session. -/
theorem Tracked.openOn (h : s.Tracked deadline notes) (created : s.phase = .created) {host : Host}
    (sound : host.Sound deadline) : (openOn host s).2.Tracked deadline notes := by
  unfold Tracked at h
  rw [created] at h
  obtain ⟨rfl, declared, saved, rfl⟩ := h
  have opened := openOn_leads (Channel.stable_sound s.options.deadline) created
    ⟨rfl, declared, saved⟩ fun c s' started running => sound_of_start sound started running
  rcases hs : Session.openOn host s with ⟨e | ⟨⟩, s'⟩
  · rw [hs] at opened
    rcases opened with unstarted | ⟨s'', rfl, -⟩
    · obtain ⟨phase, options, same, scopes⟩ := start_of_error unstarted
      show s'.Tracked _ _
      unfold Tracked
      rw [phase, created]
      exact ⟨congrArg SessionOptions.deadline options, same.trans declared, scopes.trans saved, rfl⟩
    · exact tracked_close s''
  · rw [hs] at opened
    exact opened.tracked (.scope .nil nofun .none)

/-- An operation that ends in an error changes no constraint. -/
theorem note_error (op : Operation) (e : SessionError) (notes : List (List Expr)) :
    op.note (.error e) notes = notes := by
  cases op <;> rfl

/-- **One operation on a running session** keeps track of the constraints. -/
theorem InStep.tracked_run {scopes : Scopes}
    (h : s.InStep deadline (Channel.Sound deadline) scopes) (noted : Noted notes scopes.all)
    {op : Operation} (wellFormed : op.WellFormed) :
    (op.run s).2.Tracked deadline (op.note (op.run s).1 notes) := by
  have stable := Channel.stable_sound deadline
  obtain ⟨es, around, rfl⟩ : ∃ es around, notes = es :: around := by
    cases noted
    exact ⟨_, _, rfl⟩
  cases op with
  | openOn host =>
    obtain ⟨c, running, -⟩ := h.heard
    have same := openOn_of_opened (s := s) (by rw [running]; nofun) host
    rw [show Operation.run (.openOn host) s = _ from same]
    exact h.tracked noted
  | close => exact tracked_close s
  | assert e =>
    refine (h.assert stable wellFormed.1 wellFormed.2).tracked
      (f := fun outcome => Operation.note (.assert e) outcome (es :: around)) noted
      (fun _ => rfl) ?_
    rintro ⟨⟩ _ ⟨t, new, term, declaring, rfl⟩
    exact noted.asserting wellFormed.1 term declaring
  | push =>
    refine (h.push stable).tracked (f := fun outcome => Operation.note .push outcome _)
      noted (fun _ => rfl) ?_
    rintro ⟨⟩ _ rfl
    exact noted.opening
  | pop =>
    refine (h.pop stable).tracked (f := fun outcome => Operation.note .pop outcome _)
      noted (fun _ => rfl) ?_
    rintro ⟨⟩ _ makes
    exact noted.pop makes
  | check =>
    refine (h.check stable).forget.tracked
      (f := fun outcome => Operation.note .check outcome _) noted (fun _ => rfl) ?_
    rintro ⟨⟩ _ rfl
    exact noted
  | model vars =>
    refine (h.model stable vars).forget.tracked
      (f := fun outcome => Operation.note (.model vars) outcome _) noted (fun _ => rfl) ?_
    rintro ⟨⟩ _ rfl
    exact noted

/-- **One operation** keeps track of the constraints. -/
theorem Tracked.run (h : s.Tracked deadline notes) {op : Operation} (wellFormed : op.WellFormed)
    (sound : ∀ host, op = .openOn host → host.Sound deadline) :
    (op.run s).2.Tracked deadline (op.note (op.run s).1 notes) := by
  cases phase : s.phase with
  | running c =>
    unfold Tracked at h
    rw [phase] at h
    obtain ⟨scopes, inStep, noted⟩ := h
    exact inStep.tracked_run noted wellFormed
  | created | failed | closed =>
    -- nothing but opening and closing does anything to a session that is not running
    have idle : s.phase.isRunning = false := by
      rw [phase]
      rfl
    have stays (inner : ∃ e, op.run s = (.error e, s)) :
        (op.run s).2.Tracked deadline (op.note (op.run s).1 notes) := by
      obtain ⟨e, same⟩ := inner
      rw [same, note_error]
      exact h
    rcases op.isInner_or with inner | ⟨host, rfl⟩ | rfl
    · exact stays ((run_of_idle idle inner).elim fun _ same => ⟨_, same⟩)
    · by_cases created : s.phase = .created
      · exact h.openOn created (sound host rfl)
      · exact stays ⟨_, openOn_of_opened created host⟩
    · exact tracked_close s

/-- **Any operations** keep track of the constraints. -/
theorem Tracked.runAll (h : s.Tracked deadline notes) {ops : List Operation}
    (wellFormed : ∀ op ∈ ops, op.WellFormed)
    (sound : ∀ host, Operation.openOn host ∈ ops → host.Sound deadline) :
    (Operation.runAll s ops).Tracked deadline (Operation.noteAll s notes ops) := by
  induction ops generalizing s notes with
  | nil => exact h
  | cons op ops ih =>
    refine ih (h.run (wellFormed op List.mem_cons_self) fun host same =>
      sound host (same ▸ List.mem_cons_self)) (fun op' hop => wellFormed op' ?_) fun host hop =>
      sound host ?_
    · exact List.mem_cons_of_mem _ hop
    · exact List.mem_cons_of_mem _ hop

end Session

/-- **A new session that is running** after some operations is in step with its
solver, and the solver has the constraints in force. -/
theorem exists_noted {launch : Launch} {options : SessionOptions} {ops : List Operation}
    (wellFormed : ∀ op ∈ ops, op.WellFormed)
    (sound : ∀ host, Operation.openOn host ∈ ops → host.Sound options.deadline)
    (running : (Operation.runAll { launch, options } ops).phase.isRunning = true) :
    ∃ scopes, (Operation.runAll { launch, options } ops).InStep options.deadline
        (Channel.Sound options.deadline) scopes ∧
      Noted (Operation.noteAll { launch, options } [[]] ops) scopes.all := by
  have fresh : Session.Tracked options.deadline [[]] { launch, options } := ⟨rfl, rfl, rfl, rfl⟩
  have tracked := fresh.runAll wellFormed sound
  obtain ⟨channel, phase⟩ := Session.exists_of_isRunning running
  unfold Session.Tracked at tracked
  rw [phase] at tracked
  exact tracked

end SmtDialogue
