import SmtDialogue.Proofs.Enumeration

/-!
# Iterations side by side

An enumerator can be iterated over any number of times, and iterations can be
advanced in any order, or left. They share the session and the solutions. An
iteration excludes the solution that it has handed out when it is advanced again and
not before, and so, as long as it is not, the search of another iteration may find
the same values again.

That is the only way in which values are found again: whatever is done with the
iterations, what is found is allowed by the constraints and different from all that
has been excluded by then (`Iterations.Regular`). So no values are found twice
exactly if none are found again while the solution that has them is *pending*, found
and not excluded. An iteration that is left for another leaves one solution pending.
-/

namespace SmtDialogue

open Smt

/-! ## Moves -/

/-- What happens to a solution. -/
inductive Mark where
  /-- It is found and handed out. -/
  | found (m : Model)
  /-- The clause that excludes it is asserted. -/
  | excluded (m : Model)

namespace Mark

/-- The solution that is found. -/
def found? : Mark → Option Model
  | found m => some m
  | excluded _ => none

/-- The solution that is excluded. -/
def excluded? : Mark → Option Model
  | found _ => none
  | excluded m => some m

variable {record : List Mark} {es fs : List Model}

theorem filterMap_found? : (record ++ (es.map excluded ++ fs.map found)).filterMap found? =
    record.filterMap found? ++ fs := by
  simp [List.filterMap_append, List.filterMap_map, Function.comp_def, found?]

theorem filterMap_excluded? : (record ++ (es.map excluded ++ fs.map found)).filterMap excluded? =
    record.filterMap excluded? ++ es := by
  simp [List.filterMap_append, List.filterMap_map, Function.comp_def, excluded?]

/-- What is found after something has been excluded is not like that, if none of what
is found now is like what has been excluded until now. -/
theorem pairwise_append {unlike : Model → Model → Prop}
    (before : record.Pairwise fun mark later =>
      ∀ m' ∈ mark.excluded?, ∀ m ∈ later.found?, unlike m' m)
    (now : ∀ m ∈ fs, ∀ m' ∈ record.filterMap excluded? ++ es, unlike m' m) :
    (record ++ (es.map excluded ++ fs.map found)).Pairwise fun mark later =>
      ∀ m' ∈ mark.excluded?, ∀ m ∈ later.found?, unlike m' m := by
  rw [List.pairwise_append, List.pairwise_append, List.pairwise_map, List.pairwise_map]
  refine ⟨before, ⟨List.pairwise_of_forall fun _ _ _ _ => nofun,
    List.pairwise_of_forall fun _ _ => nofun, ?_⟩, ?_⟩
  · intro mark here later there m' hm' m hm
    obtain ⟨e, he, rfl⟩ := List.mem_map.1 here
    obtain ⟨f, hf, rfl⟩ := List.mem_map.1 there
    cases hm'
    cases hm
    exact now _ hf _ (List.mem_append_right _ he)
  · intro mark here later there m' hm' m hm
    rcases List.mem_append.1 there with there | there
    · obtain ⟨e, -, rfl⟩ := List.mem_map.1 there
      cases hm
    · obtain ⟨f, hf, rfl⟩ := List.mem_map.1 there
      cases hm
      exact now _ hf _ (List.mem_append_left _ (List.mem_filterMap.2 ⟨mark, here, hm'⟩))

end Mark

/-- The solution that a turn hands out, if it does. -/
def Turn.finds (turn : Turn) : List Model :=
  match turn.outcome with
  | .ok (some m) => [m]
  | _ => []

/-- The solution that a turn excludes before it searches, if it does. -/
def Enumerator.excludes (n : Enumerator) (c : Cursor) (s : Session) : List Model :=
  match c with
  | .handedOut m =>
    if n.decisions.isEmpty then []
    else
      match (n.exclude m s).1 with
      | .ok () => [m]
      | .error _ => []
  | .fresh | .ended => []

theorem Enumerator.mem_excludes {n : Enumerator} {c : Cursor} {s : Session} {m : Model}
    (h : m ∈ n.excludes c s) : c = .handedOut m := by
  cases c with
  | fresh | ended => cases h
  | handedOut m' =>
    unfold excludes at h
    dsimp only at h
    split at h
    · cases h
    · split at h
      · rw [List.mem_singleton.1 h]
      · cases h

/-- **An enumerator and its iterations**, with the record of what has happened to the
solutions. -/
structure Iterations where
  /-- The enumerator. -/
  enumerator : Enumerator
  /-- Its session. -/
  session : Session
  /-- The places of the iterations, in the order in which they were begun. -/
  cursors : List Cursor := []
  /-- What has happened to solutions, oldest first. -/
  record : List Mark := []

/-- What can be done with the iterations of an enumerator. -/
inductive Move where
  /-- Another iteration is begun. -/
  | start
  /-- An iteration is advanced. -/
  | advance (i : Nat)

namespace Iterations

/-- One turn of the iteration with a number, from its place. -/
def turn (it : Iterations) (i : Nat) (c : Cursor) : Iterations :=
  let turn := it.enumerator.advance c it.session
  { enumerator := turn.enumerator
    session := turn.session
    cursors := it.cursors.set i turn.cursor
    record := it.record ++ ((it.enumerator.excludes c it.session).map Mark.excluded ++
      turn.finds.map Mark.found) }

/-- One move. An iteration that is never advanced again has been left. -/
def move (it : Iterations) : Move → Iterations
  | .start => { it with cursors := it.cursors ++ [.fresh] }
  | .advance i =>
    match it.cursors[i]? with
    | none => it
    | some c => it.turn i c

/-- Some moves, one after the other. -/
def run (it : Iterations) (moves : List Move) : Iterations :=
  moves.foldl move it

end Iterations

/-! ## Turns -/

namespace Session

variable {declared : SortTable} {constraints vs : List Expr} {excluded : List Model}
variable {deadline : Option Seconds} {scopes : Scopes} {notes : List (List Expr)} {s : Session}

/-- **A session between turns**: as long as it is running, the solver has the
constraints and a clause for each solution that has been excluded. -/
def Rests (declared : SortTable) (constraints vs : List Expr) (excluded : List Model)
    (s : Session) : Prop :=
  s.phase.isRunning = true →
    ∃ deadline scopes notes, Excluding declared constraints vs excluded deadline scopes notes s

/-- An operation that changes no scope when it goes through leaves a session at rest
when it does not. -/
theorem Leads.rests {α : Type} {n : Enumerator} {after : α → Scopes → Prop} {e : SessionError}
    {s' : Session}
    (h : Excluding declared constraints n.decisions excluded deadline scopes notes s)
    (leads : Leads deadline (Channel.Sound deadline) scopes after (.error e, s')) :
    s'.Rests declared constraints n.decisions excluded := by
  intro running
  rcases leads with next | ⟨c, -, -, failed, -⟩
  · exact ⟨deadline, scopes, notes, h.congr next⟩
  · rw [failed] at running
    cases running

end Session

namespace Enumerator

variable {declared : SortTable} {constraints : List Expr} {excluded : List Model}
variable {n : Enumerator} {c : Cursor} {s : Session}

/-- **What a turn does**, when some solutions have been excluded before it
searches. -/
structure Searched (declared : SortTable) (constraints : List Expr) (excluded : List Model)
    (n : Enumerator) (turn : Turn) : Prop where
  /-- The decision variables stay the same. -/
  decisions : turn.enumerator.decisions = n.decisions
  /-- What it finds is one more solution. -/
  solutions : turn.enumerator.solutions = n.solutions ++ turn.finds
  /-- What is still to be excluded is what it has found. -/
  handedOut : ∀ m, turn.cursor = .handedOut m → m ∈ turn.finds
  /-- What it finds is allowed by the constraints and has not been excluded. -/
  fresh : ∀ m ∈ turn.finds,
    (∃ ρ, Allows declared constraints n.decisions ρ ∧
      m.row n.decisions = Valuation.row ρ n.decisions) ∧
      ∀ m' ∈ excluded, m'.row n.decisions ≠ m.row n.decisions
  /-- When it finds that nothing is left, all that is allowed has been found. -/
  exhausts : turn.enumerator.exhausted = true → n.exhausted = true ∨
    ∀ ρ, Allows declared constraints n.decisions ρ →
      ∃ m ∈ n.solutions, m.row n.decisions = Valuation.row ρ n.decisions
  /-- The session is at rest after it. -/
  rests : turn.session.Rests declared constraints n.decisions excluded

/-- A turn that finds nothing and says nothing. -/
theorem Searched.idle {turn : Turn} (same : turn.enumerator.decisions = n.decisions ∧
      turn.enumerator.solutions = n.solutions ∧ turn.enumerator.exhausted = n.exhausted)
    (none : turn.finds = []) (ended : turn.cursor = .ended)
    (rests : turn.session.Rests declared constraints n.decisions excluded) :
    Searched declared constraints excluded n turn where
  decisions := same.1
  solutions := by rw [same.2.1, none, List.append_nil]
  handedOut m h := by
    rw [ended] at h
    cases h
  fresh m h := by
    rw [none] at h
    cases h
  exhausts h := .inl (same.2.2.symm.trans h)
  rests := rests

/-- A search that ends in an error leaves the enumerator as it is. -/
theorem seek_of_error {deadline : Option Seconds} {scopes : Scopes} {notes : List (List Expr)}
    (h : Excluding declared constraints n.decisions excluded deadline scopes notes s)
    {i : Interruption} (failed : (n.seek s).outcome = .error i) :
    ∃ s', n.seek s = n.interrupt s' i ∧ s'.Rests declared constraints n.decisions excluded := by
  have stable := Channel.stable_sound deadline
  unfold seek at failed ⊢
  split at failed
  · cases failed
  · next below =>
    rw [if_neg below]
    have asked := h.inStep.check stable
    rcases checked : Session.check s with ⟨e | status, s₁⟩
    · rw [checked] at asked failed
      cases failed
      exact ⟨s₁, rfl, asked.rests h⟩
    · rw [checked] at asked failed
      obtain ⟨_, rfl, inStep⟩ := asked
      have next := h.congr inStep
      cases status with
      | unsat => cases failed
      | unknown =>
        cases failed
        exact ⟨s₁, rfl, fun _ => ⟨_, _, _, next⟩⟩
      | sat =>
        dsimp only at failed ⊢
        have valued := inStep.model stable (some (.list (n.decisions.map .expr)))
        rcases asked : n.modelOf s₁ with ⟨e | m, s₂⟩
        · rw [show Session.model _ s₁ = _ from asked] at valued
          rw [asked] at failed
          cases failed
          exact ⟨s₂, rfl, valued.rests next⟩
        · rw [asked] at failed
          cases failed

/-- **A search**, when some of the solutions have been excluded. -/
theorem searched_seek (rests : s.Rests declared constraints n.decisions excluded)
    (used : ∀ x, x ∈ declared.names ↔ ∃ e ∈ constraints, x ∈ e.variableNames)
    (known : ∀ m ∈ excluded, m ∈ n.solutions) :
    Searched declared constraints excluded n (n.seek s) := by
  cases running : s.phase.isRunning with
  | false =>
    have refused : Session.check s =
        (.error (.notRunning "check satisfiability" s.name s.phase.word), s) :=
      Session.requireRunning_bind running _
    unfold seek
    split
    · exact .idle ⟨rfl, rfl, rfl⟩ rfl rfl rests
    · rw [refused]
      exact .idle ⟨rfl, rfl, rfl⟩ rfl rfl rests
  | true =>
    obtain ⟨deadline, scopes, notes, excluding⟩ := rests running
    cases outcome : (n.seek s).outcome with
    | error i =>
      obtain ⟨s', same, rests⟩ := seek_of_error excluding outcome
      rw [same]
      exact .idle ⟨rfl, rfl, rfl⟩ rfl rfl rests
    | ok found =>
      rcases excluding.seek used outcome with
        ⟨-, same⟩ | ⟨-, ⟨s', same, next, all⟩ | ⟨m, s', ρ, same, next, allows, row, fresh⟩⟩
      · rw [same]
        exact .idle ⟨rfl, rfl, rfl⟩ rfl rfl rests
      · rw [same]
        exact
          { decisions := rfl
            solutions := (List.append_nil _).symm
            handedOut := nofun
            fresh := nofun
            exhausts := fun _ => .inr fun ρ allows =>
              have ⟨m, here, row⟩ := all ρ allows
              ⟨m, known m here, row⟩
            rests := fun _ => ⟨_, _, _, next⟩ }
      · rw [same]
        exact
          { decisions := rfl
            solutions := rfl
            handedOut := fun m' here => by
              cases here
              exact List.mem_cons_self
            fresh := List.forall_mem_singleton.2 ⟨⟨ρ, allows, row⟩, fresh⟩
            exhausts := .inl
            rests := fun _ => ⟨_, _, _, next⟩ }

/-- **The clause that excludes a solution** is asserted, or the session is as much at
rest as before. -/
theorem exclude_cases (rests : s.Rests declared constraints n.decisions excluded)
    (used : ∀ x, x ∈ declared.names ↔ ∃ e ∈ constraints, x ∈ e.variableNames)
    (vars : ∀ v ∈ n.decisions, v.Built ∧ v.isVariable = true)
    (whole : ∀ v ∈ n.decisions, Text.BreakFree v.name) {m : Model} {ρ : Valuation}
    (allows : Allows declared constraints n.decisions ρ)
    (row : m.row n.decisions = Valuation.row ρ n.decisions) :
    (∃ s', n.exclude m s = (.ok (), s') ∧
      s'.Rests declared constraints n.decisions (excluded ++ [m])) ∨
    ∃ e s', n.exclude m s = (.error e, s') ∧
      s'.Rests declared constraints n.decisions excluded := by
  have fits := ((allows_iff used).1 allows).1
  cases made : Enumeration.blockModel m n.decisions with
  | error cause => exact .inr ⟨cause, s, by rw [exclude, made]; rfl, rests⟩
  | ok clause =>
    have same : n.exclude m s = Session.assert clause s := by rw [exclude, made]
    cases running : s.phase.isRunning with
    | false => exact .inr ⟨_, s, same.trans (Session.requireRunning_bind running _), rests⟩
    | true =>
      obtain ⟨deadline, scopes, notes, excluding⟩ := rests running
      rcases blocked : n.exclude m s with ⟨e | ⟨⟩, s'⟩
      · have blocks := Enumeration.blocks_of_blockModel made vars
        have asserted := excluding.inStep.assert (Channel.stable_sound deadline) blocks.built
          fun x hx => by
            obtain ⟨v, hv, rfl⟩ := blocks.names x hx
            exact whole v hv
        rw [← same, blocked] at asserted
        exact .inr ⟨e, s', rfl, asserted.rests excluding⟩
      · obtain ⟨scopes', notes', next⟩ := excluding.exclude vars whole fits row blocked
        exact .inl ⟨s', rfl, fun _ => ⟨_, _, _, next⟩⟩

/-- **A turn** excludes the solution handed out before, if it does, and then
searches. -/
theorem searched_advance (rests : s.Rests declared constraints n.decisions excluded)
    (used : ∀ x, x ∈ declared.names ↔ ∃ e ∈ constraints, x ∈ e.variableNames)
    (vars : ∀ v ∈ n.decisions, v.Built ∧ v.isVariable = true)
    (whole : ∀ v ∈ n.decisions, Text.BreakFree v.name)
    (known : ∀ m ∈ excluded, m ∈ n.solutions)
    (allowed : ∀ m ∈ n.solutions, ∃ ρ, Allows declared constraints n.decisions ρ ∧
      m.row n.decisions = Valuation.row ρ n.decisions)
    (handedOut : ∀ m, c = .handedOut m → m ∈ n.solutions) :
    Searched declared constraints (excluded ++ n.excludes c s) n (n.advance c s) := by
  cases c with
  | ended =>
    rw [excludes, List.append_nil]
    exact .idle ⟨rfl, rfl, rfl⟩ rfl rfl rests
  | fresh =>
    rw [excludes, List.append_nil]
    exact searched_seek rests used known
  | handedOut m =>
    have here := handedOut m rfl
    unfold excludes advance
    dsimp only
    by_cases bare : n.decisions = []
    · -- without decision variables the one assignment has been found
      rw [if_pos (List.isEmpty_iff.2 bare), if_pos (List.isEmpty_iff.2 bare), List.append_nil]
      exact
        { decisions := rfl
          solutions := (List.append_nil _).symm
          handedOut := nofun
          fresh := nofun
          exhausts := fun _ => .inr fun ρ _ => ⟨m, here, by rw [bare]; rfl⟩
          rests := rests }
    · rw [if_neg (mt List.isEmpty_iff.1 bare), if_neg (mt List.isEmpty_iff.1 bare)]
      obtain ⟨ρ, allows, row⟩ := allowed m here
      rcases exclude_cases rests used vars whole allows row with
        ⟨s', blocked, rests'⟩ | ⟨e, s', blocked, rests'⟩
      · rw [blocked]
        refine searched_seek rests' used ?_
        exact List.forall_mem_append.2 ⟨known, List.forall_mem_singleton.2 here⟩
      · rw [blocked]
        dsimp only
        rw [List.append_nil]
        exact .idle ⟨rfl, rfl, rfl⟩ rfl rfl rests'

end Enumerator

/-! ## Runs -/

/-- Pairs in a list, by the places of their later members. -/
theorem pairwise_iff_split {α : Type} {R : α → α → Prop} {l : List α} :
    l.Pairwise R ↔ ∀ earlier x later, l = earlier ++ x :: later → ∀ y ∈ earlier, R y x := by
  constructor
  · rintro pairs earlier x later rfl y here
    exact (List.pairwise_append.1 pairs).2.2 y here x List.mem_cons_self
  · intro pairs
    induction l with
    | nil => exact .nil
    | cons y l ih =>
      refine List.pairwise_cons.2 ⟨fun x here => ?_, ih fun earlier x later split z hz => ?_⟩
      · obtain ⟨earlier, later, rfl⟩ := List.append_of_mem here
        exact pairs (y :: earlier) x later rfl y List.mem_cons_self
      · exact pairs (y :: earlier) x later (by rw [split]; rfl) z (List.mem_cons_of_mem _ hz)

namespace Iterations

variable {declared : SortTable} {constraints vs : List Expr} {it : Iterations}

/-- **What holds of iterations side by side**, whatever is done with them. -/
structure Regular (declared : SortTable) (constraints vs : List Expr) (it : Iterations) :
    Prop where
  /-- The decision variables stay the same. -/
  decisions : it.enumerator.decisions = vs
  /-- The solutions are those that have been found. -/
  solutions : it.enumerator.solutions = it.record.filterMap Mark.found?
  /-- Those still to be excluded have been found. -/
  handedOut : ∀ m, .handedOut m ∈ it.cursors → m ∈ it.enumerator.solutions
  /-- Those that have been excluded have been found. -/
  known : ∀ m ∈ it.record.filterMap Mark.excluded?, m ∈ it.enumerator.solutions
  /-- What has been found is allowed by the constraints. -/
  allowed : ∀ m ∈ it.enumerator.solutions, ∃ ρ, Allows declared constraints vs ρ ∧
    m.row vs = Valuation.row ρ vs
  /-- What is found differs from all that has been excluded before. -/
  fresh : it.record.Pairwise fun mark later =>
    ∀ m' ∈ mark.excluded?, ∀ m ∈ later.found?, m'.row vs ≠ m.row vs
  /-- When nothing is left, all that is allowed has been found. -/
  complete : it.enumerator.exhausted = true → ∀ ρ, Allows declared constraints vs ρ →
    ∃ m ∈ it.enumerator.solutions, m.row vs = Valuation.row ρ vs
  /-- The solver has the constraints and the clauses. -/
  rests : it.session.Rests declared constraints vs (it.record.filterMap Mark.excluded?)

section Moves

variable (used : ∀ x, x ∈ declared.names ↔ ∃ e ∈ constraints, x ∈ e.variableNames)
variable (vars : ∀ v ∈ vs, v.Built ∧ v.isVariable = true)
variable (whole : ∀ v ∈ vs, Text.BreakFree v.name)
include used vars whole

/-- **One turn** of an iteration keeps all of them regular. -/
theorem Regular.turn (h : it.Regular declared constraints vs) {i : Nat} {c : Cursor}
    (place : it.cursors[i]? = some c) : (it.turn i c).Regular declared constraints vs := by
  obtain rfl := h.decisions
  have handedOut (m : Model) (same : c = .handedOut m) : m ∈ it.enumerator.solutions :=
    h.handedOut m (same ▸ List.mem_of_getElem? place)
  have turn := Enumerator.searched_advance h.rests used vars whole h.known h.allowed handedOut
  have solutions : (it.turn i c).enumerator.solutions = it.enumerator.solutions ++
    (it.enumerator.advance c it.session).finds := turn.solutions
  have found : (it.turn i c).record.filterMap Mark.found? = _ := Mark.filterMap_found?
  have excluded : (it.turn i c).record.filterMap Mark.excluded? = _ := Mark.filterMap_excluded?
  exact
    { decisions := turn.decisions
      solutions := by rw [solutions, found, h.solutions]
      handedOut := fun m here => by
        rw [solutions]
        rcases List.mem_or_eq_of_mem_set here with here | same
        · exact List.mem_append_left _ (h.handedOut m here)
        · exact List.mem_append_right _ (turn.handedOut m same.symm)
      known := by
        rw [solutions, excluded]
        refine fun m here => List.mem_append_left _ ?_
        rcases List.mem_append.1 here with here | here
        · exact h.known m here
        · exact handedOut m (Enumerator.mem_excludes here)
      allowed := by
        rw [solutions]
        exact List.forall_mem_append.2 ⟨h.allowed, fun m here => (turn.fresh m here).1⟩
      fresh := Mark.pairwise_append h.fresh fun m here => (turn.fresh m here).2
      complete := fun done ρ allows => by
        obtain ⟨m, here, row⟩ := (turn.exhausts done).elim
          (fun before => h.complete before ρ allows) fun all => all ρ allows
        exact ⟨m, solutions ▸ List.mem_append_left _ here, row⟩
      rests := by
        rw [excluded]
        exact turn.rests }

/-- **One move** keeps iterations regular. -/
theorem Regular.move (h : it.Regular declared constraints vs) (m : Move) :
    (it.move m).Regular declared constraints vs := by
  cases m with
  | start =>
    refine ⟨h.decisions, h.solutions, fun m here => ?_, h.known, h.allowed, h.fresh, h.complete,
      h.rests⟩
    rcases List.mem_append.1 here with here | here
    · exact h.handedOut m here
    · cases List.mem_singleton.1 here
  | advance i =>
    show (match it.cursors[i]? with
      | none => it
      | some c => it.turn i c).Regular declared constraints vs
    cases place : it.cursors[i]? with
    | none => exact h
    | some c => exact h.turn used vars whole place

/-- **Any moves** keep iterations regular. -/
theorem Regular.run (h : it.Regular declared constraints vs) (moves : List Move) :
    (it.run moves).Regular declared constraints vs := by
  induction moves generalizing it with
  | nil => exact h
  | cons m moves ih => exact ih (h.move used vars whole m)

end Moves

/-- **A solution is pending** when it has been found, and none with its values has
been excluded. -/
def IsPending (vs : List Expr) (record : List Mark) (m : Model) : Prop :=
  .found m ∈ record ∧ ∀ m', .excluded m' ∈ record → m'.row vs ≠ m.row vs

/-- What is found differs from what has been excluded before it. -/
theorem Regular.ne_of_excluded (h : it.Regular declared constraints vs) {earlier later : List Mark}
    {m m' : Model} (split : it.record = earlier ++ .found m :: later)
    (before : .excluded m' ∈ earlier) : m'.row vs ≠ m.row vs := by
  have fresh := h.fresh
  rw [split, List.pairwise_append] at fresh
  exact fresh.2.2 _ before _ List.mem_cons_self m' rfl m rfl

/-- **Values are found again only while they are pending.** -/
theorem Regular.nodup_iff (h : it.Regular declared constraints vs) :
    (it.enumerator.solutions.map (·.row vs)).Nodup ↔
      ∀ earlier m later, it.record = earlier ++ .found m :: later →
        ∀ m', IsPending vs earlier m' → m'.row vs ≠ m.row vs := by
  rw [h.solutions, List.Nodup, List.pairwise_map, List.pairwise_filterMap, pairwise_iff_split]
  constructor
  · intro distinct earlier m later split m' pending
    exact distinct earlier (.found m) later split (.found m') pending.1 m' rfl m rfl
  · intro distinct earlier mark later split mark' before m' hm' m hm same
    obtain rfl : mark' = .found m' := by
      cases mark' <;> cases hm'
      rfl
    obtain rfl : mark = .found m := by
      cases mark <;> cases hm
      rfl
    refine distinct earlier m later split m' ⟨before, fun m'' excluded => ?_⟩ same
    rw [same]
    exact h.ne_of_excluded split excluded

end Iterations

namespace Enumerator

/-- **Values are found again only while they are pending.** Whatever has been done
with a session that is running with a sound solver, and in whatever order iterations
of an enumerator on it are begun, advanced and left: its solutions are those that the
record has as found, each is allowed by the constraints in force at the start, and
when the enumerator is exhausted all that they allow has been found. A solution that
has the values of one found before is found while that one is pending. So no two
solutions agree on the decision variables exactly if none is found that agrees with
one that is pending then. -/
theorem nodup_solutions_iff {launch : Launch} {options : SessionOptions} {ops : List Operation}
    (wellFormed : ∀ op ∈ ops, op.WellFormed)
    (sound : ∀ host, Operation.openOn host ∈ ops → host.Sound options.deadline)
    (running : (Operation.runAll { launch, options } ops).phase.isRunning = true)
    {operand : Operand} {most : Option Int} {n : Enumerator}
    (created : create operand most = .ok n)
    (vars : ∀ v ∈ n.decisions, v.Built ∧ Text.BreakFree v.name) (moves : List Move) :
    let s := Operation.runAll { launch, options } ops
    let allows := Allows s.declared (Operation.constraints { launch, options } ops) n.decisions
    let it := Iterations.run { enumerator := n, session := s } moves
    it.enumerator.solutions = it.record.filterMap Mark.found? ∧
      (∀ m ∈ it.enumerator.solutions, ∃ ρ, allows ρ ∧
        m.row n.decisions = Valuation.row ρ n.decisions) ∧
      (it.enumerator.exhausted = true → ∀ ρ, allows ρ →
        ∃ m ∈ it.enumerator.solutions, m.row n.decisions = Valuation.row ρ n.decisions) ∧
      (∀ earlier m later, it.record = earlier ++ .found m :: later →
        ∀ m', .found m' ∈ earlier → m'.row n.decisions = m.row n.decisions →
          Iterations.IsPending n.decisions earlier m') ∧
      ((it.enumerator.solutions.map (·.row n.decisions)).Nodup ↔
        ∀ earlier m later, it.record = earlier ++ .found m :: later →
          ∀ m', Iterations.IsPending n.decisions earlier m' →
            m'.row n.decisions ≠ m.row n.decisions) := by
  intro s allows it
  obtain ⟨scopes, inStep, noted⟩ := exists_noted wellFormed sound running
  obtain ⟨named, -, none, exhausted, -⟩ := eq_of_create created
  have used : ∀ x, x ∈ s.declared.names ↔
      ∃ e ∈ Operation.constraints { launch, options } ops, x ∈ e.variableNames := fun x => by
    rw [show s.declared = scopes.live from inStep.live.symm]
    exact noted.mem_names_iff
  have start : Iterations.Regular s.declared (Operation.constraints { launch, options } ops)
      n.decisions { enumerator := n, session := s } :=
    { decisions := rfl
      solutions := none
      handedOut := nofun
      known := nofun
      allowed := by
        show ∀ m ∈ n.solutions, _
        rw [none]
        nofun
      fresh := .nil
      complete := fun done => nomatch exhausted.symm.trans done
      rests := fun _ => ⟨options.deadline, scopes, _, .start inStep noted _⟩ }
  have regular := start.run used (fun v hv => ⟨(vars v hv).1, named v hv⟩)
    (fun v hv => (vars v hv).2) moves
  refine ⟨regular.solutions, regular.allowed, regular.complete, ?_, regular.nodup_iff⟩
  intro earlier m later split m' before same
  refine ⟨before, fun m'' excluded => ?_⟩
  rw [same]
  exact regular.ne_of_excluded split excluded

/-- A session with a sound solver and no constraint. -/
def unconstrained : List Operation :=
  [.openOn { muteHost with binding := guessing }]

theorem sound_unconstrained : (∀ op ∈ unconstrained, op.WellFormed) ∧
    ∀ host, Operation.openOn host ∈ unconstrained → host.Sound none := by
  refine ⟨List.forall_mem_singleton.2 trivial, fun host here => ?_⟩
  cases List.mem_singleton.1 here
  exact sound_guessingHost none

/-- An iteration that is left after its first solution, and another one. -/
def restarting : List Move := [.start, .advance 0, .start, .advance 1]

theorem created_overUnused : create (.expr (.var "y" (some .bool))) none = .ok overUnused ∧
    ∀ v ∈ overUnused.decisions, v.Built ∧ Text.BreakFree v.name :=
  ⟨rfl, List.forall_mem_singleton.2 ⟨.var _ _ _ _, by decide⟩⟩

theorem nodup_solutions_iff_restarting :
    let s := Operation.runAll { launch := .inProcess, options := {} } unconstrained
    let it := Iterations.run { enumerator := overUnused, session := s } restarting
    (it.enumerator.solutions.map (·.row overUnused.decisions)).Nodup ↔
      ∀ earlier m later, it.record = earlier ++ .found m :: later →
        ∀ m', Iterations.IsPending overUnused.decisions earlier m' →
          m'.row overUnused.decisions ≠ m.row overUnused.decisions := by
  intro s it
  have running : s.phase.isRunning = true := by decide +kernel
  have law := nodup_solutions_iff sound_unconstrained.1 sound_unconstrained.2 running
    created_overUnused.1 created_overUnused.2 restarting
  exact law.2.2.2.2

/-- **The solution of an iteration that is left is found again** by the next one:
no clause excludes it. -/
theorem repeats_when_restarted :
    let s := Operation.runAll { launch := .inProcess, options := {} } unconstrained
    let it := Iterations.run { enumerator := overUnused, session := s } restarting
    (∀ host, Operation.openOn host ∈ unconstrained → host.Sound none) ∧ s.phase.isRunning = true ∧
      create (.expr (.var "y" (some .bool))) none = .ok overUnused ∧ overUnused.decisions ≠ [] ∧
      (∀ v ∈ overUnused.decisions, v.Built ∧ Text.BreakFree v.name) ∧
      it.enumerator.solutions = [[("y", .bool false)], [("y", .bool false)]] ∧
      ¬ (it.enumerator.solutions.map (·.row overUnused.decisions)).Nodup := by
  intro s it
  have solutions : it.enumerator.solutions = [[("y", .bool false)], [("y", .bool false)]] := by
    decide +kernel
  refine ⟨sound_unconstrained.2, by decide +kernel, created_overUnused.1, List.cons_ne_nil _ _,
    created_overUnused.2, solutions, ?_⟩
  rw [solutions]
  decide

end Enumerator

end SmtDialogue
