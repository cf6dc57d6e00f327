import Mathlib.Data.Set.Card
import SmtDialogue.Proofs.Excluding

/-!
# Enumerations are sound, free of duplicates, and complete

An enumeration with a sound solver hands out assignments of its decision
variables that the constraints allow, each at most once, and when it says that
nothing is left, then it has handed out all of them (`Enumerator.Correct`). It
does say so after one more turn than there are assignments, unless its limit
comes first (`Enumerator.Ends`).

One turn preserves the `Invariant`: an enumeration that goes on has handed out a
solution at each turn, and all but the last have been excluded.
-/

namespace SmtDialogue

open Smt

/-! ## Turns -/

namespace Enumerator

/-- Some turns of an iteration, none of which ends in an error. -/
def turns (k : Nat) (n : Enumerator) (c : Cursor) (s : Session) :
    Option (Enumerator × Cursor × Session) :=
  match k with
  | 0 => some (n, c, s)
  | k + 1 =>
    let turn := n.advance c s
    match turn.outcome with
    | .ok _ => turns k turn.enumerator turn.cursor turn.session
    | .error _ => none

/-- **An enumeration is correct**: its solutions are assignments that the
constraints allow, no two of them are the same, and when it is exhausted there
are no others. -/
structure Correct (declared : SortTable) (constraints vs : List Expr) (n : Enumerator) : Prop where
  /-- Each solution is the part of an assignment that the constraints allow. -/
  sound : ∀ m ∈ n.solutions, ∃ ρ, Allows declared constraints vs ρ ∧ m.row vs = Valuation.row ρ vs
  /-- No two solutions have the same values. -/
  distinct : (n.solutions.map (·.row vs)).Nodup
  /-- When nothing is left, each assignment has been found once. -/
  complete : n.exhausted = true → ∀ ρ, Allows declared constraints vs ρ →
    (n.solutions.map (·.row vs)).count (Valuation.row ρ vs) = 1

/-- **An enumeration ends**: after more turns than there are assignments it is
exhausted with all of them, and after more turns than the limit it has stopped
there, whichever comes first. The empty assignment alone is all there is without
decision variables, which counts as exhausted at any limit. -/
structure Ends (rows : Set (List (Option Value))) (vs : List Expr) (k : Nat) (n : Enumerator)
    (c : Cursor) : Prop where
  /-- It finds all assignments when there are fewer than the limit. -/
  exhausts : ∀ N : Nat, rows.encard = N → N < k → (∀ L, n.limit = some L → N < L) →
    c = .ended ∧ n.exhausted = true ∧ n.limitReached = false ∧ n.solutions.length = N
  /-- It stops at the limit when there are as many assignments. -/
  stops : ∀ L, n.limit = some L → L < k → L ≤ rows.encard →
    c = .ended ∧ n.solutions.length = L ∧
      (vs ≠ [] → n.exhausted = false ∧ n.limitReached = true)

theorem atLimit_iff {n : Enumerator} :
    n.atLimit = true ↔ ∃ L, n.limit = some L ∧ L ≤ n.solutions.length := by
  cases limit : n.limit <;> simp [atLimit, limit]

/-- **The enumeration goes on**, after some turns each of which has handed out a
solution. -/
structure Going (declared : SortTable) (constraints vs : List Expr) (k : Nat)
    (excluded : List Model) (n : Enumerator) (s : Session) : Prop where
  /-- Something may be left. -/
  open_ : n.exhausted = false ∧ n.limitReached = false
  /-- Each turn has handed out a solution. -/
  count : n.solutions.length = k
  /-- Some of the solutions have been excluded. -/
  excluding : ∃ deadline scopes notes,
    Excluding declared constraints vs excluded deadline scopes notes s

/-- **The enumeration has ended**, because nothing was left or at its limit. -/
def Finished (n : Enumerator) : Prop :=
  n.exhausted = true ∧ n.limitReached = false ∧ (n.decisions = [] ∨ n.atLimit = false) ∨
    n.exhausted = false ∧ n.limitReached = true ∧ n.atLimit = true

/-- What holds of an enumeration by the place of its iteration, after some
turns. -/
def Stands (declared : SortTable) (constraints vs : List Expr) (k : Nat) (n : Enumerator) :
    Cursor → Session → Prop
  | .fresh, s => n.solutions = [] ∧ n.Going declared constraints vs k [] s
  | .handedOut m, s => ∃ excluded, n.solutions = excluded ++ [m] ∧
      n.Going declared constraints vs k excluded s
  | .ended, _ => n.Finished

/-- **What every turn preserves.** -/
structure Invariant (declared : SortTable) (constraints vs : List Expr) (limit : Option Nat)
    (k : Nat) (n : Enumerator) (c : Cursor) (s : Session) : Prop where
  /-- The decision variables stay the same. -/
  decisions_eq : n.decisions = vs
  /-- The limit stays the same. -/
  limit_eq : n.limit = limit
  /-- There are no more solutions than the limit. -/
  bounded : ∀ L, limit = some L → n.solutions.length ≤ L
  /-- The enumeration is correct. -/
  correct : n.Correct declared constraints vs
  /-- The solver has what it must have. -/
  place : n.Stands declared constraints vs k c s

variable {declared : SortTable} {constraints vs : List Expr} {limit : Option Nat} {k : Nat}
variable {n : Enumerator} {c : Cursor} {s : Session}

/-- Nothing that has been found is lost at the end. -/
theorem Invariant.stop (h : n.Invariant declared constraints vs limit k c s)
    (exhausted limitReached : Bool)
    (all : exhausted = true → ∀ ρ, Allows declared constraints vs ρ →
      ∃ m ∈ n.solutions, m.row vs = Valuation.row ρ vs)
    (why : ({ n with exhausted, limitReached } : Enumerator).Finished) (j : Nat) (s' : Session) :
    ({ n with exhausted, limitReached } : Enumerator).Invariant declared constraints vs limit j
      .ended s' where
  decisions_eq := h.decisions_eq
  limit_eq := h.limit_eq
  bounded := h.bounded
  correct :=
    { sound := h.correct.sound
      distinct := h.correct.distinct
      complete := fun done ρ allows =>
        List.count_eq_one_of_mem h.correct.distinct (List.mem_map.2 (all done ρ allows)) }
  place := why

/-- **A search** after all solutions have been excluded. -/
theorem Invariant.seek (h : n.Invariant declared constraints vs limit k c s)
    (used : ∀ x, x ∈ declared.names ↔ ∃ e ∈ constraints, x ∈ e.variableNames) {s' : Session}
    (going : n.Going declared constraints vs k n.solutions s') {found : Option Model}
    (ok : (n.seek s').outcome = .ok found) :
    (n.seek s').enumerator.Invariant declared constraints vs limit (k + 1) (n.seek s').cursor
      (n.seek s').session := by
  obtain ⟨deadline, scopes, notes, excluding⟩ := going.excluding
  obtain ⟨exhausted, limitReached⟩ := going.open_
  obtain rfl := h.decisions_eq
  rcases excluding.seek used ok with
    ⟨atLimit, same⟩ | ⟨below, ⟨s₁, same, -, all⟩ | ⟨m, s₁, ρ, same, next, allows, row, fresh⟩⟩
  · rw [same]
    have stopped := h.stop n.exhausted true (fun done => nomatch exhausted.symm.trans done)
      (.inr ⟨exhausted, rfl, atLimit⟩) (k + 1) s'
    exact stopped
  · rw [same]
    have stopped := h.stop true n.limitReached (fun _ => all)
      (.inl ⟨rfl, limitReached, .inr below⟩) (k + 1) s₁
    exact stopped
  · rw [same]
    have length : (n.solutions ++ [m]).length = n.solutions.length + 1 := List.length_append
    exact
      { decisions_eq := rfl
        limit_eq := h.limit_eq
        bounded := fun L hL => by
          have less : ¬ L ≤ n.solutions.length := fun most =>
            Bool.false_ne_true (below.symm.trans (atLimit_iff.2 ⟨L, h.limit_eq.trans hL, most⟩))
          show (n.solutions ++ [m]).length ≤ L
          omega
        correct :=
          { sound := List.forall_mem_append.2
              ⟨h.correct.sound, List.forall_mem_singleton.2 ⟨ρ, allows, row⟩⟩
            distinct := by
              show ((n.solutions ++ [m]).map _).Nodup
              rw [List.map_append, List.map_singleton, List.nodup_append]
              refine ⟨h.correct.distinct, List.pairwise_singleton .., ?_⟩
              rintro _ old _ new rfl
              obtain ⟨m', hm', same'⟩ := List.mem_map.1 old
              exact fresh m' hm' (same'.trans (List.mem_singleton.1 new))
            complete := fun done => nomatch exhausted.symm.trans done }
        place := ⟨n.solutions, rfl, ⟨exhausted, limitReached⟩, length.trans (by rw [going.count]),
          deadline, scopes, notes, next⟩ }

/-- **One turn** that raises no error. -/
theorem Invariant.advance (h : n.Invariant declared constraints vs limit k c s)
    (used : ∀ x, x ∈ declared.names ↔ ∃ e ∈ constraints, x ∈ e.variableNames)
    (vars : ∀ v ∈ vs, v.Built ∧ v.isVariable = true) (whole : ∀ v ∈ vs, Text.BreakFree v.name)
    {found : Option Model} (ok : (n.advance c s).outcome = .ok found) :
    (n.advance c s).enumerator.Invariant declared constraints vs limit (k + 1)
      (n.advance c s).cursor (n.advance c s).session := by
  have place := h.place
  cases c with
  | ended => exact ⟨h.decisions_eq, h.limit_eq, h.bounded, h.correct, place⟩
  | fresh =>
    obtain ⟨none, going⟩ := place
    exact h.seek used (none ▸ going) ok
  | handedOut m =>
    obtain ⟨excluded, found, going⟩ := place
    obtain ⟨exhausted, limitReached⟩ := going.open_
    have last : m ∈ n.solutions := found ▸ List.mem_append_right _ List.mem_cons_self
    unfold Enumerator.advance at ok ⊢
    dsimp only at ok ⊢
    by_cases bare : n.decisions = []
    · -- the empty assignment has been found, and there is no other
      rw [if_pos (List.isEmpty_iff.2 bare)]
      have stopped := h.stop true n.limitReached
        (fun _ ρ _ => ⟨m, last, by rw [← h.decisions_eq, bare]; rfl⟩)
        (.inl ⟨rfl, limitReached, .inl bare⟩) (k + 1) s
      exact stopped
    · rw [if_neg (mt List.isEmpty_iff.1 bare)] at ok ⊢
      rcases blocked : n.exclude m s with ⟨e | ⟨⟩, s₁⟩
      · rw [blocked] at ok
        cases ok
      rw [blocked] at ok
      obtain rfl := h.decisions_eq
      obtain ⟨ρ, allows, row⟩ := h.correct.sound m last
      obtain ⟨deadline, scopes, notes, excluding⟩ := going.excluding
      obtain ⟨scopes', notes', next⟩ :=
        excluding.exclude vars whole ((allows_iff used).1 allows).1 row blocked
      exact h.seek used ⟨going.open_, going.count, deadline, scopes', notes', found ▸ next⟩ ok

/-- **Any turns** that raise no error. -/
theorem Invariant.turns (h : n.Invariant declared constraints vs limit k c s)
    (used : ∀ x, x ∈ declared.names ↔ ∃ e ∈ constraints, x ∈ e.variableNames)
    (vars : ∀ v ∈ vs, v.Built ∧ v.isVariable = true) (whole : ∀ v ∈ vs, Text.BreakFree v.name)
    {more : Nat} {n' : Enumerator} {c' : Cursor} {s' : Session}
    (run : n.turns more c s = some (n', c', s')) :
    n'.Invariant declared constraints vs limit (k + more) c' s' := by
  induction more generalizing n c s k with
  | zero =>
    cases run
    exact h
  | succ more ih =>
    unfold Enumerator.turns at run
    dsimp only at run
    cases outcome : (n.advance c s).outcome with
    | error e =>
      rw [outcome] at run
      cases run
    | ok found =>
      rw [outcome] at run
      rw [Nat.add_comm more, ← Nat.add_assoc]
      exact ih (h.advance used vars whole outcome) run

/-! ## How an enumeration ends -/

/-- The values of the solutions, as a set. -/
theorem encard_rows (h : n.Correct declared constraints vs) :
    {row | row ∈ n.solutions.map (·.row vs)}.encard = n.solutions.length := by
  rw [← List.coe_toFinset, Set.encard_coe_eq_coe_finsetCard,
    List.toFinset_card_of_nodup h.distinct, List.length_map]

/-- There are no more solutions than assignments. -/
theorem Correct.length_le (h : n.Correct declared constraints vs) :
    n.solutions.length ≤ (allowedRows declared constraints vs).encard := by
  rw [← encard_rows h]
  refine Set.encard_le_encard fun row hrow => ?_
  obtain ⟨m, hm, rfl⟩ := List.mem_map.1 hrow
  obtain ⟨ρ, allows, same⟩ := h.sound m hm
  exact ⟨ρ, allows, same.symm⟩

/-- When nothing is left there are as many solutions as assignments. -/
theorem Correct.length_eq (h : n.Correct declared constraints vs) (done : n.exhausted = true) :
    n.solutions.length = (allowedRows declared constraints vs).encard := by
  refine le_antisymm h.length_le ?_
  rw [← encard_rows h]
  refine Set.encard_le_encard ?_
  rintro _ ⟨ρ, allows, rfl⟩
  exact List.count_pos_iff.1 (by rw [h.complete done ρ allows]; exact Nat.one_pos)

/-- An iteration that has not ended has handed out a solution at each turn. -/
theorem Invariant.ended_or_length (h : n.Invariant declared constraints vs limit k c s) :
    c = .ended ∧ n.Finished ∨ n.solutions.length = k := by
  have place := h.place
  cases c with
  | ended => exact .inl ⟨rfl, place⟩
  | fresh => exact .inr place.2.count
  | handedOut m =>
    obtain ⟨excluded, found, going⟩ := place
    exact .inr going.count

/-- **An enumeration ends** when nothing is left or at its limit. -/
theorem Invariant.ends (h : n.Invariant declared constraints vs limit k c s) :
    n.Ends (allowedRows declared constraints vs) vs k c where
  exhausts := fun N all early below => by
    have most : n.solutions.length ≤ N := by
      have most := h.correct.length_le
      rw [all] at most
      exact_mod_cast most
    rcases h.ended_or_length with ⟨ended, finished⟩ | length
    · rcases finished with ⟨done, unlimited, -⟩ | ⟨-, -, atLimit⟩
      · have length := h.correct.length_eq done
        rw [all] at length
        exact ⟨ended, done, unlimited, by exact_mod_cast length⟩
      · obtain ⟨L, hL, reached⟩ := atLimit_iff.1 atLimit
        have := below L hL
        omega
    · omega
  stops := fun L hL early some => by
    have most := h.bounded L (h.limit_eq.symm.trans hL)
    rcases h.ended_or_length with ⟨ended, finished⟩ | length
    · rcases finished with ⟨done, -, why⟩ | ⟨unfinished, limited, atLimit⟩
      · have length := h.correct.length_eq done
        rw [← length] at some
        have enough : L ≤ n.solutions.length := by exact_mod_cast some
        have reached := atLimit_iff.2 ⟨L, hL, enough⟩
        refine ⟨ended, by omega, fun more => ?_⟩
        rcases why with none | below
        · exact absurd (h.decisions_eq.symm.trans none) more
        · exact absurd (below.symm.trans reached) Bool.false_ne_true
      · obtain ⟨L', hL', reached⟩ := atLimit_iff.1 atLimit
        cases hL.symm.trans hL'
        exact ⟨ended, by omega, fun _ => ⟨unfinished, limited⟩⟩
    · omega

/-! ## The enumeration of a session -/

/-- A new enumeration. -/
theorem Invariant.start {deadline : Option Seconds} {scopes : Scopes} {notes : List (List Expr)}
    (inStep : s.InStep deadline (Channel.Sound deadline) scopes) (noted : Noted notes scopes.all)
    (none : n.solutions = []) (open_ : n.exhausted = false ∧ n.limitReached = false) :
    n.Invariant s.declared notes.flatten n.decisions n.limit 0 .fresh s where
  decisions_eq := rfl
  limit_eq := rfl
  bounded := fun L _ => by
    rw [none]
    exact Nat.zero_le L
  correct :=
    { sound := by rw [none]; nofun
      distinct := by rw [none]; exact List.nodup_nil
      complete := fun done => nomatch open_.1.symm.trans done }
  place := ⟨none, open_, by rw [none]; rfl, deadline, scopes, notes, .start inStep noted _⟩

end Enumerator

/-! ## A sound solver -/

/-- A truth value that makes all assertions hold when every constant has it. -/
def guess (scopes : Scopes) : Option Bool :=
  [false, true].find? fun b =>
    (scopes.live.all fun entry => entry.2 == .bool) &&
      scopes.asserted.all fun t => t.eval (fun _ => .bool b) == some (.bool true)

/-- Whether one term is the negation of the other, a constant. -/
def denies : Term → Term → Bool
  | .symbol x, .app "not" [.symbol y] => x == y
  | _, _ => false

/-- A solver that tries one truth value for all constants, and knows that a
constant and its negation exclude each other. -/
def guessing : Binding where
  verdict h :=
    match Scopes.replayCalls h.toList with
    | none => .unknown "incomplete"
    | some scopes =>
      if (guess scopes).isSome then .sat
      else if scopes.asserted.any fun t => scopes.asserted.any (denies t) then .unsat
      else .unknown "incomplete"
  value h _ _ := .plain (.bool ((Scopes.replayCalls h.toList >>= guess).getD false))
  rejection _ _ := none

theorem models_of_guess {scopes : Scopes} {b : Bool} (h : guess scopes = some b) :
    scopes.Models fun _ => .bool b := by
  have holds := List.find?_some h
  rw [Bool.and_eq_true, List.all_eq_true, List.all_eq_true] at holds
  refine ⟨fun x sort found => ?_, fun t ht => beq_iff_eq.1 (holds.2 t ht)⟩
  exact (beq_iff_eq.1 (holds.1 _ (SortTable.mem_of_sortOf? found))).symm

theorem not_models_of_denies {scopes : Scopes} {t u : Term} (ht : t ∈ scopes.asserted)
    (hu : u ∈ scopes.asserted) (h : denies t u = true) (ρ : Valuation) : ¬ scopes.Models ρ := by
  intro models
  have first := models.2 t ht
  have second := models.2 u hu
  unfold denies at h
  split at h
  · cases beq_iff_eq.1 h
    rw [Term.eval_symbol, Option.some.injEq] at first
    rw [Term.eval_app] at second
    simp [Term.evalAll, first, meaning] at second
  · cases h

theorem sound_guessing : guessing.Sound where
  sat := fun {h scopes} replayed verdict => by
    unfold guessing at verdict ⊢
    simp only [replayed] at verdict
    split at verdict
    · next some =>
      obtain ⟨b, found⟩ := Option.isSome_iff_exists.1 some
      refine ⟨_, models_of_guess found, fun x sort _ => ?_⟩
      show ModelValue.plain (.bool ((Scopes.replayCalls (h.add .checked).toList >>= guess).getD
        false)) = _
      rw [History.toList_add, Scopes.replayCalls_append replayed]
      show ModelValue.plain (.bool ((guess scopes).getD false)) = _
      rw [found]
      rfl
    · split at verdict <;> cases verdict
  unsat := fun {h scopes} replayed verdict => by
    unfold guessing at verdict
    simp only [replayed] at verdict
    split at verdict
    · cases verdict
    · split at verdict
      · next both =>
        obtain ⟨t, ht, both⟩ := List.any_eq_true.1 both
        obtain ⟨u, hu, excludes⟩ := List.any_eq_true.1 both
        exact not_models_of_denies ht hu excludes
      · cases verdict

/-- A process that says nothing is sound. -/
theorem sound_mute (newlines : Newlines) (deadline : Option Seconds) :
    muteHost.behaviour.Sound newlines deadline := by
  have mute {h : History} {command : String} {r : Reaction}
      (taken : muteHost.behaviour h command = .taken r) : r = {} := by
    cases taken
    rfl
  have nothing {h : History} {command : String} {r : Reaction} {text : String}
      (taken : muteHost.behaviour h command = .taken r)
      (delivers : newlines.Delivers r.printed text) : text = "" := by
    rw [mute taken] at delivers
    exact delivers.unique (newlines.delivers_of_not_mem List.not_mem_nil)
  exact
    { silent := fun taken _ => by rw [mute taken]; rfl
      timely := fun taken => .inl (by rw [mute taken])
      whole := fun taken some => absurd (by rw [mute taken]; rfl) some
      sat := fun _ taken delivers word => by
        rw [nothing taken delivers] at word
        exact absurd word (by decide)
      unsat := fun _ taken delivers word => by
        rw [nothing taken delivers] at word
        exact absurd word (by decide) }

/-- So a host with such a process and the guessing solver is sound. -/
theorem sound_guessingHost (deadline : Option Seconds) :
    Host.Sound deadline { muteHost with binding := guessing } :=
  ⟨sound_mute _ deadline, sound_guessing⟩

/-- One constraint, and a decision about a variable that it does not use. -/
def asserting : List Operation :=
  [.openOn { muteHost with binding := guessing }, .assert (.var "x" (some .bool))]

/-- An enumerator over that variable. -/
def overUnused : Enumerator where
  decisions := [.var "y" (some .bool)]

end SmtDialogue
