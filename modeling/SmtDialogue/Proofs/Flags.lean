import SmtDialogue.Proofs.Interleaving
import SmtDialogue.Proofs.Turns

/-!
# The flags of an enumerator

An enumerator has two flags that say why there are no more solutions: it has
found that nothing is left, or it has reached its limit. They are set by whichever
of its iterations gets there, in a turn that hands out nothing, and they stay.

That they are true, whatever the solver answers, is a fact about single turns
(`Enumerator.Truthful`), as long as there are no more solutions than the limit
allows and nothing but the empty solution has been handed out when there are no
decision variables. Turns keep it like that, in whatever order iterations are
begun, advanced and left (`Iterations.Bounded`).
-/

namespace SmtDialogue

/-- A check that has been answered leaves the session running, with the answer. -/
theorem Session.running_of_check {s s' : Session} {status : Status}
    (ok : Session.check s = (.ok status, s')) :
    ∃ c, s'.phase = .running c ∧ s'.status = some status := by
  cases phase : s.phase with
  | created | failed | closed =>
    have refused : Session.check s =
        (.error (.notRunning "check satisfiability" s.name s.phase.word), s) :=
      requireRunning_bind (by rw [phase]; rfl) _
    cases refused.symm.trans ok
  | running c =>
    unfold check at ok
    rw [SessionM.bind_of_ok (requireRunning_of_running phase _),
      SessionM.bind_of_ok (SessionM.get_apply s)] at ok
    obtain ⟨response, s₁, exchanged, ok⟩ := SessionM.bind_eq_ok ok
    obtain ⟨-, rfl⟩ := exchange_eq_ok phase exchanged
    obtain ⟨found, s₂, interpreted, ok⟩ := SessionM.bind_eq_ok ok
    obtain ⟨-, rfl⟩ := interpret_eq_ok interpreted
    cases ok
    exact ⟨_, rfl, rfl⟩

namespace Enumerator

variable {vs : List Expr} {n n' : Enumerator} {c : Cursor} {s s' : Session} {m : Model}

/-- **What a turn does to the solutions and to the flags**, when it starts from
an enumerator, a place and a session. -/
structure Truthful (n : Enumerator) (c : Cursor) (s : Session) (turn : Turn) : Prop where
  /-- The solution handed out is appended, and nothing else changes. -/
  grows : turn.enumerator.solutions = n.solutions ++ turn.finds
  /-- An enumerator that has reached its limit stays so. -/
  keeps_limitReached : n.limitReached = true → turn.enumerator.limitReached = true
  /-- An enumerator that is exhausted stays so. -/
  keeps_exhausted : n.exhausted = true → turn.enumerator.exhausted = true
  /-- The limit is reached in a turn that starts with as many solutions as it allows.
  All that is done to the session is that the solution handed out last is excluded: no
  check is made. -/
  limitReached : turn.enumerator.limitReached = true → n.limitReached = true ∨
    n.limit = some n.solutions.length ∧ Resumes n.decisions c s turn.session
  /-- Nothing is left after a check that has been answered by unsat, or, without
  decision variables, after the empty solution. -/
  exhausted : turn.enumerator.exhausted = true → n.exhausted = true ∨
    (∃ between, Resumes n.decisions c s between ∧
      Session.check between = (.ok .unsat, turn.session)) ∨
    n.decisions = [] ∧ c = .handedOut [] ∧ turn.session = s

/-! ## One turn -/

/-- Without decision variables the empty solution is retrieved. -/
theorem Retrieves.eq_nil (h : Retrieves [] s m s') : m = [] := by
  obtain ⟨between, checked, given⟩ := h
  obtain ⟨c, running, sat⟩ := Session.running_of_check checked
  rw [Session.model_of_sat running sat] at given
  cases given
  rfl

/-- A search changes neither what is decided nor the limit. -/
theorem Advances.fixed {turn : Turn} (h : Advances n c s turn) :
    turn.enumerator.decisions = n.decisions ∧ turn.enumerator.limit = n.limit := by
  cases h <;> exact ⟨rfl, rfl⟩

/-- With a limit there is room for the solution that a turn finds. -/
theorem Advances.bounded {turn : Turn} (h : Advances n c s turn)
    (bounded : ∀ L, n.limit = some L → n.solutions.length ≤ L) :
    ∀ L, n.limit = some L → turn.enumerator.solutions.length ≤ L := by
  intro L hL
  have most := bounded L hL
  cases h with
  | found _ room =>
    have below := room L hL
    show (n.solutions ++ [_]).length ≤ L
    rw [List.length_append, List.length_singleton]
    omega
  | finished | bare | limit | unsat | broken => exact most

/-- Without decision variables nothing but the empty solution is handed out. -/
theorem Advances.handedOut_eq_nil {turn : Turn} (h : Advances n c s turn) (none : n.decisions = [])
    (place : turn.cursor = .handedOut m) : m = [] := by
  cases h with
  | found _ _ retrieves =>
    cases place
    rw [none] at retrieves
    exact retrieves.eq_nil
  | finished | bare | limit | unsat | broken => cases place

/-- **The flags are true after a turn** of an enumerator within its limit. -/
theorem Advances.truthful {turn : Turn} (h : Advances n c s turn)
    (bounded : ∀ L, n.limit = some L → n.solutions.length ≤ L)
    (empty : n.decisions = [] → ∀ m, c = .handedOut m → m = []) : Truthful n c s turn := by
  cases h with
  | finished => exact ⟨(List.append_nil _).symm, id, id, .inl, .inl⟩
  | bare none place =>
    have last : c = .handedOut [] := by rw [place, empty none _ place]
    exact ⟨(List.append_nil _).symm, id, fun _ => rfl, .inl, fun _ => .inr (.inr ⟨none, last, rfl⟩)⟩
  | limit resumes full =>
    obtain ⟨L, hL, reached⟩ := atLimit_iff.1 full
    have exactly : n.limit = some n.solutions.length := by
      rw [hL, Nat.le_antisymm reached (bounded L hL)]
    exact ⟨(List.append_nil _).symm, fun _ => rfl, id, fun _ => .inr ⟨exactly, resumes⟩, .inl⟩
  | unsat resumes _ answered =>
    exact ⟨(List.append_nil _).symm, id, fun _ => rfl, .inl,
      fun _ => .inr (.inl ⟨_, resumes, answered⟩)⟩
  | found => exact ⟨rfl, id, id, .inl, .inl⟩
  | broken => exact ⟨(List.append_nil _).symm, id, id, .inl, .inl⟩

/-- **A turn that ends an iteration** for want of solutions sets one of the flags, if
neither has been set before; one that hands out a solution sets none. -/
theorem Advances.flags {turn : Turn} (h : Advances n c s turn) (goesOn : c ≠ .ended)
    {found : Option Model} (ok : turn.outcome = .ok found)
    (neither : n.exhausted = false ∧ n.limitReached = false) :
    (turn.cursor = .ended ∧ turn.enumerator.exhausted = !turn.enumerator.limitReached) ∨
      turn.cursor ≠ .ended ∧
        turn.enumerator.exhausted = false ∧ turn.enumerator.limitReached = false := by
  obtain ⟨unfinished, below⟩ := neither
  cases h with
  | finished place => exact absurd place goesOn
  | bare | unsat => exact .inl ⟨rfl, by simp [stop, below]⟩
  | limit => exact .inl ⟨rfl, by simp [stop, unfinished]⟩
  | found => exact .inr ⟨nofun, unfinished, below⟩
  | broken => cases ok

/-- After an end nothing changes. -/
theorem turns_ended (k : Nat) (n : Enumerator) (s : Session) :
    n.turns k .ended s = some (n, .ended, s) := by
  induction k with
  | zero => rfl
  | succ k ih => exact ih

/-- **An iteration that ends without an error** has set exactly one of the flags, if
neither has been set before. -/
theorem flags_of_turns {k : Nat} (goesOn : c ≠ .ended)
    (neither : n.exhausted = false ∧ n.limitReached = false)
    (run : n.turns k c s = some (n', .ended, s')) : n'.exhausted = !n'.limitReached := by
  induction k generalizing n c s with
  | zero =>
    cases run
    exact absurd rfl goesOn
  | succ k ih =>
    rw [turns] at run
    split at run
    · next ok =>
      rcases (advance_cases n c s).flags goesOn ok neither with ⟨ended, one⟩ | ⟨more, neither⟩
      · rw [ended, turns_ended] at run
        cases run
        exact one
      · exact ih more neither run
    · cases run

end Enumerator

/-! ## Any turns -/

namespace Iterations

open Enumerator

variable {n : Enumerator} {it : Iterations}

/-- **What holds of the iterations of an enumerator**, whatever has been done with
them. -/
structure Bounded (n : Enumerator) (it : Iterations) : Prop where
  /-- The decision variables and the limit stay the same. -/
  fixed : it.enumerator.decisions = n.decisions ∧ it.enumerator.limit = n.limit
  /-- There are no more solutions than the limit allows. -/
  bounded : ∀ L, n.limit = some L → it.enumerator.solutions.length ≤ L
  /-- Without decision variables nothing but the empty solution has been handed out. -/
  empty : n.decisions = [] → ∀ m, .handedOut m ∈ it.cursors → m = []

theorem Bounded.turn (h : it.Bounded n) {i : Nat} {c : Cursor} : (it.turn i c).Bounded n := by
  have turn := advance_cases it.enumerator c it.session
  have below := turn.bounded (h.fixed.2 ▸ h.bounded)
  refine ⟨?_, h.fixed.2 ▸ below, fun none m here => ?_⟩
  · exact ⟨turn.fixed.1.trans h.fixed.1, turn.fixed.2.trans h.fixed.2⟩
  · rcases List.mem_or_eq_of_mem_set here with here | same
    · exact h.empty none m here
    · exact turn.handedOut_eq_nil (h.fixed.1.trans none) same.symm

/-- A move either advances an iteration or changes neither the enumerator nor the
session. -/
theorem move_cases (it : Iterations) (m : Move) :
    ((it.move m).enumerator = it.enumerator ∧ (it.move m).session = it.session ∧
      ∀ c ∈ (it.move m).cursors, c ∈ it.cursors ∨ c = .fresh) ∨
    ∃ i c, it.cursors[i]? = some c ∧ it.move m = it.turn i c := by
  cases m with
  | start =>
    refine .inl ⟨rfl, rfl, fun c here => ?_⟩
    exact (List.mem_append.1 here).imp id List.mem_singleton.1
  | advance i =>
    unfold move
    dsimp only
    cases place : it.cursors[i]? with
    | none => exact .inl ⟨rfl, rfl, fun c here => .inl here⟩
    | some c => exact .inr ⟨i, c, place, rfl⟩

theorem Bounded.move (h : it.Bounded n) (m : Move) : (it.move m).Bounded n := by
  rcases it.move_cases m with ⟨enumerator, -, cursors⟩ | ⟨i, c, -, same⟩
  · refine ⟨?_, ?_, fun none m' here => ?_⟩
    · rw [enumerator]
      exact h.fixed
    · rw [enumerator]
      exact h.bounded
    · rcases cursors _ here with here | fresh
      · exact h.empty none m' here
      · cases fresh
  · rw [same]
    exact h.turn

theorem Bounded.run (h : it.Bounded n) (moves : List Move) : (it.run moves).Bounded n := by
  induction moves generalizing it with
  | nil => exact h
  | cons m moves ih => exact ih (h.move m)

end Iterations

namespace Enumerator

/-- **The flags of an enumerator are true**, whatever its solver answers, in
whatever order iterations over it are begun, advanced and left. There are never more
solutions than the limit allows. Each move advances an iteration in a truthful turn, or
changes neither the solutions, nor the flags, nor the session. When the first
iteration, advanced alone, ends without an error, exactly one of the flags is set. -/
theorem flags_truthful {operand : Operand} {most : Option Int} {n : Enumerator}
    (created : create operand most = .ok n) (s : Session) (moves : List Move) (m : Move) :
    let it := Iterations.run { enumerator := n, session := s } moves
    (∀ L : Nat, most = some (L : Int) → it.enumerator.solutions.length ≤ L) ∧
      it.enumerator.limit = most.map Int.toNat ∧
      ((it.move m).enumerator = it.enumerator ∧ (it.move m).session = it.session ∨
        ∃ c ∈ it.cursors,
          let turn := it.enumerator.advance c it.session
          (it.move m).enumerator = turn.enumerator ∧ (it.move m).session = turn.session ∧
            Truthful it.enumerator c it.session turn) ∧
      ∀ k n' s', n.turns k .fresh s = some (n', .ended, s') →
        n'.exhausted = !n'.limitReached := by
  intro it
  obtain ⟨-, limit, none, neither⟩ := eq_of_create created
  have start : Iterations.Bounded n { enumerator := n, session := s } :=
    { fixed := ⟨rfl, rfl⟩
      bounded := fun L _ => by
        show n.solutions.length ≤ L
        rw [none]
        exact Nat.zero_le L
      empty := fun _ _ here => nomatch here }
  have h : it.Bounded n := start.run moves
  have fresh : Cursor.fresh ≠ .ended := nofun
  refine ⟨fun L given => h.bounded L ?_, h.fixed.2.trans limit, ?_, fun k n' s' run => ?_⟩
  · rw [limit, given]
    rfl
  · rcases it.move_cases m with ⟨enumerator, session, -⟩ | ⟨i, c, place, same⟩
    · exact .inl ⟨enumerator, session⟩
    · have here : c ∈ it.cursors := List.mem_of_getElem? place
      refine .inr ⟨c, here, congrArg Iterations.enumerator same, congrArg Iterations.session same, ?_⟩
      exact (advance_cases _ _ _).truthful (h.fixed.2 ▸ h.bounded) fun bare m place =>
        h.empty (h.fixed.1.symm.trans bare) m (place ▸ here)
  · exact flags_of_turns fresh neither run

/-- An enumerator that may find one solution. -/
def atMostOne : Enumerator :=
  { overUnused with limit := some 1 }

/-- Two iterations, the first of which finds the one solution: the second one reaches
the limit. -/
theorem flags_truthful_atMostOne :
    let s := Operation.runAll { launch := .inProcess, options := {} } unconstrained
    let it := Iterations.run { enumerator := atMostOne, session := s } [.start, .start, .advance 0]
    create (.expr (.var "y" (some .bool))) (some 1) = .ok atMostOne ∧
      it.enumerator.solutions.length ≤ 1 ∧ it.enumerator.limitReached = false ∧
      (it.move (.advance 1)).enumerator.limitReached = true := by
  intro s it
  have created : create (.expr (.var "y" (some .bool))) (some 1) = .ok atMostOne := rfl
  obtain ⟨most, -, -, -⟩ := flags_truthful created s [.start, .start, .advance 0] (.advance 1)
  exact ⟨created, most 1 rfl, by decide +kernel, by decide +kernel⟩

end Enumerator

end SmtDialogue
