import SmtDialogue.Enumeration.Solve
import SmtDialogue.Proofs.Enumeration
import SmtDialogue.Proofs.Lifecycle
import SmtDialogue.Proofs.Turns

/-!
# Searches that are interrupted

A search for all solutions can fail at any turn, and in a turn at any of its steps:
the clause that excludes the last solution cannot be made or asserted, the check
fails or is answered by unknown, or one of the requests for values fails. An error of the
library's own carries the solutions found before it; any other one, such as a deadline that
cannot be used, goes out as it is. These are the models that have been retrieved
completely, in this order (`Enumerator.Gathers`), the one among them whose clause has
failed: a solution is noted before anything is done to exclude it.

Wherever the search fails, its session is closed while the error goes out, and the
process that it has been opened with has ended or is killed
(`Solve.interrupted_iff`).
-/

namespace SmtDialogue

open Smt

/-! ## The solutions before an error -/

namespace Enumerator

/-- **What an iteration has retrieved** from the session at its start on: the models,
oldest first, with the place that it has come to and the session there. Each turn has
gone on from the place before it, with room for one more solution. -/
inductive Gathers (vs : List Expr) (limit : Option Nat) (first : Session) :
    List Model → Cursor → Session → Prop
  /-- Nothing has been retrieved. -/
  | start : Gathers vs limit first [] .fresh first
  /-- One more model. -/
  | more {ms : List Model} {c : Cursor} {s s₁ s' : Session} {m : Model}
    (before : Gathers vs limit first ms c s) (resumes : Resumes vs c s s₁)
    (room : HasRoom limit ms.length) (retrieves : Retrieves vs s₁ m s') :
    Gathers vs limit first (ms ++ [m]) (.handedOut m) s'

variable {vs : List Expr} {limit : Option Nat} {first : Session} {n : Enumerator} {c : Cursor}
  {s s' : Session} {ms : List Model}

theorem Gathers.reaches (h : Gathers vs limit first ms c s) : first.Reaches s := by
  induction h with
  | start => exact .refl first
  | more _ resumes _ retrieves ih => exact (ih.trans resumes.reaches).trans retrieves.reaches

/-- The turns in which models have been retrieved are gone through, as far as the
rounds suffice. -/
theorem Gathers.drain_eq (none : n.solutions = []) (h : Gathers n.decisions n.limit first ms c s)
    (rounds : Nat) : n.drain (ms.length + rounds) .fresh first [] =
      { n with solutions := ms }.drain rounds c s ms := by
  induction h generalizing rounds with
  | start =>
    rw [← none]
    show n.drain (n.solutions.length + rounds) .fresh first n.solutions = n.drain rounds _ _ _
    rw [none, List.length_nil, Nat.zero_add]
  | @more ms c s s₁ s' m _ resumes room retrieves ih =>
    have turn := retrieves.advance_eq (n := { n with solutions := ms }) resumes room
    rw [List.length_append, List.length_singleton, Nat.add_assoc, Nat.add_comm 1, ih, drain, turn]

/-- An error ends the rounds. -/
theorem BreaksOff.drain_eq {e : SessionError}
    (h : BreaksOff n.decisions n.limit n.solutions.length c s e s') (rounds : Nat) :
    ∃ i : Interruption, i.error = e ∧
      n.drain (rounds + 1) c s ms = some (n.interrupt s' i, ms) := by
  obtain ⟨i, same, turn⟩ := h.advance_eq
  refine ⟨i, same, ?_⟩
  rw [drain, turn]
  rfl

/-- **Rounds that end in an error** have gathered the solutions that the enumerator has
then, and the error comes from the turn after them. -/
theorem gathers_of_drain {rounds : Nat} {ms' : List Model} {turn : Turn} {i : Interruption}
    (h : Gathers n.decisions n.limit first n.solutions c s)
    (run : n.drain rounds c s ms = some (turn, ms')) (failed : turn.outcome = .error i) :
    turn.enumerator.solutions.length < n.solutions.length + rounds ∧
      ∃ c' s', Gathers n.decisions n.limit first turn.enumerator.solutions c' s' ∧
        BreaksOff n.decisions n.limit turn.enumerator.solutions.length c' s' i.error
          turn.session := by
  induction rounds generalizing n c s ms with
  | zero => cases run
  | succ rounds ih =>
    have next := advance_cases n c s
    rw [drain] at run
    generalize n.advance c s = t at next run
    cases next with
    | finished | bare | limit | unsat =>
      cases run
      cases failed
    | @found m _ _ resumes room retrieves =>
      obtain ⟨few, rest⟩ := ih (h.more resumes room retrieves) run
      refine ⟨?_, rest⟩
      rw [List.length_append, List.length_singleton] at few
      omega
    | broken breaks =>
      cases run
      cases failed
      exact ⟨Nat.lt_add_of_pos_right rounds.succ_pos, c, s, h, breaks⟩

end Enumerator

/-! ## The session after an error -/

theorem map_op_history (s : Session) (ops : List Operation) : (history s ops).map Step.op = ops := by
  induction ops generalizing s with
  | nil => rfl
  | cons op ops ih => exact congrArg (op :: ·) (ih _)

namespace Session

variable {s s' : Session} {backend : Backend} {options : SessionOptions} {host : Host}

/-- What has been started stays on record. -/
theorem startsOf_runAll (h : s.Writable) (ops : List Operation) :
    startsOf s.trace.toList <+: startsOf (Operation.runAll s ops).trace.toList := by
  induction ops generalizing s with
  | nil => exact List.prefix_refl _
  | cons op ops ih =>
    obtain ⟨-, events, trace, -⟩ := op.writes h
    have next := ih (h.run op)
    rw [trace, History.startsOf_addAll] at next
    exact (List.prefix_append _ _).trans next

/-- **A process is released** with the session that it has been started for, whatever has
been done in the dialogue. -/
theorem treats_of_reaches
    (opened : openOn host { launch := .process backend, options } = (.ok (), s))
    (reached : s.Reaches s') :
    let new : Session := { launch := .process backend, options }
    ∃ ops, s'.close = Operation.runAll new ops ∧
      startsOf s'.close.trace.toList = [backend.argv ++ options.extraArgs] ∧
      s'.close.Treats options.deadline (host.started backend) (conversation (history new ops)) := by
  intro new
  obtain ⟨inner, dialogue, rfl⟩ := reached
  let ops := .openOn host :: (inner ++ [.close])
  have later : Operation.runAll new ops = Operation.runAll s (inner ++ [.close]) := by
    show Operation.runAll (openOn host new).2 (inner ++ [.close]) = _
    rw [opened]
  have all : (Operation.runAll s inner).close = Operation.runAll new ops := by
    rw [later, Operation.runAll, Operation.runAll, List.foldl_append]
    rfl
  have started : startsOf s.trace.toList = [backend.argv ++ options.extraArgs] := by
    have opening : Operation.OpensProcess host backend new (openOn host new) :=
      Operation.opensProcess host rfl rfl
    rw [opened] at opening
    cases opening with
    | opened starts trace =>
      rw [trace, History.startsOf_addAll]
      exact congrArg (_ :: ·) starts
  have writable : s.Writable := by
    have after := (writable_new (.process backend) options).run (.openOn host)
    rwa [show (Operation.openOn host).run new = (.ok (), s) from opened] at after
  have served : Served backend options (Operation.runAll new ops) ([] ++ history new ops) :=
    Served.runAll (.unopened rfl rfl) ops
  rw [List.nil_append] at served
  refine ⟨ops, all, ?_⟩
  rw [all]
  rcases served.started with ⟨none, -⟩ | ⟨once, host', ⟨st, member, opens⟩, treats⟩
  · -- the opening has started a process, which stays on record
    have kept := startsOf_runAll writable (inner ++ [.close])
    rw [← later, none, started] at kept
    cases List.prefix_nil.1 kept
  · have only : host' = host := by
      have here : Operation.openOn host' ∈ ops := by
        rw [← map_op_history new ops]
        exact List.mem_map.2 ⟨st, member, opens⟩
      rcases List.mem_cons.1 here with same | here
      · cases same
        rfl
      · rcases List.mem_append.1 here with here | here
        · exact (dialogue _ here).elim
        · cases List.mem_singleton.1 here
    exact ⟨once, only ▸ treats⟩

end Session

/-! ## The search for all solutions -/

namespace Solve

open Enumerator

variable {rounds : Nat} {host : Host} {constraints decisions : Operand} {most : Option Int}
  {roots : List Expr} {n : Enumerator} {s s₁ : Session}

/-- A search, once the constraints have been asserted and the variables accepted. -/
theorem search_of_prepared (collected : Expr.collect constraints = .ok roots)
    (asserted : Session.assertAll roots s = (.ok (), s₁)) (created : create decisions most = .ok n) :
    search rounds constraints decisions most s =
      match n.drain rounds .fresh s₁ [] with
      | none => (none, s₁)
      | some (turn, _) =>
        match turn.outcome with
        | .error i => (some (.error (.ofSearch i.error turn.enumerator.solutions)), turn.session)
        | .ok _ => (some (.ok (.ofEnumerator turn.enumerator)), turn.session) := by
  unfold search
  rw [collected, created]
  dsimp only
  rw [SessionM.bind_of_ok (Session.built_ok roots s), SessionM.bind_of_ok asserted]
  rfl

/-- **A search breaks off** after some solutions have been gathered, and only so; an error of
the library's own carries them. -/
theorem search_eq_error_iff (collected : Expr.collect constraints = .ok roots)
    (asserted : Session.assertAll roots s = (.ok (), s₁)) (created : create decisions most = .ok n)
    {i : Interruption} {s' : Session} :
    search rounds constraints decisions most s = (some (.error i), s') ↔
      ∃ ms, i.found = (if i.error.kind.isOwn then ms else []) ∧ ms.length < rounds ∧
        ∃ c s₂, Gathers n.decisions n.limit s₁ ms c s₂ ∧
          BreaksOff n.decisions n.limit ms.length c s₂ i.error s' := by
  obtain ⟨-, -, none, -⟩ := eq_of_create created
  rw [search_of_prepared collected asserted created]
  constructor
  · intro failed
    split at failed
    · cases failed
    · next turn ms run =>
      split at failed
      · next outcome =>
        cases failed
        have nothing : Gathers n.decisions n.limit s₁ n.solutions .fresh s₁ := by
          rw [none]
          exact .start
        obtain ⟨few, gathered⟩ := gathers_of_drain nothing run outcome
        rw [none, List.length_nil, Nat.zero_add] at few
        exact ⟨_, rfl, few, gathered⟩
      · cases failed
  · rintro ⟨ms, carried, few, c, s₂, gathers, breaks⟩
    obtain ⟨more, rfl⟩ := Nat.exists_eq_add_of_lt few
    obtain ⟨e, found⟩ := i
    obtain rfl : found = if e.kind.isOwn then ms else [] := carried
    obtain ⟨i', rfl, run⟩ := BreaksOff.drain_eq (n := { n with solutions := ms }) breaks more
    rw [Nat.add_assoc, gathers.drain_eq none, run]
    rfl

/-- **A search that fails reports every solution found.** When the session can be opened,
the constraints can be asserted and the variables are accepted, it fails exactly when,
after some models have been retrieved, a turn breaks off; it then reports the error of that
turn and, where this is one of the library's own, these models. The session is closed, and
the one process that it has been opened with has ended by itself or has been killed. -/
theorem interrupted_iff {launch : Launch} {options : SessionOptions}
    (opened : Session.openOn host { launch, options } = (.ok (), s))
    (collected : Expr.collect constraints = .ok roots)
    (asserted : Session.assertAll roots s = (.ok (), s₁)) (created : create decisions most = .ok n)
    (i : Interruption) (s' : Session) :
    let new : Session := { launch, options }
    (allSolutions rounds host constraints decisions most new = (some (.error i), s') ↔
      ∃ ms, i.found = (if i.error.kind.isOwn then ms else []) ∧ ms.length < rounds ∧
        ∃ c s₂ s₃, Gathers n.decisions n.limit s₁ ms c s₂ ∧
          BreaksOff n.decisions n.limit ms.length c s₂ i.error s₃ ∧ s' = s₃.close) ∧
    (allSolutions rounds host constraints decisions most new = (some (.error i), s') →
      s'.phase = .closed ∧ ∀ backend, launch = .process backend →
        ∃ ops, s' = Operation.runAll new ops ∧
          startsOf s'.trace.toList = [backend.argv ++ options.extraArgs] ∧
          s'.Treats options.deadline (host.started backend) (conversation (history new ops))) := by
  intro new
  have whole : allSolutions rounds host constraints decisions most new =
      ((search rounds constraints decisions most s).1,
        (search rounds constraints decisions most s).2.close) := by
    unfold allSolutions
    rw [opened]
  have broken : allSolutions rounds host constraints decisions most new = (some (.error i), s') ↔
      ∃ ms, i.found = (if i.error.kind.isOwn then ms else []) ∧ ms.length < rounds ∧
        ∃ c s₂ s₃, Gathers n.decisions n.limit s₁ ms c s₂ ∧
          BreaksOff n.decisions n.limit ms.length c s₂ i.error s₃ ∧ s' = s₃.close := by
    rw [whole, Prod.mk.injEq]
    constructor
    · rintro ⟨failed, rfl⟩
      obtain ⟨ms, carried, few, c, s₂, gathers, breaks⟩ :=
        (search_eq_error_iff collected asserted created).1 (Prod.ext failed rfl)
      exact ⟨ms, carried, few, c, s₂, _, gathers, breaks, rfl⟩
    · rintro ⟨ms, carried, few, c, s₂, s₃, gathers, breaks, rfl⟩
      have failed := (search_eq_error_iff collected asserted created).2
        ⟨ms, carried, few, c, s₂, gathers, breaks⟩
      rw [failed]
      exact ⟨rfl, rfl⟩
  refine ⟨broken, fun failed => ?_⟩
  obtain ⟨ms, -, -, c, s₂, s₃, gathers, breaks, rfl⟩ := broken.1 failed
  refine ⟨Session.phase_close s₃, ?_⟩
  rintro backend rfl
  exact Session.treats_of_reaches opened
    (((Session.Reaches.assertAll asserted).trans gathers.reaches).trans breaks.reaches)

/-- A host on which a process answers the first check by sat and gives values, and does
not know what comes of the next one. -/
def hesitantHost : Host :=
  { muteHost with
    behaviour := fun history command =>
      .taken { output :=
        if command == Command.checkSat.text then
          if history.commands.contains command then "unknown\n" else "sat\n"
        else if command == (Command.getValue ["x"]).text then "((x true))\n" else "" } }

/-- What is constrained on that host and whose values are looked for. -/
def watched : Expr := .var "x" (some .bool)

/-- A session with the process of that host. -/
def hesitant : Session :=
  { launch := .process ⟨"z3", ["z3", "-smt2", "-in"]⟩, options := {} }

/-- The search for all solutions in that session. -/
def hesitated : Option (Except Interruption Enumeration) × Session :=
  allSolutions 3 hesitantHost (.expr watched) (.expr watched) none hesitant

/-- The solutions that a search reports when it fails. -/
def reported : Option (Except Interruption Enumeration) → Option (List Model)
  | some (.error i) => some i.found
  | _ => none

theorem interrupted_iff_hesitated :
    ∃ s s₁ i, Session.openOn hesitantHost hesitant = (.ok (), s) ∧
      Expr.collect (.expr watched) = .ok [watched] ∧
      Session.assertAll [watched] s = (.ok (), s₁) ∧
      create (.expr watched) none = .ok { decisions := [watched] } ∧
      hesitated.1 = some (.error i) ∧ i.found = [[("x", .bool true)]] ∧
      i.error.kind.isOwn = true ∧ (∃ c s₂, Gathers [watched] none s₁ i.found c s₂) ∧
      hesitated.2.phase = .closed ∧
      startsOf hesitated.2.trace.toList = [["z3", "-smt2", "-in"]] := by
  have collected : Expr.collect (.expr watched) = .ok [watched] := rfl
  have created : create (.expr watched) none = .ok { decisions := [watched] } := rfl
  have found : reported hesitated.1 = some [[("x", .bool true)]] := by decide +kernel
  have opens : (Session.openOn hesitantHost hesitant).1.toOption = some () := by decide +kernel
  have asserts : (Session.assertAll [watched] (Session.openOn hesitantHost hesitant).2).1.toOption =
      some () := by decide +kernel
  rcases opened : Session.openOn hesitantHost hesitant with ⟨_ | ⟨⟩, s⟩
  · rw [opened] at opens
    cases opens
  rw [opened] at asserts
  rcases asserted : Session.assertAll [watched] s with ⟨_ | ⟨⟩, s₁⟩
  · rw [asserted] at asserts
    cases asserts
  rcases failed : hesitated with ⟨_ | ⟨i⟩ | e, s'⟩
  · rw [failed] at found
    cases found
  · rw [failed] at found
    obtain ⟨broken, released⟩ := interrupted_iff opened collected asserted created i s'
    obtain ⟨ms, carried, -, c, s₂, s₃, gathers, -, -⟩ := broken.1 failed
    have models := Option.some.inj found
    have own : i.error.kind.isOwn = true := by
      by_contra other
      rw [carried, if_neg other] at models
      cases models
    rw [if_pos own] at carried
    subst carried
    obtain ⟨closed, process⟩ := released failed
    obtain ⟨ops, -, starts, -⟩ := process _ rfl
    exact ⟨s, s₁, i, rfl, collected, asserted, created, rfl, models, own,
      ⟨c, s₂, gathers⟩, closed, starts⟩
  · rw [failed] at found
    cases found

end Solve

end SmtDialogue
