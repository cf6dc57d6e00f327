import SmtDialogue.Proofs.Commands
import SmtDialogue.Session.History

/-!
# Replaying a dialogue

A reference for what a solver knows after some commands: one frame for each open
scope, with the constants declared and the terms asserted in it. A command is
replayed only where it makes sense (`Scopes.step`): a name is declared unless it
is live already, a term is asserted when it is a truth value over the live
constants, values are asked of live constants only, and a scope is closed only
where one has been opened. A text is replayed as the command that it reads as,
so a dialogue with a text that is no command cannot be replayed at all. The
calls on an in-process solver are replayed in the same way.

What the declarations and assertions of the open scopes together say is a set of
valuations, the `Models` of the scopes. They do not depend on how the assertions
are distributed over the scopes.
-/

namespace SmtDialogue.Smt

/-- What has been declared and asserted in one scope, oldest first. -/
structure Scope where
  /-- The constants. -/
  declared : SortTable := []
  /-- The assertions. -/
  asserted : List Term := []

/-- The open scopes, of which there is at least one. -/
structure Scopes where
  /-- The innermost scope. -/
  inner : Scope := {}
  /-- The scopes around it, from the inside out. -/
  outer : List Scope := []

/-- The constants of some scopes, those of the outermost first. -/
def liveIn : List Scope → SortTable
  | [] => []
  | s :: outer => liveIn outer ++ s.declared

/-- The assertions of some scopes, those of the outermost first. -/
def assertedIn : List Scope → List Term
  | [] => []
  | s :: outer => assertedIn outer ++ s.asserted

/-- What was live when each scope inside of some scopes was opened. -/
def savedIn : List Scope → List SortTable
  | [] => []
  | s :: outer => liveIn (s :: outer) :: savedIn outer

namespace Scopes

/-- All open scopes, from the inside out. -/
def all (s : Scopes) : List Scope := s.inner :: s.outer

/-- The constants that are live, in the order of their declaration. -/
def live (s : Scopes) : SortTable := liveIn s.all

/-- The assertions that hold, in their order. -/
def asserted (s : Scopes) : List Term := assertedIn s.all

/-- What was live when each scope was opened, innermost first. -/
def saved (s : Scopes) : List SortTable := savedIn s.outer

/-- Some constants declared in the innermost scope. -/
def declaring (s : Scopes) (new : SortTable) : Scopes :=
  { s with inner := { s.inner with declared := s.inner.declared ++ new } }

/-- A term asserted in the innermost scope. -/
def asserting (s : Scopes) (t : Term) : Scopes :=
  { s with inner := { s.inner with asserted := s.inner.asserted ++ [t] } }

/-- A scope opened. -/
def opening (s : Scopes) : Scopes :=
  { inner := {}, outer := s.all }

/-- **What a command does**, where it makes sense. -/
def step (s : Scopes) : Command → Option Scopes
  | .declare name sort => if name ∈ s.live.names then none else some (s.declaring [(name, sort)])
  | .assert t => if t.sort? s.live = some .bool then some (s.asserting t) else none
  | .getValue names => if ∀ x ∈ names, x ∈ s.live.names then some s else none
  | .push => some s.opening
  | .pop =>
    match s.outer with
    | [] => none
    | inner :: outer => some { inner, outer }
  | .produceModels | .setLogic _ | .checkSat | .exit => some s

/-- What some commands do, given by their texts. -/
def replayFrom (s : Scopes) (texts : List String) : Option Scopes :=
  texts.foldlM (fun s text => Command.ofText text >>= s.step) s

/-- **The replay of some commands**, given by their texts, from the start. -/
def replay (texts : List String) : Option Scopes :=
  replayFrom {} texts

/-- **The valuations under which all assertions hold**, of the sorts that are
declared. -/
def Models (s : Scopes) (ρ : Valuation) : Prop :=
  s.live.Fits ρ ∧ ∀ t ∈ s.asserted, t.eval ρ = some (.bool true)

variable {s s' : Scopes}

@[simp] theorem live_declaring (s : Scopes) (new : SortTable) :
    (s.declaring new).live = s.live ++ new :=
  (List.append_assoc _ _ _).symm

@[simp] theorem live_asserting (s : Scopes) (t : Term) : (s.asserting t).live = s.live := rfl

@[simp] theorem live_opening (s : Scopes) : s.opening.live = s.live := List.append_nil _

@[simp] theorem saved_declaring (s : Scopes) (new : SortTable) :
    (s.declaring new).saved = s.saved := rfl

@[simp] theorem saved_asserting (s : Scopes) (t : Term) : (s.asserting t).saved = s.saved := rfl

@[simp] theorem saved_opening (s : Scopes) : s.opening.saved = s.live :: s.saved := rfl

@[simp] theorem declaring_nil (s : Scopes) : s.declaring [] = s := by
  simp [declaring]

theorem declaring_append (s : Scopes) (t u : SortTable) :
    s.declaring (t ++ u) = (s.declaring t).declaring u := by
  simp [declaring]

/-- The number of scopes inside of the outermost one. -/
theorem length_saved (s : Scopes) : s.saved.length = s.outer.length := by
  have all : ∀ scopes : List Scope, (savedIn scopes).length = scopes.length := by
    intro scopes
    induction scopes with
    | nil => rfl
    | cons scope outer ih => rw [savedIn, List.length_cons, List.length_cons, ih]
  exact all s.outer

/-- Where a scope has been opened, what was live then is a part of what is live,
and closing the scope goes back to it. -/
theorem exists_pop {saved : SortTable} {around : List SortTable}
    (h : s.saved = saved :: around) :
    ∃ s' new, s.step .pop = some s' ∧ s'.live = saved ∧ s'.saved = around ∧
      s.live = saved ++ new := by
  obtain ⟨inner, outer⟩ := s
  cases outer with
  | nil => cases h
  | cons scope outer =>
    obtain ⟨rfl, rfl⟩ := List.cons.inj h
    exact ⟨⟨scope, outer⟩, inner.declared, rfl, rfl, rfl, rfl⟩

/-! ## Replaying texts -/

theorem replayFrom_append (s : Scopes) (texts more : List String) :
    s.replayFrom (texts ++ more) = s.replayFrom texts >>= (·.replayFrom more) :=
  List.foldlM_append

theorem replayFrom_text {c : Command} (written : c.Written) (s : Scopes) :
    s.replayFrom [c.text] = s.step c := by
  show Command.ofText c.text >>= s.step >>= (fun s => some s) = _
  rw [Command.ofText_text written]
  show (s.step c >>= fun s => some s) = s.step c
  cases s.step c <;> rfl

/-- One more command. -/
theorem replay_text {texts : List String} (h : replay texts = some s) {c : Command}
    (written : c.Written) : replay (texts ++ [c.text]) = s.step c := by
  rw [replay, replayFrom_append, ← replay, h]
  exact replayFrom_text written s

/-- A constant that is not live is declared. -/
theorem step_declare {name : String} (fresh : name ∉ s.live.names) (sort : SmtSort) :
    s.step (.declare name sort) = some (s.declaring [(name, sort)]) := if_neg fresh

/-- A truth value over the live constants is asserted. -/
theorem step_assert {t : Term} (sorted : t.sort? s.live = some .bool) :
    s.step (.assert t) = some (s.asserting t) := if_pos sorted

/-- Live constants have values. -/
theorem step_getValue {names : List String} (known : ∀ x ∈ names, x ∈ s.live.names) :
    s.step (.getValue names) = some s := if_pos known

/-! ## Replaying calls -/

/-- What a call on an in-process solver does, where it makes sense. An assertion
comes with the constants that it may use, which go on from those that are
live. -/
def call (s : Scopes) : Event → Option Scopes
  | .asserted text constants =>
    match Command.ofText text with
    | some (.assert t) =>
      if s.live <+: constants then
        (s.declaring (constants.drop s.live.length)).step (.assert t)
      else none
    | _ => none
  | .pushed => some s.opening
  | .popped => s.step .pop
  | .solverMadeFor _ => some {}
  | .spawned _ | .written _ | .killed | .solverMade | .deadlineSet _ | .checked => some s

/-- **The replay of some calls.** -/
def replayCalls (calls : List Event) : Option Scopes :=
  calls.foldlM call {}

/-- One more call. -/
theorem replayCalls_append {calls : List Event} (h : replayCalls calls = some s) (e : Event) :
    replayCalls (calls ++ [e]) = s.call e := by
  rw [replayCalls, List.foldlM_append, ← replayCalls, h]
  show (s.call e >>= fun s => some s) = s.call e
  cases s.call e <;> rfl

/-- An assertion with the constants that are live and some more. -/
theorem call_asserted {new : SortTable} {t : Term} (written : (Command.assert t).Written)
    (sorted : t.sort? (s.live ++ new) = some .bool) :
    s.call (.asserted (Command.assert t).text (s.live ++ new)) =
      some ((s.declaring new).asserting t) := by
  rw [call, Command.ofText_text written]
  show (if _ then _ else _) = _
  rw [if_pos (List.prefix_append _ _), List.drop_left]
  exact step_assert (by rwa [live_declaring])

end Scopes

end SmtDialogue.Smt
