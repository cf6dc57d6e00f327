import SmtDialogue.Enumeration.Enumerator
import SmtDialogue.Proofs.Blocking
import SmtDialogue.Proofs.Questions

/-!
# What has been found is excluded

Between two turns of an enumeration the solver has the constraints with one
clause for each solution but the one that has just been handed out (`Excluding`).
The clauses may have declared decision variables that no constraint uses, at the
sorts over which they range, so that from then on the solver chooses their values
and the session no longer does. A search either finds an assignment that the
constraints allow and that is not among the solutions, or shows that there is
none (`Excluding.seek`).
-/

namespace SmtDialogue

open Smt

/-! ## What an enumeration is to find -/

/-- The values of some variables in a model, where it has them. -/
def Model.row (m : Model) (vs : List Expr) : List (Option Value) :=
  vs.map fun v => m.valueOf? v.name

/-- The values of some variables under a valuation. -/
def Valuation.row (ρ : Valuation) (vs : List Expr) : List (Option Value) :=
  vs.map fun v => some (ρ v.name)

theorem Model.row_eq_iff {m : Model} {ρ : Valuation} {vs : List Expr} :
    m.row vs = ρ.row vs ↔ ∀ v ∈ vs, m.valueOf? v.name = some (ρ v.name) :=
  List.map_inj_left

/-- **The assignments that some constraints allow.** A declared constant has its
sort, and a decision variable that no constraint uses the one with which it has
been made, or else that of truth values. -/
structure Allows (declared : SortTable) (constraints vs : List Expr) (ρ : Valuation) : Prop where
  /-- Declared constants have their sorts. -/
  fits : declared.Fits ρ
  /-- The constraints hold. -/
  holds : ∀ e ∈ constraints, e.HoldsUnder ρ
  /-- Other variables have the sorts over which they range. -/
  free : ∀ x sort, (∀ e ∈ constraints, x ∉ e.variableNames) →
    (Expr.freeSorts vs).sortOf? x = some sort → (ρ x).sort = sort

/-- The values of the decision variables in the assignments that are allowed. -/
def allowedRows (declared : SortTable) (constraints vs : List Expr) : Set (List (Option Value)) :=
  {row | ∃ ρ, Allows declared constraints vs ρ ∧ Valuation.row ρ vs = row}

section Allows

variable {declared : SortTable} {constraints vs : List Expr} {ρ : Valuation}

/-- Where the declared constants are those of the constraints, all sorts are
those of one table. -/
theorem allows_iff
    (used : ∀ x, x ∈ declared.names ↔ ∃ e ∈ constraints, x ∈ e.variableNames) :
    Allows declared constraints vs ρ ↔
      SortTable.Fits (declared ++ Expr.freeSorts vs) ρ ∧ ∀ e ∈ constraints, e.HoldsUnder ρ := by
  have other {x : String} (none : declared.sortOf? x = none) : ∀ e ∈ constraints,
      x ∉ e.variableNames := fun e he hx =>
    SortTable.sortOf?_eq_none_iff.1 none ((used x).2 ⟨e, he, hx⟩)
  constructor
  · intro allows
    refine ⟨fun x sort found => ?_, allows.holds⟩
    rw [SortTable.sortOf?_append] at found
    cases here : declared.sortOf? x with
    | some known =>
      rw [here] at found
      cases found
      exact allows.fits x _ here
    | none =>
      rw [here] at found
      exact allows.free x sort (other here) found
  · rintro ⟨fits, holds⟩
    refine ⟨fits.of_within (SortTable.within_append _ _), holds, fun x sort unused found => ?_⟩
    refine fits x sort ?_
    have here : declared.sortOf? x = none := SortTable.sortOf?_eq_none_iff.2 fun live => by
      obtain ⟨e, he, hx⟩ := (used x).1 live
      exact unused e he hx
    rw [SortTable.sortOf?_append, here]
    exact found

/-- The value of a variable has its sort in the table of all sorts. -/
theorem sortOf?_of_fits (fits : SortTable.Fits (declared ++ Expr.freeSorts vs) ρ) {v : Expr}
    (hv : v ∈ vs) :
    SortTable.sortOf? (declared ++ Expr.freeSorts vs) v.name = some (ρ v.name).sort := by
  have known : v.name ∈ SortTable.names (declared ++ Expr.freeSorts vs) := by
    rw [SortTable.names_append]
    exact List.mem_append_right _ (Expr.mem_names_freeSorts hv)
  obtain ⟨sort, found⟩ := SortTable.exists_sortOf? known
  rw [found, fits _ _ found]

variable {m : Model} {σ : Valuation}

/-- The values of a model that is part of a valuation have the sorts over which
the variables range. -/
theorem sortOf?_of_row (fits : SortTable.Fits (declared ++ Expr.freeSorts vs) ρ)
    (row : m.row vs = Valuation.row ρ vs) {v : Expr} (hv : v ∈ vs) {w : Value}
    (has : m.valueOf? v.name = some w) :
    SortTable.sortOf? (declared ++ Expr.freeSorts vs) v.name = some w.sort := by
  rw [Model.row_eq_iff.1 row v hv] at has
  cases has
  exact sortOf?_of_fits fits hv

/-- What a clause that excludes such a model declares has the sorts over which
the variables range. -/
theorem within_of_declaring {live new : SortTable} {clause : Expr}
    (ranged : live.Within (declared ++ Expr.freeSorts vs))
    (blocks : Enumeration.Blocks m vs clause) (declaring : Declaring live clause new)
    (fits : SortTable.Fits (declared ++ Expr.freeSorts vs) ρ)
    (row : m.row vs = Valuation.row ρ vs) :
    SortTable.Within (live ++ new) (declared ++ Expr.freeSorts vs) := by
  intro x sort found
  cases here : live.sortOf? x with
  | some known =>
    rw [SortTable.sortOf?_append, here] at found
    cases found
    exact ranged x _ here
  | none =>
    -- a new name is that of a decision variable, which the clause uses at the sort of its value
    have fresh : x ∈ new.names := by
      rw [SortTable.sortOf?_append, here] at found
      exact SortTable.mem_names_of_sortOf? found
    obtain ⟨v, hv, rfl⟩ := blocks.names x (declaring.names x fresh)
    obtain ⟨w, has, sorted⟩ := blocks.sorted v hv
    rw [sorted declaring.sorted] at found
    cases found
    exact sortOf?_of_row fits row hv has

/-- A clause that excludes such a model holds when its values are not repeated. -/
theorem holdsUnder_iff_row_ne {clause : Expr} (blocks : Enumeration.Blocks m vs clause)
    (fits : SortTable.Fits (declared ++ Expr.freeSorts vs) ρ)
    (row : m.row vs = Valuation.row ρ vs)
    (other : SortTable.Fits (declared ++ Expr.freeSorts vs) σ) :
    clause.HoldsUnder σ ↔ m.row vs ≠ Valuation.row σ vs := by
  have sorts : ∀ v ∈ vs, ∀ w, m.valueOf? v.name = some w → (σ v.name).sort = w.sort :=
    fun v hv w has => other _ _ (sortOf?_of_row fits row hv has)
  rw [blocks.holdsUnder_iff sorts, Ne, Model.row_eq_iff]
  push Not
  rfl

end Allows

/-! ## What the solver has between two turns -/

/-- **Some solutions have been excluded**: the solver has the constraints and for
each of the solutions a clause, over no more than the decision variables, at the
sorts over which they range. -/
structure Excluding (declared : SortTable) (constraints vs : List Expr) (excluded : List Model)
    (deadline : Option Seconds) (scopes : Scopes) (notes : List (List Expr)) (s : Session) :
    Prop where
  /-- The session is in step with a sound solver. -/
  inStep : s.InStep deadline (Channel.Sound deadline) scopes
  /-- The solver has the constraints and the clauses. -/
  noted : Noted notes scopes.all
  /-- What was declared before is declared. -/
  grown : declared.Within scopes.live
  /-- Clauses declare variables at the sorts over which they range. -/
  ranged : scopes.live.Within (declared ++ Expr.freeSorts vs)
  /-- What holds is that the constraints do and no solution is repeated. -/
  holds_iff : ∀ {ρ : Valuation}, SortTable.Fits (declared ++ Expr.freeSorts vs) ρ →
    ((∀ e ∈ notes.flatten, e.HoldsUnder ρ) ↔
      (∀ e ∈ constraints, e.HoldsUnder ρ) ∧ ∀ m ∈ excluded, m.row vs ≠ Valuation.row ρ vs)

/-- A turn that hands out a solution. -/
def Enumerator.handOut (n : Enumerator) (m : Model) (s : Session) : Turn where
  outcome := .ok (some m)
  cursor := .handedOut m
  enumerator := { n with solutions := n.solutions ++ [m] }
  session := s

namespace Excluding

variable {declared : SortTable} {constraints : List Expr} {n : Enumerator} {excluded : List Model}
variable {deadline : Option Seconds} {scopes : Scopes} {notes : List (List Expr)} {s s' : Session}

/-- Before the first turn nothing has been excluded. -/
theorem start (inStep : s.InStep deadline (Channel.Sound deadline) scopes)
    (noted : Noted notes scopes.all) (vs : List Expr) :
    Excluding s.declared notes.flatten vs [] deadline scopes notes s where
  inStep := inStep
  noted := noted
  grown := inStep.live ▸ SortTable.Within.refl _
  ranged := inStep.live ▸ SortTable.within_append _ _
  holds_iff := fun _ => by simp

/-- **One more solution is excluded.** -/
theorem exclude (h : Excluding declared constraints n.decisions excluded deadline scopes notes s)
    (vars : ∀ v ∈ n.decisions, v.Built ∧ v.isVariable = true)
    (whole : ∀ v ∈ n.decisions, Text.BreakFree v.name) {m : Model} {ρ : Valuation}
    (fits : SortTable.Fits (declared ++ Expr.freeSorts n.decisions) ρ)
    (row : m.row n.decisions = Valuation.row ρ n.decisions) (ok : n.exclude m s = (.ok (), s')) :
    ∃ scopes' notes', Excluding declared constraints n.decisions (excluded ++ [m]) deadline scopes'
      notes' s' := by
  obtain ⟨es, around, rfl⟩ : ∃ es around, notes = es :: around := by
    cases h.noted
    exact ⟨_, _, rfl⟩
  unfold Enumerator.exclude at ok
  cases made : Enumeration.blockModel m n.decisions with
  | error e =>
    rw [made] at ok
    cases ok
  | ok clause =>
    rw [made] at ok
    dsimp only at ok
    have blocks := Enumeration.blocks_of_blockModel made vars
    have next := h.inStep.assert (Channel.stable_sound deadline) blocks.built fun x hx => by
      obtain ⟨v, hv, rfl⟩ := blocks.names x hx
      exact whole v hv
    rw [ok] at next
    obtain ⟨_, ⟨t, new, term, declaring, rfl⟩, next⟩ := next
    have live : ((scopes.declaring new).asserting t).live = scopes.live ++ new :=
      (Scopes.live_asserting _ _).trans (Scopes.live_declaring _ _)
    refine ⟨_, _, next, h.noted.asserting blocks.built term declaring, ?_, ?_, fun {σ} other => ?_⟩
    · rw [live]
      exact h.grown.trans (SortTable.within_append _ _)
    · rw [live]
      exact within_of_declaring h.ranged blocks declaring fits row
    · -- the constraints of the innermost scope come first, so the clause stands in the middle
      have old := h.holds_iff other
      simp only [List.flatten_cons, List.forall_mem_append, List.forall_mem_singleton] at old ⊢
      rw [holdsUnder_iff_row_ne blocks fits row other]
      tauto

/-- A model of what the solver has, with the other variables at the sorts over
which they range, has all sorts. -/
theorem fits_of_models (h : Excluding declared constraints n.decisions excluded deadline scopes
      notes s) {σ : Valuation} (models : scopes.Models σ)
    (free : ∀ x ∉ scopes.live.names, ∀ sort, (Expr.freeSorts n.decisions).sortOf? x = some sort →
      (σ x).sort = sort) : SortTable.Fits (declared ++ Expr.freeSorts n.decisions) σ := by
  intro x sort found
  by_cases live : x ∈ scopes.live.names
  · obtain ⟨known, here⟩ := SortTable.exists_sortOf? live
    rw [h.ranged x known here] at found
    cases found
    exact models.1 x _ here
  · have undeclared : declared.sortOf? x = none :=
      SortTable.sortOf?_eq_none_iff.2 fun here => by
        obtain ⟨known, here⟩ := SortTable.exists_sortOf? here
        exact live (SortTable.mem_names_of_sortOf? (h.grown x known here))
    rw [SortTable.sortOf?_append, undeclared] at found
    exact free x live sort found

/-- A session that has been asked something is excluding what it was. -/
theorem congr (h : Excluding declared constraints n.decisions excluded deadline scopes notes s)
    (inStep : s'.InStep deadline (Channel.Sound deadline) scopes) :
    Excluding declared constraints n.decisions excluded deadline scopes notes s' :=
  ⟨inStep, h.noted, h.grown, h.ranged, h.holds_iff⟩

/-- **A search** that raises no error stops at the limit, or when every assignment
has been excluded, or hands out one that has not been. -/
theorem seek (h : Excluding declared constraints n.decisions excluded deadline scopes notes s)
    (used : ∀ x, x ∈ declared.names ↔ ∃ e ∈ constraints, x ∈ e.variableNames)
    {found : Option Model} (ok : (n.seek s).outcome = .ok found) :
    (n.atLimit = true ∧ n.seek s = ({ n with limitReached := true } : Enumerator).stop s) ∨
    n.atLimit = false ∧
      ((∃ s', n.seek s = ({ n with exhausted := true } : Enumerator).stop s' ∧
        Excluding declared constraints n.decisions excluded deadline scopes notes s' ∧
        ∀ ρ, Allows declared constraints n.decisions ρ →
          ∃ m ∈ excluded, m.row n.decisions = Valuation.row ρ n.decisions) ∨
      ∃ m s' ρ, n.seek s = n.handOut m s' ∧
        Excluding declared constraints n.decisions excluded deadline scopes notes s' ∧
        Allows declared constraints n.decisions ρ ∧
        m.row n.decisions = Valuation.row ρ n.decisions ∧
        ∀ m' ∈ excluded, m'.row n.decisions ≠ m.row n.decisions) := by
  unfold Enumerator.seek at ok ⊢
  cases atLimit : n.atLimit with
  | true => exact .inl ⟨rfl, rfl⟩
  | false =>
    refine .inr ⟨rfl, ?_⟩
    rw [atLimit, if_neg Bool.false_ne_true] at ok
    rw [if_neg Bool.false_ne_true]
    rcases checked : Session.check s with ⟨e | status, s₁⟩
    · rw [checked] at ok
      cases ok
    rw [checked] at ok
    obtain ⟨inStep, status_eq, sat, unsat⟩ := h.inStep.check_of_ok checked
    cases status with
    | unknown => cases ok
    | unsat =>
      -- an assignment that no solution has would be a model of what the solver has
      refine .inl ⟨s₁, rfl, h.congr inStep, fun ρ allows => ?_⟩
      obtain ⟨fits, holds⟩ := (allows_iff used).1 allows
      by_contra none
      push Not at none
      exact unsat rfl ρ (h.noted.models_iff.2
        ⟨fits.of_within h.ranged, (h.holds_iff fits).2 ⟨holds, none⟩⟩)
    | sat =>
      refine .inr ?_
      dsimp only at ok ⊢
      -- what the solver has in mind excludes the solutions, and so does what is handed out
      rcases asked : n.modelOf s₁ with ⟨e | m, s₂⟩
      · rw [asked] at ok
        cases ok
      obtain ⟨ρ, models, mind⟩ := sat rfl
      obtain ⟨next, σ, models, free, values⟩ :=
        inStep.model_of_ok h.noted status_eq models mind asked
      have fits := h.fits_of_models models free
      have row := Model.row_eq_iff.2 values
      obtain ⟨holds, fresh⟩ := (h.holds_iff fits).1 (h.noted.models_iff.1 models).2
      refine ⟨m, s₂, σ, rfl, h.congr next, (allows_iff used).2 ⟨fits, holds⟩, row, ?_⟩
      rw [row]
      exact fresh

end Excluding

end SmtDialogue
