import Mathlib.Data.List.Forall2

/-!
# Outcomes in sequence

What a successful sequence of steps says about each of its steps. A sequence
succeeds exactly when every step does, on what the steps before it have given.
-/

namespace SmtDialogue.Outcome

variable {ε α β : Type}

@[simp] theorem bind_ok (a : α) (f : α → Except ε β) : (Except.ok a >>= f) = f a := rfl

@[simp] theorem bind_error (e : ε) (f : α → Except ε β) :
    ((Except.error e : Except ε α) >>= f) = .error e := rfl

/-- One step after another succeeds when both do. -/
theorem bind_eq_ok_iff {x : Except ε α} {f : α → Except ε β} {b : β} :
    (x >>= f) = .ok b ↔ ∃ a, x = .ok a ∧ f a = .ok b := by
  cases x with
  | error e => simp
  | ok a => simp

/-- One step after another fails when the first does, or the second on what the
first has given. -/
theorem bind_eq_error_iff {x : Except ε α} {f : α → Except ε β} {e : ε} :
    (x >>= f) = .error e ↔ x = .error e ∨ ∃ a, x = .ok a ∧ f a = .error e := by
  cases x with
  | error e' => simp
  | ok a => simp

/-- **A step for every member** succeeds when it does at each, and gives what
it has given there. -/
theorem mapM_eq_ok_iff {f : α → Except ε β} {xs : List α} {ys : List β} :
    xs.mapM f = .ok ys ↔ List.Forall₂ (fun x y => f x = .ok y) xs ys := by
  induction xs generalizing ys with
  | nil =>
    rw [List.mapM_nil, List.forall₂_nil_left_iff]
    show Except.ok [] = Except.ok ys ↔ _
    rw [Except.ok.injEq, eq_comm]
  | cons x xs ih =>
    rw [List.mapM_cons, bind_eq_ok_iff, List.forall₂_cons_left_iff]
    constructor
    · rintro ⟨y, hy, rest⟩
      obtain ⟨zs, hzs, made⟩ := bind_eq_ok_iff.1 rest
      exact ⟨y, zs, hy, ih.1 hzs, (Except.ok.inj made).symm⟩
    · rintro ⟨y, zs, hy, hzs, rfl⟩
      exact ⟨y, hy, bind_eq_ok_iff.2 ⟨zs, ih.2 hzs, rfl⟩⟩

/-- Whatever is on the right of a row is there for something on the left. -/
theorem exists_of_mem_right {R : α → β → Prop} {xs : List α} {ys : List β}
    (row : List.Forall₂ R xs ys) {y : β} (hy : y ∈ ys) : ∃ x ∈ xs, R x y := by
  induction row with
  | nil => cases hy
  | cons first _ ih =>
    rcases List.mem_cons.1 hy with rfl | hy
    · exact ⟨_, List.mem_cons_self, first⟩
    · obtain ⟨x, hx, hxy⟩ := ih hy
      exact ⟨x, List.mem_cons_of_mem _ hx, hxy⟩

/-- Something on the right for each member makes a row. -/
theorem exists_row {R : α → β → Prop} {xs : List α} (h : ∀ x ∈ xs, ∃ y, R x y) :
    ∃ ys, List.Forall₂ R xs ys := by
  induction xs with
  | nil => exact ⟨[], .nil⟩
  | cons x xs ih =>
    obtain ⟨y, hy⟩ := h x List.mem_cons_self
    obtain ⟨ys, hys⟩ := ih fun x hx => h x (List.mem_cons_of_mem _ hx)
    exact ⟨y :: ys, .cons hy hys⟩

/-- What follows for the members of a row makes a row. -/
theorem row_imp {R S : α → β → Prop} {xs : List α} {ys : List β} (row : List.Forall₂ R xs ys)
    (h : ∀ x ∈ xs, ∀ y ∈ ys, R x y → S x y) : List.Forall₂ S xs ys := by
  induction row with
  | nil => exact .nil
  | cons first _ ih =>
    exact .cons (h _ List.mem_cons_self _ List.mem_cons_self first)
      (ih fun x hx y hy => h x (List.mem_cons_of_mem _ hx) y (List.mem_cons_of_mem _ hy))

/-- Two rows with a common side make one. -/
theorem row_trans {γ : Type} {R : α → β → Prop} {S : β → γ → Prop} {T : α → γ → Prop}
    {xs : List α} {ys : List β} {zs : List γ} (first : List.Forall₂ R xs ys)
    (second : List.Forall₂ S ys zs) (both : ∀ x ∈ xs, ∀ y z, R x y → S y z → T x z) :
    List.Forall₂ T xs zs := by
  induction first generalizing zs with
  | nil => cases second; exact .nil
  | cons one _ ih =>
    cases second with
    | cons two second =>
      exact .cons (both _ List.mem_cons_self _ _ one two)
        (ih second fun x hx => both x (List.mem_cons_of_mem _ hx))

/-- A row that begins with some members and goes on with others is two rows. -/
theorem exists_of_append_left {R : α → β → Prop} {xs xs' : List α} {ys : List β}
    (row : List.Forall₂ R (xs ++ xs') ys) :
    ∃ zs zs', ys = zs ++ zs' ∧ List.Forall₂ R xs zs ∧ List.Forall₂ R xs' zs' := by
  induction xs generalizing ys with
  | nil => exact ⟨[], ys, rfl, .nil, row⟩
  | cons x xs ih =>
    cases row with
    | @cons _ y _ ys first rest =>
      obtain ⟨zs, zs', rfl, before, after⟩ := ih rest
      exact ⟨y :: zs, zs', rfl, .cons first before, after⟩

/-- What is the same on both sides of a row, one by one, is one list. -/
theorem map_eq_of_row {γ : Type} {R : α → β → Prop} {f : α → γ} {g : β → γ} {xs : List α}
    {ys : List β} (row : List.Forall₂ R xs ys) (same : ∀ x y, R x y → f x = g y) :
    xs.map f = ys.map g := by
  rw [← List.forall₂_eq_eq_eq, List.forall₂_map_left_iff, List.forall₂_map_right_iff]
  exact row.imp same

/-- What comes of a step for every member comes of one of them. -/
theorem exists_of_mem_mapM {f : α → Except ε β} {xs : List α} {ys : List β}
    (h : xs.mapM f = .ok ys) {y : β} (hy : y ∈ ys) : ∃ x ∈ xs, f x = .ok y :=
  exists_of_mem_right (mapM_eq_ok_iff.1 h) hy

/-- A step for every member fails at one of them. -/
theorem exists_of_mapM_eq_error {f : α → Except ε β} {xs : List α} {e : ε}
    (h : xs.mapM f = .error e) : ∃ x ∈ xs, f x = .error e := by
  induction xs with
  | nil => cases h
  | cons x xs ih =>
    rw [List.mapM_cons] at h
    rcases bind_eq_error_iff.1 h with first | ⟨_, -, rest⟩
    · exact ⟨x, List.mem_cons_self, first⟩
    · rcases bind_eq_error_iff.1 rest with later | ⟨_, -, made⟩
      · obtain ⟨y, hy, failed⟩ := ih later
        exact ⟨y, List.mem_cons_of_mem _ hy, failed⟩
      · cases made

/-- A check of every member succeeds when it does at each. -/
theorem forM_eq_ok_iff {f : α → Except ε Unit} {xs : List α} :
    xs.forM f = .ok () ↔ ∀ x ∈ xs, f x = .ok () := by
  induction xs with
  | nil => exact ⟨fun _ => List.forall_mem_nil _, fun _ => rfl⟩
  | cons x xs ih =>
    rw [List.forall_mem_cons, ← ih]
    exact bind_eq_ok_iff.trans ⟨fun ⟨_, first, rest⟩ => ⟨first, rest⟩,
      fun ⟨first, rest⟩ => ⟨(), first, rest⟩⟩

/-- A check of every member fails at one of them. -/
theorem exists_of_forM_eq_error {f : α → Except ε Unit} {xs : List α} {e : ε}
    (h : xs.forM f = .error e) : ∃ x ∈ xs, f x = .error e := by
  induction xs with
  | nil => cases h
  | cons x xs ih =>
    rcases bind_eq_error_iff.1 h with first | ⟨_, -, rest⟩
    · exact ⟨x, List.mem_cons_self, first⟩
    · obtain ⟨y, hy, failed⟩ := ih rest
      exact ⟨y, List.mem_cons_of_mem _ hy, failed⟩

end SmtDialogue.Outcome
