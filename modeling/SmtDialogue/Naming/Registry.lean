import SmtDialogue.Expr.Error

/-!
# The registry of variable names

A registry remembers the names under which variables have been made. Using a
name a second time is reported, or refused when the registry is fatal, or passed
over in silence, as its flags say. A refused name leaves the registry as it was.
-/

namespace SmtDialogue

/-- The names in use, and how a second use is treated. -/
structure Registry where
  /-- Whether a second use of a name is reported. -/
  warnDuplicates : Bool := true
  /-- Whether a second use of a name is refused. -/
  fatal : Bool := false
  /-- The names in use, each once, the latest first. -/
  names : List String := []
  /-- The names whose second use has been reported, oldest first. -/
  reported : List String := []
deriving DecidableEq, Repr

namespace Registry

/-- Whether a name is in use. -/
def contains (r : Registry) (name : String) : Bool :=
  r.names.contains name

/-- The number of names in use. -/
def size (r : Registry) : Nat :=
  r.names.length

/-- Takes a name into use. The result says whether it was in use before. -/
def register (name : String) (r : Registry) : Except BuildError Bool × Registry :=
  if r.contains name then
    if r.fatal then (.error (.duplicateName name), r)
    else if r.warnDuplicates then (.ok true, { r with reported := r.reported ++ [name] })
    else (.ok true, r)
  else (.ok false, { r with names := name :: r.names })

/-- No names in use, the flags as they were. -/
def reset (r : Registry) : Registry :=
  { r with names := [] }

/-- The same names under other flags. -/
def withFlags (r : Registry) (warnDuplicates fatal : Bool) : Registry :=
  { r with warnDuplicates, fatal }

/-- The report of a second use. -/
def report (name : String) : String :=
  s!"Duplicate variable name {name}"

/-- After a name has been taken into use, exactly it and the earlier names are
in use. -/
theorem mem_names_register {name x : String} {r : Registry} {b : Bool}
    (h : (r.register name).1 = .ok b) :
    x ∈ (r.register name).2.names ↔ x = name ∨ x ∈ r.names := by
  unfold register at *
  by_cases hc : r.contains name = true
  · have hm : name ∈ r.names := by simpa [contains] using hc
    have hx : x ∈ r.names ↔ x = name ∨ x ∈ r.names :=
      ⟨.inr, fun h => h.elim (· ▸ hm) id⟩
    simp only [hc, if_true] at h ⊢
    split
    · next hf => simp [hf] at h
    · split <;> exact hx
  · simp [hc]

end Registry

end SmtDialogue
