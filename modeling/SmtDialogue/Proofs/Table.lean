import SmtDialogue.Smt.SortTable

/-!
# Tables of sorts

A table is read by the first entry of a name, and tables only ever grow at
their end, so what a table says of a name it says for good: `Within` is that
order on tables. The names of a table that grows by the entries of another that
it does not have are the names of both, each once (`nodup_append_newIn`).
-/

namespace SmtDialogue.SortTable

variable {t u v : SortTable} {name : String} {sort : SmtSort}

/-- What one table says of a name, the other says too. -/
def Within (t u : SortTable) : Prop :=
  ∀ name sort, t.sortOf? name = some sort → u.sortOf? name = some sort

theorem Within.refl (t : SortTable) : t.Within t := fun _ _ h => h

theorem Within.trans (h : t.Within u) (k : u.Within v) : t.Within v :=
  fun name sort found => k name sort (h name sort found)

@[simp] theorem sortOf?_nil (name : String) : sortOf? [] name = none := rfl

theorem sortOf?_cons (n : String) (s : SmtSort) (t : SortTable) (name : String) :
    sortOf? ((n, s) :: t) name = if name = n then some s else t.sortOf? name := by
  unfold sortOf?
  rw [List.lookup_cons]
  cases h : name == n with
  | true => rw [if_pos (beq_iff_eq.1 h)]
  | false => rw [if_neg (ne_of_beq_false h)]

theorem sortOf?_append (t u : SortTable) (name : String) :
    sortOf? (t ++ u) name = (t.sortOf? name).or (u.sortOf? name) := by
  induction t with
  | nil => rfl
  | cons entry t ih =>
    obtain ⟨n, s⟩ := entry
    rw [List.cons_append, sortOf?_cons, sortOf?_cons, ih]
    split <;> rfl

/-- A table is within every table that goes on from it. -/
theorem within_append (t u : SortTable) : t.Within (t ++ u) := fun _ _ found => by
  rw [sortOf?_append, found]
  rfl

theorem mem_names : name ∈ t.names ↔ ∃ sort, (name, sort) ∈ t := by
  unfold names
  rw [List.mem_map]
  exact ⟨fun ⟨⟨_, s⟩, h, e⟩ => ⟨s, e ▸ h⟩, fun ⟨s, h⟩ => ⟨_, h, rfl⟩⟩

@[simp] theorem names_append (t u : SortTable) : names (t ++ u) = t.names ++ u.names :=
  List.map_append

/-- A name has no sort exactly when it is not in the table. -/
theorem sortOf?_eq_none_iff : t.sortOf? name = none ↔ name ∉ t.names := by
  induction t with
  | nil => simp [names]
  | cons entry t ih =>
    obtain ⟨n, s⟩ := entry
    rw [sortOf?_cons]
    by_cases h : name = n
    · simp [h, names]
    · simpa [h, names] using ih

theorem contains_iff : t.contains name = true ↔ name ∈ t.names := by
  rw [contains, Option.isSome_iff_ne_none, Ne, sortOf?_eq_none_iff, Decidable.not_not]

theorem mem_names_of_sortOf? (h : t.sortOf? name = some sort) : name ∈ t.names := by
  refine Decidable.byContradiction fun none => ?_
  rw [sortOf?_eq_none_iff.2 none] at h
  cases h

theorem exists_sortOf? (h : name ∈ t.names) : ∃ sort, t.sortOf? name = some sort :=
  Option.ne_none_iff_exists'.1 (mt sortOf?_eq_none_iff.1 (not_not_intro h))

/-- The sort of a name is that of one of its entries. -/
theorem mem_of_sortOf? (h : t.sortOf? name = some sort) : (name, sort) ∈ t := by
  induction t with
  | nil => cases h
  | cons entry t ih =>
    obtain ⟨n, s⟩ := entry
    rw [sortOf?_cons] at h
    split at h
    · next same => cases h; exact same ▸ List.mem_cons_self
    · exact List.mem_cons_of_mem _ (ih h)

/-- Without the names entered at its end, a table is what it was before. -/
theorem filter_names_append {u : SortTable} (once : (t ++ u).names.Nodup) :
    (t ++ u).filter (fun entry => !u.names.contains entry.1) = t := by
  rw [names_append, List.nodup_append] at once
  rw [List.filter_append, List.filter_eq_self.2, List.filter_eq_nil_iff.2, List.append_nil]
  · intro entry here
    simpa using mem_names.2 ⟨entry.2, here⟩
  · intro entry here
    simpa using fun there => once.2.2 entry.1 (mem_names.2 ⟨entry.2, here⟩) entry.1 there rfl

/-! ## Entering names -/

theorem sortOf?_enter (t : SortTable) (n : String) (s : SmtSort) (name : String) :
    (t.enter n s).sortOf? name = (t.sortOf? name).or (if name = n then some s else none) := by
  unfold enter
  split
  · next here =>
    by_cases same : name = n
    · subst same
      obtain ⟨s', h⟩ := Option.isSome_iff_exists.1 here
      rw [h]
      rfl
    · simp [same]
  · rw [sortOf?_append, sortOf?_cons, sortOf?_nil]

theorem within_enter (t : SortTable) (n : String) (s : SmtSort) : t.Within (t.enter n s) :=
  fun _ _ found => by
    rw [sortOf?_enter, found]
    rfl

theorem mem_names_enter {n : String} {s : SmtSort} :
    name ∈ (t.enter n s).names ↔ name ∈ t.names ∨ name = n := by
  unfold enter
  split
  · next here =>
    exact ⟨.inl, fun h => h.elim id (· ▸ contains_iff.1 here)⟩
  · simp [names]

theorem nodup_enter (once : t.names.Nodup) (n : String) (s : SmtSort) :
    (t.enter n s).names.Nodup := by
  unfold enter
  split
  · exact once
  · next new =>
    rw [names_append, List.nodup_append]
    refine ⟨once, List.pairwise_singleton _ _, fun a ha b hb same => new ?_⟩
    obtain rfl : b = n := List.mem_singleton.1 hb
    exact contains_iff.2 (same ▸ ha)

/-! ## Entries that another table does not have -/

theorem names_newIn (t declared : SortTable) :
    (t.newIn declared).names = t.names.filter fun name => !declared.contains name := by
  unfold newIn names
  rw [List.filter_map]
  rfl

theorem sortOf?_newIn (t declared : SortTable) (h : declared.sortOf? name = none) :
    (t.newIn declared).sortOf? name = t.sortOf? name := by
  induction t with
  | nil => rfl
  | cons entry t ih =>
    obtain ⟨n, s⟩ := entry
    unfold newIn at ih ⊢
    rw [List.filter_cons, sortOf?_cons]
    by_cases same : name = n
    · subst same
      simp [contains, h, sortOf?_cons]
    · rw [if_neg same]
      split
      · rw [sortOf?_cons, if_neg same, ih]
      · rw [ih]

theorem nodup_newIn (once : t.names.Nodup) (declared : SortTable) :
    (t.newIn declared).names.Nodup := by
  rw [names_newIn]
  exact once.filter _

theorem not_mem_of_mem_newIn {declared : SortTable} (h : name ∈ (t.newIn declared).names) :
    name ∉ declared.names := by
  rw [names_newIn, List.mem_filter] at h
  intro here
  rw [contains_iff.2 here] at h
  cases h.2

end SmtDialogue.SortTable
