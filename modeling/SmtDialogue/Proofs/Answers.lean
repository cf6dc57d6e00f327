import SmtDialogue.Proofs.Denotation

/-!
# What an answer to a request for values says

A solver that has a valuation in mind answers a request for the values of some
constants by the list of these constants with their values (`Answer.pairs`), in
the form in which values are written. A model that is read from such an answer
has the values of the valuation and no others (`Model.Gives`), and models from
several answers put together have the values of all requests.
-/

namespace SmtDialogue

open Smt

namespace Model

/-- Whether each name has one value. -/
def Once (m : Model) : Prop := (m.map Prod.fst).Nodup

/-- **A model with the values of some names**: those of a valuation, and of no
other names. -/
def Gives (ρ : Valuation) (names : List String) (m : Model) : Prop :=
  ∀ x, m.valueOf? x = if x ∈ names then some (ρ x) else none

theorem valueOf?_cons (n : String) (v : Value) (m : Model) (x : String) :
    Model.valueOf? ((n, v) :: m) x = if x = n then some v else m.valueOf? x := by
  unfold valueOf?
  rw [List.lookup_cons]
  cases h : x == n with
  | true => rw [if_pos (beq_iff_eq.1 h)]
  | false => rw [if_neg (ne_of_beq_false h)]

theorem valueOf?_append (m o : Model) (x : String) :
    Model.valueOf? (m ++ o) x = (m.valueOf? x).or (o.valueOf? x) := by
  induction m with
  | nil => rfl
  | cons entry m ih =>
    obtain ⟨n, v⟩ := entry
    rw [List.cons_append, valueOf?_cons, valueOf?_cons, ih]
    split <;> rfl

theorem valueOf?_eq_none_iff {m : Model} {x : String} :
    m.valueOf? x = none ↔ x ∉ m.map Prod.fst := by
  induction m with
  | nil => simp [valueOf?]
  | cons entry m ih =>
    obtain ⟨n, v⟩ := entry
    rw [valueOf?_cons]
    by_cases h : x = n
    · simp [h]
    · simpa [h] using ih

/-- The values after one has been replaced, if it was there. -/
theorem valueOf?_replace (m : Model) (n : String) (v : Value) (x : String) :
    Model.valueOf? (m.map fun entry => if entry.1 == n then (n, v) else entry) x =
      if x = n then (m.valueOf? n).map fun _ => v else m.valueOf? x := by
  induction m with
  | nil => simp [valueOf?]
  | cons entry m ih =>
    obtain ⟨k, w⟩ := entry
    rw [List.map_cons]
    by_cases here : k = n
    · rw [if_pos (beq_iff_eq.2 here), here, valueOf?_cons, valueOf?_cons, valueOf?_cons, ih,
        if_pos rfl]
      split <;> rfl
    · rw [if_neg (mt beq_iff_eq.1 here), valueOf?_cons, valueOf?_cons, valueOf?_cons, ih,
        if_neg (Ne.symm here)]
      by_cases same : x = n
      · rw [if_neg (same ▸ Ne.symm here), if_pos same, if_pos same]
      · rw [if_neg same, if_neg same]

theorem any_iff {m : Model} {n : String} : m.any (·.1 == n) = true ↔ n ∈ m.map Prod.fst := by
  simp [List.any_eq_true]

/-- A name that has been set has the value, and the others keep theirs. -/
theorem valueOf?_set (m : Model) (n : String) (v : Value) (x : String) :
    (m.set n v).valueOf? x = if x = n then some v else m.valueOf? x := by
  unfold set
  by_cases there : m.any (·.1 == n) = true
  · obtain ⟨w, found⟩ := Option.ne_none_iff_exists'.1
      (mt valueOf?_eq_none_iff.1 (not_not_intro (any_iff.1 there)))
    rw [if_pos there, valueOf?_replace, found]
    rfl
  · rw [if_neg there, valueOf?_append, valueOf?_cons]
    by_cases same : x = n
    · rw [if_pos same, if_pos same, same, valueOf?_eq_none_iff.2 (mt any_iff.2 there), Option.none_or]
    · rw [if_neg same, if_neg same]
      exact Option.or_none

theorem Once.set {m : Model} (h : m.Once) (n : String) (v : Value) : (m.set n v).Once := by
  unfold Once Model.set at *
  by_cases there : m.any (·.1 == n) = true
  · have names : (m.map fun entry => if entry.1 == n then (n, v) else entry).map Prod.fst =
        m.map Prod.fst := by
      rw [List.map_map]
      refine List.map_congr_left fun entry _ => ?_
      show (if entry.1 == n then (n, v) else entry).1 = entry.1
      split
      · next same => exact (beq_iff_eq.1 same).symm
      · rfl
    rw [if_pos there, names]
    exact h
  · rw [if_neg there, List.map_append, List.nodup_append]
    refine ⟨h, List.pairwise_singleton .., fun k hk l hl same => there (any_iff.2 ?_)⟩
    rwa [same, List.mem_singleton.1 hl] at hk

/-- A name has the value of the model that has been put on top, if it has one
there. -/
theorem valueOf?_update {m o : Model} (once : o.Once) (x : String) :
    (m.update o).valueOf? x = (o.valueOf? x).or (m.valueOf? x) := by
  induction o generalizing m with
  | nil => rfl
  | cons entry o ih =>
    obtain ⟨n, v⟩ := entry
    obtain ⟨fresh, once⟩ := List.nodup_cons.1 once
    show (Model.update (m.set n v) o).valueOf? x = _
    rw [ih once, valueOf?_set, valueOf?_cons]
    by_cases same : x = n
    · rw [if_pos same, if_pos same, same, valueOf?_eq_none_iff.2 fresh]
      rfl
    · rw [if_neg same, if_neg same]

theorem Once.update {m : Model} (h : m.Once) (o : Model) : (m.update o).Once := by
  induction o generalizing m with
  | nil => exact h
  | cons entry o ih => exact ih (h.set entry.1 entry.2)

theorem gives_nil (ρ : Valuation) : Gives ρ [] [] := fun _ => rfl

/-- Models of two requests put together are a model of both. -/
theorem Gives.update {ρ : Valuation} {names more : List String} {m o : Model} (h : m.Gives ρ names)
    (k : o.Gives ρ more) (once : o.Once) : (m.update o).Gives ρ (names ++ more) := by
  intro x
  rw [valueOf?_update once, h, k]
  by_cases here : x ∈ more <;> by_cases there : x ∈ names <;> simp [here, there]

/-- **The model with the values of some names**, which are set one after the other. -/
def giving (ρ : Valuation) (names : List String) : Model :=
  names.foldl (fun m x => m.set x (ρ x)) []

theorem gives_giving (ρ : Valuation) (names : List String) : (giving ρ names).Gives ρ names := by
  have onTop (m : Model) (x : String) : (names.foldl (fun m x => m.set x (ρ x)) m).valueOf? x =
      if x ∈ names then some (ρ x) else m.valueOf? x := by
    induction names generalizing m with
    | nil => rfl
    | cons n names ih =>
      rw [List.foldl_cons, ih, valueOf?_set]
      by_cases same : x = n <;> simp [same]
  exact onTop []

theorem once_giving (ρ : Valuation) (names : List String) : (giving ρ names).Once := by
  have onTop {m : Model} (once : m.Once) : (names.foldl (fun m x => m.set x (ρ x)) m).Once := by
    induction names generalizing m with
    | nil => exact once
    | cons n names ih => exact ih (once.set n (ρ n))
  exact onTop List.nodup_nil

end Model

namespace Answer

/-- **The values of some constants**, as a solver with a valuation in mind gives
them. -/
def pairs (ρ : Valuation) (names : List String) : List Item :=
  names.map fun x => .list [.symbol x, (literalForm (ρ x)).item]

/-- The answer that gives them, as it is written. -/
def pairsForm (ρ : Valuation) (names : List String) : Form :=
  .list (names.map fun x => .list [nameForm x, literalForm (ρ x)])

theorem item_pairsForm (ρ : Valuation) (names : List String) :
    (pairsForm ρ names).item = .list (pairs ρ names) := by
  rw [pairsForm, Form.item_list, List.map_map, pairs]
  simp [Function.comp_def]

theorem writable_pairsForm (ρ : Valuation) {names : List String}
    (writable : ∀ x ∈ names, isWritable x = true) : (pairsForm ρ names).Writable := by
  refine .list fun f hf => ?_
  obtain ⟨x, hx, rfl⟩ := List.mem_map.1 hf
  refine .list fun g hg => ?_
  rcases List.mem_pair.1 hg with rfl | rfl
  · exact writable_nameForm (writable x hx)
  · exact writable_literalForm _

/-- A power of ten has one digit more than its exponent. -/
theorem length_repr_pow {k : Nat} (pos : 0 < k) : (Nat.pow 10 k).repr.length = k + 1 := by
  rw [Nat.pow_eq]
  refine Nat.le_antisymm ?_ (Nat.not_le.1 fun few => ?_)
  · exact (Nat.length_repr_le_iff k.succ_pos).2 (Nat.pow_lt_pow_right (by decide) k.lt_succ_self)
  · exact Nat.lt_irrefl _ ((Nat.length_repr_le_iff pos).1 few)

/-- The first one that is too long to be written. -/
theorem not_isWritable_pow : (Value.int (Nat.pow 10 Text.longestNumeral)).isWritable = false := by
  rw [Value.isWritable_int_eq_false_iff, Int.natAbs_natCast, length_repr_pow (by decide)]
  exact Nat.lt_succ_self _

/-- An integer is written as an item that is taken for it, in all the digits that it has. -/
theorem takenFor_literalForm_int (n : Int) :
    (literalForm (.int n)).item.TakenFor (.int n) n.natAbs.repr.length := by
  by_cases negative : n < 0
  · have item : (literalForm (.int n)).item = .list [.symbol "-", .symbol n.natAbs.repr] := by
      rw [literalForm, if_pos negative, Form.item_list]
      rfl
    have taken : (Item.list [.symbol "-", .symbol n.natAbs.repr]).TakenFor
        (.int (-(n.natAbs : Int))) n.natAbs.repr.length :=
      .negation rfl rfl (Text.numeral?_repr _)
    rwa [show -(n.natAbs : Int) = n by omega, ← item] at taken
  · have item : (literalForm (.int n)).item = .symbol n.natAbs.repr := by
      rw [literalForm, if_neg negative]
      rfl
    have taken : (Item.symbol n.natAbs.repr).TakenFor (.int n.natAbs) n.natAbs.repr.length :=
      .number (Text.numeral?_repr _)
    rwa [show (n.natAbs : Int) = n by omega, ← item] at taken

/-- **A written integer is read as what it is**, unless it has too many digits. -/
theorem value_literalForm_int (n : Int) : value (literalForm (.int n)).item =
    if Text.longestNumeral < n.natAbs.repr.length then .error (.numeralTooLong n.natAbs.repr.length)
    else .ok (.int n) :=
  value_of_takenFor (takenFor_literalForm_int n)

theorem value_literalForm_bool (b : Bool) : value (literalForm (.bool b)).item = .ok (.bool b) := by
  cases b <;> rfl

/-- A written value is read as what it is, or has too long a numeral. -/
theorem value_literalForm_cases (v : Value) : value (literalForm v).item = .ok v ∨
    ∃ digits, value (literalForm v).item = .error (.numeralTooLong digits) := by
  cases v with
  | bool b => exact .inl (value_literalForm_bool b)
  | int n =>
    rw [value_literalForm_int]
    split
    · exact .inr ⟨_, rfl⟩
    · exact .inl rfl

/-- A value that can be read is read as what it is. -/
theorem value_literalForm {v w : Value} (h : value (literalForm v).item = .ok w) : w = v := by
  rcases value_literalForm_cases v with read | ⟨digits, failed⟩
  · exact Except.ok.inj (h.symm.trans read)
  · cases h.symm.trans failed

/-- The entries of such an answer, on top of what was read before. -/
theorem entries_pairs {ρ : Valuation} {response : String} {names : List String} {found m : Model}
    (h : entries response found (pairs ρ names) = .ok m) (x : String) :
    m.valueOf? x = if x ∈ names then some (ρ x) else found.valueOf? x := by
  induction names generalizing found with
  | nil => cases h; rfl
  | cons n names ih =>
    obtain ⟨v, hv, rest⟩ := Outcome.bind_eq_ok_iff.1 (show (do
      let v ← value (literalForm (ρ n)).item
      entries response (found.set n v) (pairs ρ names)) = .ok m from h)
    rw [ih rest, Model.valueOf?_set, value_literalForm hv]
    by_cases same : x = n <;> simp [same]

/-- What is selected of a model, on top of what was selected before. -/
theorem valueOf?_foldl_select (found : Model) (names : List String) (m : Model) (x : String) :
    (names.foldl (fun m name => match found.valueOf? name with
      | some v => m.set name v
      | none => m) m).valueOf? x =
      if x ∈ names then (found.valueOf? x).or (m.valueOf? x) else m.valueOf? x := by
  induction names generalizing m with
  | nil => rfl
  | cons n names ih =>
    rw [List.foldl_cons, ih]
    cases hn : found.valueOf? n with
    | none => by_cases same : x = n <;> by_cases more : x ∈ names <;> simp [same, more, hn]
    | some v =>
      rw [Model.valueOf?_set]
      by_cases same : x = n <;> by_cases more : x ∈ names <;> simp_all

theorem once_foldl_select (found : Model) (names : List String) {m : Model} (once : m.Once) :
    (names.foldl (fun m name => match found.valueOf? name with
      | some v => m.set name v
      | none => m) m).Once := by
  induction names generalizing m with
  | nil => exact once
  | cons n names ih =>
    rw [List.foldl_cons]
    refine ih ?_
    cases found.valueOf? n with
    | none => exact once
    | some v => exact once.set n v

/-- **A model that is read from the values of a valuation** has these values. -/
theorem gives_of_values {ρ : Valuation} {solver response : String} {names : List String} {m : Model}
    (answer : Item.parse response = .ok [.list (pairs ρ names)])
    (h : values solver response names = .ok m) : m.Gives ρ names ∧ m.Once := by
  have noError : (Item.list (pairs ρ names)).errorMessage? = none := by
    cases names <;> rfl
  unfold values at h
  rw [items, answer] at h
  simp only [Outcome.bind_ok, noError] at h
  obtain ⟨found, read, made⟩ := Outcome.bind_eq_ok_iff.1 h
  split at made
  · cases made
    refine ⟨fun x => ?_, once_foldl_select found names List.nodup_nil⟩
    refine (valueOf?_foldl_select found names [] x).trans ?_
    rw [entries_pairs read]
    by_cases here : x ∈ names <;> simp [here, Model.valueOf?]
  · cases made

/-- The status that is read from an answer is the word of the answer. -/
theorem word_of_status {solver response : String} {found : Status}
    (h : status solver response = .ok found) : found.word = Text.trim response := by
  have named {found : Status} (h : Status.ofResponse response = .ok found) :
      found.word = Text.trim response := by
    unfold Status.ofResponse at h
    split at h
    · next member =>
      cases h
      have same := List.find?_some member
      exact beq_iff_eq.1 same
    · cases h
  unfold status at h
  obtain ⟨read, -, h⟩ := Outcome.bind_eq_ok_iff.1 h
  split at h
  · split at h
    · cases h
    · exact named h
  · exact named h

/-- An answer that reports an error gives no model. -/
theorem values_of_error {solver response : String} {names : List String} {item : Item} {m : Model}
    (answer : Item.parse response = .ok [item]) (reports : item.errorMessage?.isSome = true) :
    values solver response names ≠ .ok m := by
  cases item with
  | symbol | literal => cases reports
  | list pairs =>
    obtain ⟨message, hm⟩ := Option.isSome_iff_exists.1 reports
    unfold values
    rw [items, answer]
    simp only [Outcome.bind_ok, hm]
    nofun

end Answer

end SmtDialogue
