import SmtDialogue.Proofs.Layout
import SmtDialogue.Proofs.Transmission

/-!
# Values arrive as they were sent

The values of constants are asked for by name, and the answer pairs names with
values. What writes the request and the answer and what reads them have nothing in
common but the grammar, so it takes a proof that they fit: every name that can be
written comes back as that name, also one that is a word of the grammar, such as
`error` or `true`, or that holds blanks, parentheses and comments; every truth value
comes back as that truth value, and every integer as that integer.

The answer may hold entries for other names as well, in any order and in any layout,
and what is read is the values of the requested names, each once
(`Answer.roundtrip`). Long numerals are the exception: one of too many digits is
recognised and not read, and then no value of the answer is
(`Answer.values_of_not_isWritable`).
-/

namespace SmtDialogue

open Smt

namespace Answer

/-! ## Values -/

/-- **A value that is short enough is read as what it is.** -/
theorem value_literalForm_of_isWritable {v : Value} (short : v.isWritable = true) :
    value (literalForm v).item = .ok v := by
  cases v with
  | bool b => exact value_literalForm_bool b
  | int n => rw [value_literalForm_int, if_neg (Nat.not_lt.2 (Value.isWritable_int_iff.1 short))]

/-- **A longer one is not read.** It is an integer, and the error tells how many
digits it has. -/
theorem value_literalForm_of_not_isWritable {v : Value} (long : v.isWritable = false) :
    ∃ n, v = .int n ∧
      value (literalForm v).item = .error (.numeralTooLong n.natAbs.repr.length) := by
  cases v with
  | bool b => cases long
  | int n =>
    have many := Value.isWritable_int_eq_false_iff.1 long
    exact ⟨n, rfl, by rw [value_literalForm_int, if_pos many]⟩

/-! ## Entries -/

/-- **Whether an item is an entry** that gives a name a value. -/
def IsEntry (item : Item) (name : String) (v : Value) : Prop :=
  ∃ head written, item = .list [head, written] ∧ head.text? = some name ∧ value written = .ok v

/-- The entry of a name, as it is written. -/
def entryForm (ρ : Valuation) (x : String) : Form :=
  .list [nameForm x, literalForm (ρ x)]

theorem item_entryForm (ρ : Valuation) (x : String) :
    (entryForm ρ x).item = .list [.symbol x, (literalForm (ρ x)).item] := by
  simp [entryForm]

theorem isEntry_entryForm {ρ : Valuation} {x : String} (short : (ρ x).isWritable = true) :
    IsEntry (entryForm ρ x).item x (ρ x) :=
  ⟨_, _, item_entryForm ρ x, rfl, value_literalForm_of_isWritable short⟩

theorem writable_entryForm (ρ : Valuation) {x : String} (writable : isWritable x = true) :
    (entryForm ρ x).Writable :=
  .list (List.forall_mem_cons.2 ⟨writable_nameForm writable,
    List.forall_mem_singleton.2 (writable_literalForm (ρ x))⟩)

/-- An entry is about one name. -/
theorem IsEntry.name_eq {item : Item} {x y : String} {v w : Value} (h : IsEntry item x v)
    (h' : IsEntry item y w) : x = y := by
  obtain ⟨head, written, rfl, text, -⟩ := h
  obtain ⟨_, _, same, text', -⟩ := h'
  cases same
  exact Option.some.inj (text.symm.trans text')

variable {ρ : Valuation} {names : List String} {response : String} {items : List Item}

/-- An entry is taken up into what has been read before. -/
theorem entries_cons {item : Item} {name : String} {v : Value} (h : IsEntry item name v)
    (found : Model) (items : List Item) :
    entries response found (item :: items) = entries response (found.set name v) items := by
  obtain ⟨head, written, rfl, text, read⟩ := h
  have taken : entry response (.list [head, written]) = .ok (name, written) := by
    cases head with
    | symbol | literal =>
      cases text
      rfl
    | list => cases text
  rw [entries, taken, Outcome.bind_ok]
  dsimp only
  rw [read, Outcome.bind_ok]

/-- **Entries are read one after the other.** A name for which all entries give one
value has this value in the end, when there is an entry for it or it had the value
before. -/
theorem exists_entries (response : String)
    (each : ∀ item ∈ items, ∃ y v, IsEntry item y v ∧ (y ∈ names → v = ρ y)) (found : Model) :
    ∃ m, entries response found items = .ok m ∧ ∀ x ∈ names,
      (found.valueOf? x = some (ρ x) ∨ ∃ item ∈ items, ∃ v, IsEntry item x v) →
        m.valueOf? x = some (ρ x) := by
  induction items generalizing found with
  | nil => exact ⟨found, rfl, fun x _ known => known.resolve_right (by simp)⟩
  | cons item items ih =>
    obtain ⟨y, v, own, agrees⟩ := each item List.mem_cons_self
    obtain ⟨m, read, rest⟩ :=
      ih (fun item member => each item (List.mem_cons_of_mem _ member)) (found.set y v)
    refine ⟨m, (entries_cons own found items).trans read, fun x hx known => rest x hx ?_⟩
    rw [Model.valueOf?_set]
    by_cases same : x = y
    · subst same
      exact .inl (by rw [if_pos rfl, agrees hx])
    · rw [if_neg same]
      refine known.imp_right fun ⟨other, member, w, entry⟩ => ?_
      rcases List.mem_cons.1 member with rfl | member
      · exact absurd (entry.name_eq own) same
      · exact ⟨other, member, w, entry⟩

/-- What is selected of a model with the values of some names. -/
theorem select_eq_giving {found : Model} (known : ∀ x ∈ names, found.valueOf? x = some (ρ x)) :
    select found names = .giving ρ names :=
  List.foldl_ext _ _ [] fun _ x hx => by rw [known x hx]

/-- **The values of an answer.** When every entry for a requested name gives the value
that it has, and there is one for each, these values are read. -/
theorem values_of_entries {solver : String} (answer : Item.parse response = .ok [.list items])
    (each : ∀ item ∈ items, ∃ y v, IsEntry item y v ∧ (y ∈ names → v = ρ y))
    (all : ∀ x ∈ names, ∃ item ∈ items, ∃ v, IsEntry item x v) :
    values solver response names = .ok (.giving ρ names) := by
  have noError : (Item.list items).errorMessage? = none := by
    cases items with
    | nil => rfl
    | cons item items =>
      obtain ⟨_, _, ⟨_, _, rfl, -⟩, -⟩ := each item List.mem_cons_self
      rfl
  obtain ⟨found, read, holds⟩ := exists_entries response each []
  have known : ∀ x ∈ names, found.valueOf? x = some (ρ x) := fun x hx =>
    holds x hx (.inr (all x hx))
  have nothing : (names.filter fun name => (found.valueOf? name).isNone) = [] :=
    List.filter_eq_nil_iff.2 fun x hx => by simp [known x hx]
  unfold values
  rw [Answer.items, answer]
  simp only [Outcome.bind_ok, noError]
  rw [read, Outcome.bind_ok, nothing, ← select_eq_giving known]
  rfl

/-! ## Answers in any layout -/

/-- **Whether some forms are an answer** with the values of some names: the entries of
these names are among them, and all others are entries for other names. -/
structure IsAnswer (ρ : Valuation) (names : List String) (forms : List Form) : Prop where
  /-- Each name has its entry. -/
  all : ∀ x ∈ names, entryForm ρ x ∈ forms
  /-- The others are entries that can be written, and none of them is for one of the
  names. -/
  others : ∀ f ∈ forms, (∃ x ∈ names, f = entryForm ρ x) ∨
    f.Writable ∧ ∃ y v, y ∉ names ∧ IsEntry f.item y v

/-- The entries of the names and nothing else are an answer. -/
theorem isAnswer_map (ρ : Valuation) (names : List String) :
    IsAnswer ρ names (names.map (entryForm ρ)) where
  all _ hx := List.mem_map_of_mem hx
  others _ hf :=
    let ⟨x, hx, same⟩ := List.mem_map.1 hf
    .inl ⟨x, hx, same.symm⟩

variable {forms : List Form}

theorem IsAnswer.writable (answer : IsAnswer ρ names forms)
    (writable : ∀ x ∈ names, isWritable x = true) : ∀ f ∈ forms, f.Writable := by
  intro f hf
  rcases answer.others f hf with ⟨x, hx, rfl⟩ | ⟨other, -⟩
  · exact writable_entryForm ρ (writable x hx)
  · exact other

/-- The values of an answer that has been read as a list. -/
theorem IsAnswer.values {solver : String} (answer : IsAnswer ρ names forms)
    (short : ∀ x ∈ names, (ρ x).isWritable = true)
    (read : Item.parse response = .ok [(Form.list forms).item]) :
    ∃ m, values solver response names = .ok m ∧ m.Gives ρ names ∧ m.Once := by
  rw [Form.item_list] at read
  refine ⟨_, values_of_entries read (List.forall_mem_map.2 fun f hf => ?_) fun x hx => ?_,
    Model.gives_giving ρ names, Model.once_giving ρ names⟩
  · rcases answer.others f hf with ⟨x, hx, rfl⟩ | ⟨-, y, v, other, entry⟩
    · exact ⟨x, ρ x, isEntry_entryForm (short x hx), fun _ => rfl⟩
    · exact ⟨y, v, entry, fun hy => absurd hy other⟩
  · exact ⟨_, List.mem_map_of_mem (answer.all x hx), ρ x, isEntry_entryForm (short x hx)⟩

/-- **Values arrive as they were sent.** A request for the values of names that can be
written reads as this request. An answer that gives a value to each of them, none of
them too long, is read as these values, whether it is the answer of a solver in the same
process, or has entries for other names as well and any layout. -/
theorem roundtrip (writable : ∀ x ∈ names, isWritable x = true) :
    getValueOf names = .ok (.getValue names) ∧
    Item.parse (Command.getValue names).text =
      .ok [.list [.symbol "get-value", .list (names.map .symbol)]] ∧
    ∀ (solver : String) (ρ : Valuation), (∀ x ∈ names, (ρ x).isWritable = true) →
      (∀ (b : InProcess) (sorts : SortTable),
        (∀ x ∈ names,
          b.binding.value b.history x ((sorts.sortOf? x).getD .bool) = .plain (ρ x)) →
        ∃ m, values solver (b.valuesText sorts names) names = .ok m ∧
          m.Gives ρ names ∧ m.Once) ∧
      ∀ (forms : List Form) (body tail : List Char), IsAnswer ρ names forms →
        Laid False (Form.list forms).tokens body → Gap tail →
        ∃ m, values solver (String.ofList (body ++ tail)) names = .ok m ∧
          m.Gives ρ names ∧ m.Once := by
  refine ⟨getValueOf_of_writable writable, ?_, fun solver ρ short => ⟨fun b sorts mind => ?_,
    fun forms body tail answer laid gap => ?_⟩⟩
  · have readable : (Command.getValue names).Readable := writable
    rw [Command.parse_text readable, Command.item, Command.form, Form.item_list]
    simp [Command.word, Form.item, Function.comp_def]
  · rw [← Channel.text_pairsForm mind]
    refine (isAnswer_map ρ names).values short (Item.parse_text ?_)
    exact .list ((isAnswer_map ρ names).writable writable)
  · refine answer.values short ?_
    have laid : Laid False ([Form.list forms].flatMap Form.tokens) body := by
      rwa [List.flatMap_singleton]
    exact Item.parse_of_laid (List.forall_mem_singleton.2 (.list (answer.writable writable)))
      laid gap

/-- A solver in the same process whose models all have the values of one valuation. -/
def solverOf (ρ : Valuation) : InProcess where
  binding :=
    { verdict := fun _ => .sat
      value := fun _ x _ => .plain (ρ x)
      rejection := fun _ _ => none }
  deadline := none

/-- Names that are words of the grammar or hold parts of it, a negative integer, and an
answer with an entry more, in another order, with a comment. -/
theorem roundtrip_of_words :
    let names := ["error", "true", "b; (c"]
    let ρ : Valuation := fun x => if x = "error" then .int (-7) else .bool (x == "true")
    Item.parse "(get-value (error |true| |b; (c|))" =
      .ok [.list [.symbol "get-value", .list (names.map .symbol)]] ∧
    (∃ m, values "z3" "((error (- 7)) (|true| true) (|b; (c| false))" names = .ok m ∧
      m.Gives ρ names ∧ m.Once) ∧
    ∃ m, values "z3" "((|true| true) (other 12) (|b; (c| false) (error (- 7)))\t; done\n" names =
      .ok m ∧ m.Gives ρ names ∧ m.Once := by
  intro names ρ
  have writable : ∀ x ∈ names, isWritable x = true := by decide
  have short : ∀ x ∈ names, (ρ x).isWritable = true := by
    simp only [names, List.forall_mem_cons]
    exact ⟨Value.isWritable_int_iff.2 (by decide), rfl, rfl, nofun⟩
  obtain ⟨-, request, answers⟩ := roundtrip writable
  obtain ⟨own, laidOut⟩ := answers "z3" ρ short
  have asked : (Command.getValue names).text = "(get-value (error |true| |b; (c|))" := by
    decide +kernel
  have answered : (solverOf ρ).valuesText [] names =
      "((error (- 7)) (|true| true) (|b; (c| false))" := by
    decide +kernel
  refine ⟨asked ▸ request, answered ▸ own (solverOf ρ) [] fun _ _ => rfl, ?_⟩
  let other : Form := entryForm (fun _ => .int 12) "other"
  have entry : other.Writable ∧ ∃ y v, y ∉ names ∧ IsEntry other.item y v :=
    ⟨writable_entryForm _ (by decide), "other", .int 12, by decide,
      isEntry_entryForm (Value.isWritable_int_iff.2 (by decide))⟩
  let forms : List Form := [entryForm ρ "true", other, entryForm ρ "b; (c", entryForm ρ "error"]
  have answer : IsAnswer ρ names forms := by
    refine ⟨by simp [names, forms], ?_⟩
    simp only [forms, List.forall_mem_cons]
    exact ⟨.inl ⟨"true", by simp [names], rfl⟩, .inr entry, .inl ⟨"b; (c", by simp [names], rfl⟩,
      .inl ⟨"error", by simp [names], rfl⟩, nofun⟩
  have laid : Laid False (Form.list forms).tokens (Form.list forms).text.toList := by
    simpa using Laid.anywhere_text (Form.list forms) .nil nofun .nil
  have gap : Gap "\t; done\n".toList := .blank rfl (@Gap.comment " done".toList [] (by decide) .nil)
  have text : String.ofList ((Form.list forms).text.toList ++ "\t; done\n".toList) =
      "((|true| true) (other 12) (|b; (c| false) (error (- 7)))\t; done\n" := by
    decide +kernel
  exact text ▸ laidOut forms _ _ answer laid gap

/-! ## Numerals that are too long -/

/-- Reading the entries of an answer fails at the first value that is too long. -/
theorem entries_of_not_isWritable (response : String)
    (long : ∃ x ∈ names, (ρ x).isWritable = false) (found : Model) :
    ∃ x ∈ names, ∃ n, ρ x = .int n ∧
      entries response found ((names.map (entryForm ρ)).map Form.item) =
        .error (.numeralTooLong n.natAbs.repr.length) := by
  induction names generalizing found with
  | nil => simp at long
  | cons x names ih =>
    rw [List.map_cons, List.map_cons]
    cases short : (ρ x).isWritable with
    | true =>
      have later : ∃ y ∈ names, (ρ y).isWritable = false := by
        obtain ⟨y, hy, long⟩ := long
        rcases List.mem_cons.1 hy with rfl | hy
        · rw [short] at long
          cases long
        · exact ⟨y, hy, long⟩
      obtain ⟨y, hy, n, own, failed⟩ := ih later (found.set x (ρ x))
      refine ⟨y, List.mem_cons_of_mem _ hy, n, own, ?_⟩
      rwa [entries_cons (isEntry_entryForm short)]
    | false =>
      obtain ⟨n, own, failed⟩ := value_literalForm_of_not_isWritable short
      refine ⟨x, List.mem_cons_self, n, own, ?_⟩
      rw [item_entryForm, entries]
      show (value (literalForm (ρ x)).item >>= _) = _
      rw [failed]
      rfl

/-- **No value arrives beside one that is too long.** The answer of a solver in the
same process is refused as a whole. -/
theorem values_of_not_isWritable (solver : String) (b : InProcess) (sorts : SortTable)
    (writable : ∀ x ∈ names, isWritable x = true)
    (mind : ∀ x ∈ names,
      b.binding.value b.history x ((sorts.sortOf? x).getD .bool) = .plain (ρ x))
    (long : ∃ x ∈ names, (ρ x).isWritable = false) :
    ∃ x ∈ names, ∃ n, ρ x = .int n ∧ values solver (b.valuesText sorts names) names =
      .error (.numeralTooLong n.natAbs.repr.length) := by
  obtain ⟨x, hx, n, own, failed⟩ :=
    entries_of_not_isWritable (b.valuesText sorts names) long []
  refine ⟨x, hx, n, own, ?_⟩
  have noError : (Item.list ((names.map (entryForm ρ)).map Form.item)).errorMessage? = none := by
    cases names with
    | nil => rfl
    | cons x names =>
      rw [List.map_cons, List.map_cons, item_entryForm]
      rfl
  have read : Item.parse (b.valuesText sorts names) =
      .ok [.list ((names.map (entryForm ρ)).map Form.item)] := by
    rw [← Form.item_list, ← Channel.text_pairsForm mind]
    exact Item.parse_text (.list ((isAnswer_map ρ names).writable writable))
  unfold values
  rw [Answer.items, read]
  simp only [Outcome.bind_ok, noError]
  rw [failed]
  rfl

/-- A power of ten with one digit too many is not read. -/
theorem values_of_power : let ρ : Valuation := fun _ => .int (Nat.pow 10 Text.longestNumeral)
    isWritable "n" = true ∧
    (solverOf ρ).binding.value (solverOf ρ).history "n" .int = .plain (ρ "n") ∧
    values "z3" ((solverOf ρ).valuesText [("n", .int)] ["n"]) ["n"] =
      .error (.numeralTooLong 4301) := by
  intro ρ
  refine ⟨by decide, rfl, ?_⟩
  have digits : (Nat.pow 10 Text.longestNumeral).repr.length = Text.longestNumeral + 1 :=
    length_repr_pow (by decide)
  have long : (ρ "n").isWritable = false := not_isWritable_pow
  have writable : ∀ x ∈ ["n"], isWritable x = true := by decide
  obtain ⟨x, hx, n, own, failed⟩ := values_of_not_isWritable "z3" (solverOf ρ) [("n", .int)]
    writable (fun _ _ => rfl) ⟨"n", List.mem_cons_self, long⟩
  cases own
  rw [failed, Int.natAbs_natCast, digits]
  rfl

end Answer

end SmtDialogue
