import SmtDialogue.Proofs.Reading
import SmtDialogue.Solver.Answer

/-!
# Which items are values

The standard writes a truth value as a bare word, a number that is not negative as a
numeral, and a negative number as a list of a sign and a numeral; a numeral is a row of
ASCII digits. What is taken for a value on reading has the same three shapes, but two
things are seen in them that are not there. The words are compared as texts, and a string
literal has a text too; and a digit may be one of any script.

Both are the same relation between items and values (`Item.DenotesBy`), over what counts
as a word and what counts as a numeral. Reading finds exactly what is taken for a value
(`Answer.value_of_takenFor`, `Answer.value_of_not_takenFor`), values of the standard are
taken for what they are (`Item.Denotes.takenFor`), and nothing else is among items
without string literals and without digits of other scripts (`Item.TakenFor.denotes`).
-/

namespace SmtDialogue

namespace Text

/-- **Whether a text is a numeral of the standard** for a number: at least one digit, and
ASCII digits only. -/
def IsNumeral (s : String) (n : Nat) : Prop :=
  s ≠ "" ∧ (∀ c ∈ s.toList, c.isDigit = true) ∧ Nat.ofDigitChars 10 s.toList 0 = n

/-- A row that denotes a number has digits only. -/
theorem isDecimalDigit_of_readDigits {cs : List Char} {value n : Nat}
    (read : readDigits value cs = some n) : ∀ c ∈ cs, isDecimalDigit c = true := by
  induction cs generalizing value with
  | nil => exact nofun
  | cons c cs ih =>
    obtain ⟨d, digit, rest⟩ := Option.bind_eq_some_iff.1 read
    refine List.forall_mem_cons.2 ⟨?_, ih rest⟩
    rw [isDecimalDigit, digit]
    rfl

theorem numeral?_eq_some_iff {s : String} {n : Nat} :
    numeral? s = some n ↔ s ≠ "" ∧ readDigits 0 s.toList = some n := by
  unfold numeral?
  split
  · next none =>
    rw [String.toList_eq_nil_iff.1 none]
    simp
  · next given =>
    rw [given]
    refine ⟨fun read => ⟨?_, read⟩, And.right⟩
    rintro rfl
    cases given

/-- **Numerals of the standard are read as what they denote**, and no other row of ASCII
digits and other characters is read as a number. -/
theorem numeral?_eq_some_iff_isNumeral {s : String} {n : Nat}
    (ascii : ∀ c ∈ s.toList, isDecimalDigit c = true → c.isDigit = true) :
    numeral? s = some n ↔ IsNumeral s n := by
  rw [numeral?_eq_some_iff, IsNumeral]
  refine and_congr_right fun _ => ⟨fun read => ?_, fun ⟨digits, denoted⟩ => ?_⟩
  · have digits : ∀ c ∈ s.toList, c.isDigit = true := fun c hc =>
      ascii c hc (isDecimalDigit_of_readDigits read c hc)
    rw [readDigits_of_isDigit digits] at read
    exact ⟨digits, Option.some.inj read⟩
  · rw [readDigits_of_isDigit digits, denoted]

end Text

namespace Item

/-! ## Values -/

/-- The name of a symbol; a literal has none. -/
def symbol? : Item → Option String
  | symbol name => some name
  | literal _ | list _ => none

/-- **Whether an item denotes a value**, in a numeral of so many digits, by what counts as
a word and what as a numeral. A truth value has no numeral. -/
inductive DenotesBy (word? : Item → Option String) (numeral : String → Nat → Prop) :
    Item → Value → Nat → Prop
  /-- The word of a truth value. -/
  | truth {item : Item} {b : Bool} (word : word? item = some (if b then "true" else "false")) :
    DenotesBy word? numeral item (.bool b) 0
  /-- A symbol that is a numeral. -/
  | number {s : String} {n : Nat} (digits : numeral s n) :
    DenotesBy word? numeral (symbol s) (.int n) s.length
  /-- A sign and a numeral. -/
  | negation {sign magnitude : Item} {s : String} {n : Nat} (minus : word? sign = some "-")
    (word : word? magnitude = some s) (digits : numeral s n) :
    DenotesBy word? numeral (list [sign, magnitude]) (.int (-n)) s.length

/-- **The values of the standard.** -/
abbrev Denotes : Item → Value → Nat → Prop := DenotesBy symbol? Text.IsNumeral

/-- **What is taken for a value on reading.** -/
abbrev TakenFor : Item → Value → Nat → Prop := DenotesBy text? fun s n => Text.numeral? s = some n

/-- More words and more numerals denote more. -/
theorem DenotesBy.mono {word? word'? : Item → Option String} {numeral numeral' : String → Nat → Prop}
    {item : Item} {v : Value} {k : Nat} (h : DenotesBy word? numeral item v k)
    (words : ∀ i s, word? i = some s → word'? i = some s)
    (numerals : ∀ s n, numeral s n → numeral' s n) : DenotesBy word'? numeral' item v k := by
  cases h with
  | truth word => exact .truth (words _ _ word)
  | number digits => exact .number (numerals _ _ digits)
  | negation minus word digits =>
    exact .negation (words _ _ minus) (words _ _ word) (numerals _ _ digits)

/-- **A value of the standard is taken for what it is.** -/
theorem Denotes.takenFor {item : Item} {v : Value} {k : Nat} (h : item.Denotes v k) :
    item.TakenFor v k := by
  refine h.mono (fun i s word => ?_) fun s n digits => ?_
  · cases i with
    | symbol => exact word
    | literal | list => cases word
  · refine Text.numeral?_eq_some_iff.2 ⟨digits.1, ?_⟩
    rw [Text.readDigits_of_isDigit digits.2.1, digits.2.2]

/-- **Items of ordinary writing**: without string literals, and with ASCII digits only. -/
inductive IsOrdinary : Item → Prop
  | symbol {name : String}
    (ascii : ∀ c ∈ name.toList, Text.isDecimalDigit c = true → c.isDigit = true) :
    IsOrdinary (symbol name)
  | list {items : List Item} (members : ∀ item ∈ items, IsOrdinary item) : IsOrdinary (list items)

/-- The words of an ordinary item are its symbols. -/
theorem IsOrdinary.symbol?_eq {item : Item} (h : item.IsOrdinary) : item.symbol? = item.text? := by
  cases h <;> rfl

/-- **An ordinary item is taken for a value only when it is this value.** -/
theorem TakenFor.denotes {item : Item} {v : Value} {k : Nat} (h : item.TakenFor v k)
    (ordinary : item.IsOrdinary) : item.Denotes v k := by
  cases h with
  | truth word => exact .truth (ordinary.symbol?_eq.trans word)
  | number digits =>
    cases ordinary with
    | symbol ascii => exact .number ((Text.numeral?_eq_some_iff_isNumeral ascii).1 digits)
  | @negation sign magnitude s n minus word digits =>
    cases ordinary with
    | list members =>
      have first := members sign List.mem_cons_self
      have second := members magnitude (List.mem_cons_of_mem _ List.mem_cons_self)
      refine .negation (first.symbol?_eq.trans minus) (second.symbol?_eq.trans word) ?_
      cases second with
      | symbol ascii =>
        cases word
        exact (Text.numeral?_eq_some_iff_isNumeral ascii).1 digits
      | list => cases word

end Item

namespace Answer

variable {item : Item}

/-! ## Reading -/

/-- **What is taken for a value is read as this value**, unless its numeral is too long. -/
theorem value_of_takenFor {v : Value} {k : Nat} (h : item.TakenFor v k) :
    value item = if Text.longestNumeral < k then .error (.numeralTooLong k) else .ok v := by
  cases h with
  | @truth item b word =>
    unfold value Item.hasText
    rw [word]
    cases b <;> rfl
  | @number s n digits =>
    have noWord (word : String) (none : Text.numeral? word = none) :
        (Item.symbol s).hasText word = false := by
      refine beq_eq_false_iff_ne.2 fun same => ?_
      rw [Option.some.inj same, none] at digits
      cases digits
    unfold value
    rw [noWord "true" (by decide), noWord "false" (by decide), if_neg Bool.false_ne_true,
      if_neg Bool.false_ne_true]
    simp only [numeral?, digits]
    rfl
  | @negation sign magnitude s n minus word digits =>
    have shape : numeral? (.list [sign, magnitude]) = some (true, s) := by
      rw [numeral?, Item.hasText, minus, word]
      rfl
    unfold value
    rw [shape]
    simp only [digits]
    rfl

/-- **What is not taken for a value is refused.** -/
theorem value_of_not_takenFor (none : ∀ v k, ¬ item.TakenFor v k) :
    value item = .error (.unsupportedValue item) := by
  have notTrue : item.hasText "true" = false :=
    beq_eq_false_iff_ne.2 fun word => none (.bool true) 0 (.truth word)
  have notFalse : item.hasText "false" = false :=
    beq_eq_false_iff_ne.2 fun word => none (.bool false) 0 (.truth word)
  unfold value
  rw [notTrue, notFalse, if_neg Bool.false_ne_true, if_neg Bool.false_ne_true]
  cases shape : numeral? item with
  | none => rfl
  | some found =>
    obtain ⟨negated, s⟩ := found
    cases digits : Text.numeral? s with
    | none => simp [digits]
    | some n =>
      exfalso
      match item with
      | .symbol name =>
        cases shape
        exact none _ _ (.number digits)
      | .list [sign, magnitude] =>
        rw [numeral?] at shape
        split at shape
        · next minus =>
          obtain ⟨text, word, same⟩ := Option.map_eq_some_iff.1 shape
          cases same
          exact none _ _ (.negation (beq_iff_eq.1 minus) word digits)
        · cases shape

/-- **Which items are read as values.** A value of the standard is read as what it is,
unless its numeral is too long. Any other item without string literals and without digits
of other scripts is refused as a fault of interpretation. In general an item is read as a
value exactly when it is taken for this value – a literal by its text, a digit by its
value in its script – in a numeral that is not too long, and one that is taken for no
value is refused. -/
theorem value_accepts (item : Item) :
    (∀ v k, item.Denotes v k →
      value item = if Text.longestNumeral < k then .error (.numeralTooLong k) else .ok v) ∧
    (item.IsOrdinary → (∀ v k, ¬ item.Denotes v k) →
      ∃ fault, value item = .error fault ∧ fault.kind = .protocolError) ∧
    (∀ v, value item = .ok v ↔ ∃ k, item.TakenFor v k ∧ k ≤ Text.longestNumeral) ∧
    ((∀ v k, ¬ item.TakenFor v k) →
      ∃ fault, value item = .error fault ∧ fault.kind = .protocolError) := by
  refine ⟨fun v k denotes => value_of_takenFor denotes.takenFor, fun ordinary none => ?_,
    fun v => ⟨fun read => ?_, ?_⟩, fun none => ⟨_, value_of_not_takenFor none, rfl⟩⟩
  · exact ⟨_, value_of_not_takenFor fun v k taken => none v k (taken.denotes ordinary), rfl⟩
  · by_cases taken : ∃ w k, item.TakenFor w k
    · obtain ⟨w, k, taken⟩ := taken
      rw [value_of_takenFor taken] at read
      split at read
      · cases read
      · next short =>
        cases read
        exact ⟨k, taken, Nat.not_lt.1 short⟩
    · have none : ∀ w k, ¬ item.TakenFor w k := fun w k here => taken ⟨w, k, here⟩
      rw [value_of_not_takenFor none] at read
      cases read
  · rintro ⟨k, taken, short⟩
    rw [value_of_takenFor taken, if_neg (Nat.not_lt.2 short)]

/-- A negative number with a leading zero, a number with a fraction, three in the digits of
another script, a literal that is a word, and a literal that is a numeral. -/
theorem value_accepts_atEdges :
    value (.list [.symbol "-", .symbol "07"]) = .ok (.int (-7)) ∧
    (∃ fault, value (.symbol "1.5") = .error fault ∧ fault.kind = .protocolError) ∧
    value (.symbol "٣") = .ok (.int 3) ∧
    value (.literal "true") = .ok (.bool true) ∧
    ∃ fault, value (.literal "7") = .error fault ∧ fault.kind = .protocolError := by
  have digits : Text.IsNumeral "07" 7 :=
    ⟨by decide, List.all_eq_true.1 (show "07".toList.all Char.isDigit = true from rfl), rfl⟩
  have seven : (Item.list [.symbol "-", .symbol "07"]).Denotes (.int (-7)) 2 :=
    .negation rfl rfl digits
  have ordinary : (Item.symbol "1.5").IsOrdinary := .symbol (by
    simpa using show Text.isDecimalDigit '.' = false by decide)
  have fraction : ∀ v k, ¬ (Item.symbol "1.5").Denotes v k := by
    intro v k denotes
    cases denotes with
    | @truth _ b word => cases b <;> exact absurd word (by decide)
    | number digits => exact absurd (digits.2.1 '.' (by decide)) (by decide)
  have three : (Item.symbol "٣").TakenFor (.int 3) 1 := .number (by decide)
  have word : (Item.literal "true").TakenFor (.bool true) 0 := .truth rfl
  have numeral : ∀ v k, ¬ (Item.literal "7").TakenFor v k := by
    intro v k taken
    cases taken with
    | @truth _ b word => cases b <;> exact absurd word (by decide)
  refine ⟨(value_accepts _).1 _ _ seven, (value_accepts _).2.1 ordinary fraction,
    ((value_accepts _).2.2.1 _).2 ⟨1, three, by decide⟩,
    ((value_accepts _).2.2.1 _).2 ⟨0, word, by decide⟩, (value_accepts _).2.2.2 numeral⟩

/-- A string literal is an item that denotes no value, and this one is read as a truth
value. -/
theorem value_of_literal_word :
    Item.parse "\"true\"" = .ok [.literal "true"] ∧
      (∀ v k, ¬ (Item.literal "true").Denotes v k) ∧
      ¬ ∃ fault, value (.literal "true") = .error fault ∧ fault.kind = .protocolError := by
  refine ⟨by cbv, fun v k denotes => ?_, ?_⟩
  · cases denotes with
    | truth word => cases word
  · rintro ⟨fault, read, -⟩
    cases read

end Answer

end SmtDialogue
