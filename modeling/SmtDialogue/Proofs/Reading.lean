import SmtDialogue.Proofs.Forms
import SmtDialogue.Proofs.Meaning

/-!
# Reading terms back

What a solver makes of the text of a term. A symbol between bars is a variable,
whatever stands between them; the bare `true` and `false` and bare numerals are
literals, and so is the negation of a numeral; any other bare symbol is a
variable, unless it is a reserved word, and the head of a list is an operator.

The term of an expression reads back as itself (`Term.ofText_text`), and so its
text means what the expression meant (`eval_ofText`). A name that looks like a
number, a truth value or an operator is no danger: a numeral is no simple
symbol, the reserved words are written between bars, and the symbol of an
operator stands for it at the head of a list only.
-/

namespace SmtDialogue

/-! ## Characters of symbols and numerals -/

theorem toNat_of_isAlpha {c : Char} (h : c.isAlpha = true) :
    65 ≤ c.toNat ∧ c.toNat ≤ 90 ∨ 97 ≤ c.toNat ∧ c.toNat ≤ 122 := by
  have letter : (decide (c.val ≥ 65 ∧ c.val ≤ 90) || (c.val ≥ 97 && c.val ≤ 122)) = true := h
  simpa [UInt32.le_iff_toNat_le] using letter

theorem toNat_of_isDigit {c : Char} (h : c.isDigit = true) : 48 ≤ c.toNat ∧ c.toNat ≤ 57 := by
  simpa [Char.isDigit, UInt32.le_iff_toNat_le] using h

theorem isDigit_of_mem_repr {n : Nat} {c : Char} (h : c ∈ n.repr.toList) : c.isDigit = true := by
  rw [Nat.toList_repr] at h
  exact Nat.isDigit_of_mem_toDigits (by decide) (by decide) h

namespace Text

theorem digitValue?_of_isDigit {c : Char} (h : c.isDigit = true) :
    digitValue? c = some (c.toNat - '0'.toNat) := by
  obtain ⟨lo, hi⟩ := toNat_of_isDigit h
  have first : (decide (48 ≤ c.toNat) && decide (c.toNat < 48 + 10)) = true := by
    simp; omega
  simp [digitValue?, decimalZeros, first]

theorem readDigits_of_isDigit {cs : List Char} (h : ∀ c ∈ cs, c.isDigit = true) (n : Nat) :
    readDigits n cs = some (Nat.ofDigitChars 10 cs n) := by
  induction cs generalizing n with
  | nil => rw [readDigits, Nat.ofDigitChars_nil]
  | cons c cs ih =>
    rw [readDigits, digitValue?_of_isDigit (h c List.mem_cons_self), Option.bind_some,
      ih fun d hd => h d (List.mem_cons_of_mem _ hd), Nat.ofDigitChars_cons]

/-- A number that is written is read as itself. -/
theorem numeral?_repr (n : Nat) : numeral? n.repr = some n := by
  unfold numeral?
  split
  · next none =>
    rw [Nat.toList_repr] at none
    exact absurd none Nat.toDigits_ne_nil
  · next c rest digits =>
    rw [← digits, readDigits_of_isDigit fun _ => isDigit_of_mem_repr, Nat.toList_repr,
      Nat.ofDigitChars_ten_toDigits]

end Text

namespace Smt

/-- No digit starts a symbol. -/
theorem startsSymbol_of_isDigit {c : Char} (h : c.isDigit = true) : startsSymbol c = false := by
  have marks : ∀ c ∈ symbolMarks, c.isDigit = false := by
    simpa using List.all_eq_true.1 (show symbolMarks.all (!·.isDigit) = true by decide)
  rw [startsSymbol, Bool.or_eq_false_iff]
  constructor
  · by_contra alpha
    have digit := toNat_of_isDigit h
    rcases toNat_of_isAlpha (Bool.not_eq_false _ ▸ alpha) with letter | letter <;> omega
  · by_contra mark
    rw [marks c (List.contains_iff_mem.1 (Bool.not_eq_false _ ▸ mark))] at h
    cases h

/-- Letters and digits are no blanks and none of the characters that have a
meaning of their own. -/
theorem endsBare_of_toNat {c : Char} (h : 48 ≤ c.toNat ∧ c.toNat ≤ 57 ∨
    65 ≤ c.toNat ∧ c.toNat ≤ 90 ∨ 97 ≤ c.toNat ∧ c.toNat ≤ 122) : Scan.endsBare c = false := by
  by_contra ends
  simp only [Bool.not_eq_false, Scan.endsBare, Bool.or_eq_true, beq_iff_eq] at ends
  rcases ends with ((((blank | rfl) | rfl) | rfl) | rfl) | rfl
  · simp [Text.isBlank] at blank
    omega
  all_goals revert h; decide

theorem endsBare_of_isDigit {c : Char} (h : c.isDigit = true) : Scan.endsBare c = false :=
  endsBare_of_toNat (.inl (toNat_of_isDigit h))

/-- What may stand in a symbol ends no bare atom. -/
theorem endsBare_of_continuesSymbol {c : Char} (h : continuesSymbol c = true) :
    Scan.endsBare c = false := by
  have marks : ∀ c ∈ symbolMarks, Scan.endsBare c = false := by
    simpa using List.all_eq_true.1 (show symbolMarks.all (!Scan.endsBare ·) = true by decide)
  simp only [continuesSymbol, startsSymbol, Bool.or_eq_true, List.contains_iff_mem] at h
  rcases h with (alpha | mark) | digit
  · exact endsBare_of_toNat (.inr (toNat_of_isAlpha alpha))
  · exact marks c mark
  · exact endsBare_of_isDigit digit

/-! ## Names and literals -/

/-- A simple symbol starts with a character that may start one, and goes on with
such that may go on in one. -/
theorem exists_of_isSimple {name : String} (h : isSimple name = true) :
    ∃ c cs, name.toList = c :: cs ∧ startsSymbol c = true ∧ ∀ d ∈ cs, continuesSymbol d = true := by
  unfold isSimple at h
  split at h
  · cases h
  · next c cs shape =>
    rw [Bool.and_eq_true, List.all_eq_true] at h
    exact ⟨c, cs, shape, h⟩

/-- A plain name is written as one bare token. -/
theorem writable_bare_of_isSimple {name : String} (h : isSimple name = true) :
    (Token.bare name).Writable := by
  obtain ⟨c, cs, shape, first, others⟩ := exists_of_isSimple h
  refine ⟨fun none => ?_, fun d hd => endsBare_of_continuesSymbol ?_⟩
  · rw [none] at shape
    cases shape
  · rw [shape] at hd
    rcases List.mem_cons.1 hd with rfl | hd
    · rw [continuesSymbol, first, Bool.true_or]
    · exact others d hd

/-- A written number is no simple symbol. -/
theorem isSimple_repr (n : Nat) : isSimple n.repr = false := by
  by_contra simple
  obtain ⟨c, cs, shape, first, -⟩ := exists_of_isSimple (Bool.not_eq_false _ ▸ simple)
  rw [startsSymbol_of_isDigit (isDigit_of_mem_repr (shape ▸ List.mem_cons_self))] at first
  cases first

/-- The form of a name. -/
def nameForm (name : String) : Form :=
  .atom (if isPlainName name then .bare name else .barred name)

/-- The form of a number. -/
def numeralForm (n : Nat) : Form :=
  .atom (.bare n.repr)

/-- The form of a value. -/
def literalForm : Value → Form
  | .bool b => .atom (.bare (if b then "true" else "false"))
  | .int n =>
    if n < 0 then .list [.atom (.bare "-"), numeralForm n.natAbs] else numeralForm n.natAbs

theorem text_nameForm (name : String) : (nameForm name).text = symbolText name := by
  unfold nameForm symbolText
  split <;> rfl

@[simp] theorem item_nameForm (name : String) : (nameForm name).item = .symbol name := by
  unfold nameForm
  split <;> rfl

theorem text_literalForm (v : Value) : (literalForm v).text = literalText v := by
  cases v with
  | bool b => cases b <;> rfl
  | int n =>
    rw [literalForm, literalText]
    split
    · rw [Form.text_list]
      rfl
    · rfl

theorem writable_nameForm {name : String} (h : isWritable name = true) :
    (nameForm name).Writable := by
  unfold nameForm
  by_cases plain : isPlainName name = true
  · rw [if_pos plain]
    rw [isPlainName, Bool.and_eq_true] at plain
    exact .atom (by constructor <;> nofun) (writable_bare_of_isSimple plain.1)
  · rw [if_neg plain]
    refine .atom (by constructor <;> nofun) fun bar => ?_
    simp [isWritable, plain] at h
    exact h.1 bar

theorem writable_numeralForm (n : Nat) : (numeralForm n).Writable :=
  .atom (by constructor <;> nofun)
    ⟨Nat.repr_ne_empty, fun _ h => endsBare_of_isDigit (isDigit_of_mem_repr h)⟩

/-- A word of letters and marks is written as one bare token. -/
theorem writable_bare {word : String} (some : word ≠ "")
    (inside : word.toList.all (fun c => !Scan.endsBare c) = true) :
    (Form.atom (.bare word)).Writable :=
  .atom (by constructor <;> nofun)
    ⟨some, fun c hc => by simpa using List.all_eq_true.1 inside c hc⟩

theorem writable_literalForm (v : Value) : (literalForm v).Writable := by
  cases v with
  | bool b => cases b <;> exact writable_bare (by decide) (by decide)
  | int n =>
    rw [literalForm]
    split
    · refine .list fun f hf => ?_
      rcases List.mem_pair.1 hf with rfl | rfl
      · exact writable_bare (by decide) (by decide)
      · exact writable_numeralForm _
    · exact writable_numeralForm _

namespace Term

/-! ## The form of a term -/

mutual

/-- The form of a term. -/
def form : Term → Form
  | symbol name => nameForm name
  | literal value => literalForm value
  | app head args => .list (.atom (.bare head) :: formAll args)

/-- The forms of several terms. -/
def formAll : List Term → List Form
  | [] => []
  | t :: ts => t.form :: formAll ts

end

@[simp] theorem formAll_eq_map (ts : List Term) : formAll ts = ts.map form := by
  induction ts with
  | nil => rfl
  | cons t ts ih => rw [formAll, ih, List.map_cons]

theorem form_app (head : String) (args : List Term) :
    (app head args).form = .list (.atom (.bare head) :: args.map form) := by
  rw [form, formAll_eq_map]

theorem text_app (head : String) (args : List Term) :
    (app head args).text = "(" ++ head ++ " " ++ " ".intercalate (args.map text) ++ ")" := by
  rw [text, textAll_eq_map]

/-- **A term with names** of some property, in which every symbol of an operator
is one. -/
inductive Named (names : String → Prop) : Term → Prop
  | symbol {name : String} (h : names name) : Named names (symbol name)
  | literal (value : Value) : Named names (literal value)
  | app {op : Op} {args : List Term} (inner : op.isLeaf = false)
    (parts : ∀ t ∈ args, Named names t) : Named names (app (headOf op) args)

/-- **A term over names** with some property, in which every operator has an
operand, and a difference two. One operand would make it the negation of a
numeral. -/
inductive Over (names : String → Prop) : Term → Prop
  | symbol {name : String} (h : names name) : Over names (symbol name)
  | literal (value : Value) : Over names (literal value)
  | app {op : Op} {args : List Term} (inner : op.isLeaf = false) (some : args ≠ [])
    (difference : op = .sub → 2 ≤ args.length) (parts : ∀ t ∈ args, Over names t) :
    Over names (app (headOf op) args)

variable {names : String → Prop}

theorem Over.mono {more : String → Prop} (h : ∀ x, names x → more x) {t : Term}
    (named : t.Over names) : t.Over more := by
  induction named with
  | symbol name => exact .symbol (h _ name)
  | literal value => exact .literal value
  | app inner some difference _ ih => exact .app inner some difference ih

theorem Over.named {t : Term} (h : t.Over names) : t.Named names := by
  induction h with
  | symbol name => exact .symbol name
  | literal value => exact .literal value
  | app inner _ _ _ ih => exact .app inner ih

/-- The symbols of operators are words of letters and marks. -/
theorem writable_headOf {op : Op} (inner : op.isLeaf = false) :
    (Form.atom (.bare (headOf op))).Writable := by
  cases op with
  | identity | const => cases inner
  | _ => exact writable_bare (by decide) (by decide)

/-- The text of a term is that of its form. -/
theorem text_form {t : Term} (h : t.Over names) : t.form.text = t.text := by
  induction h with
  | symbol => exact text_nameForm _
  | literal => exact text_literalForm _
  | @app op args _ some _ _ ih =>
    have texts : (args.map form).map Form.text = args.map text := by
      rw [List.map_map]
      exact List.map_congr_left ih
    rw [form_app, Form.text_list, List.map_cons, texts,
      String.intercalate_cons_of_ne_nil (by simpa using some), text_app]
    show "(" ++ (headOf op ++ " " ++ _) ++ ")" = _
    simp only [String.append_assoc]

/-- A term with writable names can be written. -/
theorem writable_form {t : Term} (h : t.Named fun x => isWritable x = true) : t.form.Writable := by
  induction h with
  | symbol writable => exact writable_nameForm writable
  | literal => exact writable_literalForm _
  | app inner _ ih =>
    rw [form_app]
    refine .list fun f hf => ?_
    rcases List.mem_cons.1 hf with rfl | hf
    · exact writable_headOf inner
    · obtain ⟨t, ht, rfl⟩ := List.mem_map.1 hf
      exact ih t ht

/-! ## Reading -/

/-- The number that a bare token denotes; a numeral has no leading zeros. -/
def numeral? (s : String) : Option Nat :=
  (Text.numeral? s).filter fun n => n.repr == s

/-- What a bare token stands for, except at the head of a list. -/
def ofBare (s : String) : Option Term :=
  if s = "true" then some (literal (.bool true))
  else if s = "false" then some (literal (.bool false))
  else
    match numeral? s with
    | some n => some (literal (.int n))
    | none => if isPlainName s then some (symbol s) else none

/-- The number that a list with some head denotes: the negation of a numeral. -/
def negation? (head : String) : List Form → Option Int
  | [.atom (.bare s)] => if head = "-" then (numeral? s).map fun n => -(n : Int) else none
  | _ => none

mutual

/-- The term that a form stands for. -/
def ofForm : Form → Option Term
  | .atom (.barred name) => some (symbol name)
  | .atom (.bare s) => ofBare s
  | .list (.atom (.bare head) :: args) =>
    match negation? head args with
    | some n => some (literal (.int n))
    | none => (ofForms args).map (app head)
  | _ => none

/-- The terms that several forms stand for. -/
def ofForms : List Form → Option (List Term)
  | [] => some []
  | f :: fs => do
    let t ← ofForm f
    let ts ← ofForms fs
    return t :: ts

end

/-- **The term that a text stands for.** -/
def ofText (text : String) : Option Term :=
  match Form.ofText text with
  | some [f] => ofForm f
  | _ => none

@[simp] theorem numeral?_repr (n : Nat) : numeral? n.repr = some n := by
  simp [numeral?, Text.numeral?_repr]

/-- A simple symbol is no numeral. -/
theorem numeral?_of_isSimple {s : String} (h : isSimple s = true) : numeral? s = none := by
  unfold numeral?
  cases Text.numeral? s with
  | none => rfl
  | some n =>
    refine Option.filter_eq_none_iff.2 fun m hm same => ?_
    rw [← beq_iff_eq.1 same, isSimple_repr] at h
    cases h

/-- The form of a name stands for the variable. -/
theorem ofForm_nameForm (name : String) : ofForm (nameForm name) = some (symbol name) := by
  unfold nameForm
  by_cases plain : isPlainName name = true
  · rw [if_pos plain, ofForm, ofBare, if_neg (by rintro rfl; exact absurd plain (by decide)),
      if_neg (by rintro rfl; exact absurd plain (by decide)),
      numeral?_of_isSimple (Bool.and_eq_true _ _ ▸ plain).1]
    exact if_pos plain
  · rw [if_neg plain, ofForm]

theorem ofForm_numeralForm (n : Nat) : ofForm (numeralForm n) = some (literal (.int n)) := by
  have noWord (word : String) (h : numeral? word = none) : n.repr ≠ word := fun same => by
    rw [← same, numeral?_repr] at h
    cases h
  rw [numeralForm, ofForm, ofBare, if_neg (noWord _ (numeral?_of_isSimple (by decide))),
    if_neg (noWord _ (numeral?_of_isSimple (by decide))), numeral?_repr]

/-- The form of a value stands for the literal. -/
theorem ofForm_literalForm (v : Value) : ofForm (literalForm v) = some (literal v) := by
  cases v with
  | bool b => cases b <;> rfl
  | int n =>
    rw [literalForm]
    by_cases negative : n < 0
    · have read : negation? "-" [numeralForm n.natAbs] = some n := by
        rw [numeralForm, negation?, if_pos rfl, numeral?_repr]
        show some (-(n.natAbs : Int)) = some n
        exact congrArg some (by omega)
      rw [if_pos negative, ofForm, read]
    · rw [if_neg negative, ofForm_numeralForm]
      exact congrArg (fun k => some (literal (.int k))) (by omega)

theorem ofForms_eq_some_iff {fs : List Form} {ts : List Term} :
    ofForms fs = some ts ↔ List.Forall₂ (fun f t => ofForm f = some t) fs ts := by
  induction fs generalizing ts with
  | nil => simp [ofForms, eq_comm]
  | cons f fs ih =>
    rw [ofForms, List.forall₂_cons_left_iff]
    simp only [bind, Option.bind_eq_some_iff, pure, Option.some.injEq, ih]
    exact ⟨fun ⟨t, ht, ts, hts, made⟩ => ⟨t, ts, ht, hts, made.symm⟩,
      fun ⟨t, ts, ht, hts, made⟩ => ⟨t, ht, ts, hts, made.symm⟩⟩

/-- What follows the symbol of an operator is not taken for a numeral under a
sign: a difference has two operands, and no other operator has that symbol. -/
theorem negation?_headOf {op : Op} {args : List Term} (difference : op = .sub → 2 ≤ args.length) :
    negation? (headOf op) (args.map form) = none := by
  match args with
  | [] => rfl
  | [t] =>
    have sign : headOf op ≠ "-" := by
      intro same
      cases op <;> first | exact absurd (difference rfl) (by simp) | exact absurd same (by decide)
    rw [List.map_singleton]
    cases t.form with
    | list => rfl
    | atom token =>
      cases token with
      | bare => rw [negation?, if_neg sign]
      | _ => rfl
  | t :: u :: ts =>
    -- a sign has one operand
    rw [negation?]
    intro s one
    exact absurd (List.cons.inj one).2 (List.cons_ne_nil _ _)

/-- The form of a term stands for the term. -/
theorem ofForm_form {t : Term} (h : t.Over names) : ofForm t.form = some t := by
  induction h with
  | symbol => exact ofForm_nameForm _
  | literal => exact ofForm_literalForm _
  | @app op args _ _ difference _ ih =>
    have parts : ofForms (args.map form) = some args := by
      rw [ofForms_eq_some_iff, List.forall₂_map_left_iff, List.forall₂_same]
      exact ih
    rw [form_app, ofForm, negation?_headOf difference, parts]
    rfl

/-- **A term over writable names reads back as itself.** -/
theorem ofText_text {t : Term} (h : t.Over fun x => isWritable x = true) :
    ofText t.text = some t := by
  rw [ofText, ← text_form h, Form.ofText_text (writable_form h.named)]
  exact ofForm_form h

/-! ## Terms of expressions -/

/-- What is written for an operator on as many operands as it takes. -/
theorem over_apply {op : Op} (inner : op.isLeaf = false) {ts : List Term}
    (enough : op.accepts ts.length = true) (parts : ∀ t ∈ ts, t.Over names) :
    (apply op ts).Over names := by
  have applied : (app (headOf op) ts).Over names := by
    refine .app inner ?_ ?_ parts
    · rintro rfl
      cases op <;> first | exact absurd inner (by decide) | exact absurd enough (by decide)
    · rintro rfl
      exact (Op.accepts_iff.1 enough).1
  unfold apply
  split
  · split
    · exact parts _ List.mem_cons_self
    · exact applied
  · exact applied

/-- **The term of an expression** is over the names of its variables, all of
which are writable. -/
theorem over_ofExpr {e : Expr} (built : e.Built) (named : ∀ x ∈ e.variableNames, names x) {t : Term}
    (written : ofExpr e = .ok t) : t.Over fun x => isWritable x = true ∧ names x := by
  induction e using Expr.induct generalizing t with
  | node l cs ih =>
    by_cases leaf : l.op = .identity
    · obtain ⟨writable, rfl⟩ := (ofExpr_identity leaf).1 written
      exact .symbol ⟨writable, named _ (Expr.mem_variableNames_node.2 (.inl ⟨leaf, rfl⟩))⟩
    by_cases literal : l.op = .const
    · obtain ⟨v, -, rfl⟩ := (ofExpr_const literal).1 written
      exact .literal v
    have inner : l.op.isLeaf = false := Op.isLeaf_eq_false_iff.2 ⟨leaf, literal⟩
    obtain ⟨ts, parts, rfl⟩ := (ofExpr_inner inner).1 written
    refine over_apply inner (parts.length_eq ▸ built.accepts inner) fun t ht => ?_
    obtain ⟨c, hc, written⟩ := Outcome.exists_of_mem_right parts ht
    exact ih c hc (built.child hc)
      (fun x hx => named x (Expr.mem_variableNames_node.2 (.inr ⟨c, hc, hx⟩))) written

/-- An expression whose variables have writable names has a term. -/
theorem exists_ofExpr {e : Expr} (built : e.Built)
    (writable : ∀ x ∈ e.variableNames, isWritable x = true) : ∃ t, ofExpr e = .ok t := by
  induction e using Expr.induct with
  | node l cs ih =>
    by_cases leaf : l.op = .identity
    · have own := writable l.name (Expr.mem_variableNames_node.2 (.inl ⟨leaf, rfl⟩))
      exact ⟨_, (ofExpr_identity leaf).2 ⟨own, rfl⟩⟩
    by_cases literal : l.op = .const
    · obtain ⟨v, -, -, -, valued⟩ := built.exists_of_const literal
      exact ⟨_, (ofExpr_const literal).2 ⟨v, valued, rfl⟩⟩
    have inner : l.op.isLeaf = false := Op.isLeaf_eq_false_iff.2 ⟨leaf, literal⟩
    obtain ⟨ts, parts⟩ := Outcome.exists_row fun c hc => ih c hc (built.child hc) fun x hx =>
      writable x (Expr.mem_variableNames_node.2 (.inr ⟨c, hc, hx⟩))
    exact ⟨_, (ofExpr_inner inner).2 ⟨ts, parts, rfl⟩⟩

/-- Where there is a term, the variables have writable names. -/
theorem isWritable_of_ofExpr {e : Expr} (built : e.Built) {t : Term} (written : ofExpr e = .ok t) :
    ∀ x ∈ e.variableNames, isWritable x = true := by
  induction e using Expr.induct generalizing t with
  | node l cs ih =>
    intro x hx
    rcases Expr.mem_variableNames_node.1 hx with ⟨leaf, rfl⟩ | ⟨c, hc, hx⟩
    · exact ((ofExpr_identity leaf).1 written).1
    · have inner : l.op.isLeaf = false := Bool.eq_false_iff.2 fun leaf =>
        List.ne_nil_of_mem hc (built.children_of_isLeaf leaf)
      obtain ⟨ts, parts, -⟩ := (ofExpr_inner inner).1 written
      obtain ⟨t, -, written⟩ := Outcome.exists_of_mem_right parts.flip hc
      exact ih c hc (built.child hc) written x hx

end Term

/-- **Writing preserves meaning.** An expression that builders make, whose
variables have writable names and sorts that fit, has a term; the text of the
term, read back and evaluated by the standard meaning under values of these
sorts, gives the value of the expression under the same values, which is a truth
value. -/
theorem eval_ofText {e : Expr} (built : e.Built)
    (writable : ∀ x ∈ e.variableNames, isWritable x = true) {declared found : SortTable}
    (sorts : inferSorts declared e = .ok found) {ρ : Valuation} (fits : found.Fits ρ) :
    ∃ (t : Term) (b : Bool), Term.ofExpr e = .ok t ∧
      Term.ofText t.text >>= Term.eval ρ = some (.bool b) ∧
      e.valueUnder (fun x => some (ρ x)) = .ok (some (.bool b)) := by
  obtain ⟨t, written⟩ := Term.exists_ofExpr built writable
  obtain ⟨v, sorted, value, same⟩ := exists_haveValue fits built (inferSorts_spec sorts).sorted
  obtain ⟨b, rfl⟩ := Value.exists_of_sort_bool sorted
  refine ⟨t, b, written, ?_, value⟩
  have named : t.Over fun x => isWritable x = true ∧ True :=
    Term.over_ofExpr built (fun _ _ => trivial) written
  rw [Term.ofText_text (named.mono fun _ h => h.1)]
  exact same t written

/-- An implication over variables that are called like an operator and like a
number. -/
def oddlyNamed : Expr :=
  .node ⟨.implies, "implies_and_le_-7_5", none, none, none⟩
    [.var "and" (some .bool),
     .node ⟨.le, "le_-7_5", none, none, none⟩ [.constant (.int (-7)), .var "5" (some .int)]]

theorem built_oddlyNamed : oddlyNamed.Built := by
  have whole : Expr.combineExprs .implies oddlyNamed.children = .ok oddlyNamed := rfl
  have atMost : Expr.combineExprs .le [.constant (.int (-7)), .var "5" (some .int)] =
      .ok (.node ⟨.le, "le_-7_5", none, none, none⟩
        [.constant (.int (-7)), .var "5" (some .int)]) := rfl
  refine .of_combineExprs whole rfl fun c hc => ?_
  rcases List.mem_pair.1 hc with rfl | rfl
  · exact .var _ _ _ _
  · refine .of_combineExprs atMost rfl fun c hc => ?_
    rcases List.mem_pair.1 hc with rfl | rfl
    · exact .const (.int (-7)) none
    · exact .var _ _ _ _

theorem eval_oddlyNamed : ∃ (t : Term) (b : Bool), Term.ofExpr oddlyNamed = .ok t ∧
    Term.ofText t.text >>= Term.eval (fun x => if x = "and" then .bool true else .int 3) =
      some (.bool b) ∧
    oddlyNamed.valueUnder (fun x => some (if x = "and" then .bool true else .int 3)) =
      .ok (some (.bool b)) := by
  have sorts : inferSorts [] oddlyNamed = .ok [("and", .bool), ("5", .int)] := rfl
  refine eval_ofText built_oddlyNamed (by decide) sorts fun name sort known => ?_
  rw [SortTable.sortOf?_cons, SortTable.sortOf?_cons, SortTable.sortOf?_nil] at known
  split at known
  · next h => cases known; rw [if_pos h]; rfl
  · next h =>
    rw [if_neg h]
    split at known <;> cases known
    rfl

end Smt

end SmtDialogue
