import SmtDialogue.Proofs.Layout
import SmtDialogue.Proofs.Recording
import SmtDialogue.Smt.Script

/-!
# Scripts

A script is a whole problem as one text. It says what a dialogue would say for the
same expressions, one assertion after the other (`assertions`), with all
declarations moved in front, and then asks for the values of all variables.

Three passes over the expressions take part. Sort inference finds the constants to
declare, each at its first occurrence; the variables whose values are asked for are
collected without regard to sorts; and the terms are written. In a dialogue, what
is new is looked up in a table that grows between the assertions, and the terms are
written before that. That all of them agree rests on one fact about first
occurrences: names that are added to what is there already are those that are added
to nothing, without those that are there (`SortTable.foldl_addName_append`).

So a script can be made exactly when the assertions can be made one after the other
(`script_spec`). It is a text that reads as its commands, in which each constant
that a term mentions has been declared once, before any term, with its sort.
-/

namespace SmtDialogue

namespace SortTable

/-- Names added to the names of a table are the same names added to nothing, as far
as the table does not have them. -/
theorem foldl_addName_append (declared : SortTable) (new xs : List String) :
    xs.foldl addName (declared.names ++ new.filter (!declared.contains ·)) =
      declared.names ++ (xs.foldl addName new).filter (!declared.contains ·) := by
  induction xs generalizing new with
  | nil => rfl
  | cons x xs ih =>
    rw [List.foldl_cons, List.foldl_cons, ← ih]
    refine congrArg (xs.foldl addName) ?_
    have known : declared.contains x = decide (x ∈ declared.names) := by
      rw [Bool.eq_iff_iff, contains_iff, decide_eq_true_iff]
    unfold addName
    by_cases there : x ∈ declared.names <;> by_cases here : x ∈ new <;>
      simp [known, there, here, List.filter_append]

end SortTable

namespace Smt

open SmtDialogue.Expr
open SortTable (addName)

/-! ## One assertion after the other -/

/-- The commands that assert several expressions one after the other, and the table
of declared constants after them. -/
def assertions : SortTable → List Expr → Except WriteError (List Command × SortTable)
  | declared, [] => .ok ([], declared)
  | declared, e :: es => do
    let (block, declared) ← assertion declared e
    let (blocks, declared) ← assertions declared es
    return (block ++ blocks, declared)

variable {declared final : SortTable} {es : List Expr} {cs : List Command}

theorem assertions_nil : assertions declared [] = .ok (cs, final) ↔ cs = [] ∧ final = declared := by
  rw [assertions, Except.ok.injEq, Prod.mk.injEq, eq_comm, eq_comm (a := declared)]

theorem assertions_cons {e : Expr} :
    assertions declared (e :: es) = .ok (cs, final) ↔
      ∃ t new blocks, Term.ofExpr e = .ok t ∧ newDeclarations declared e = .ok new ∧
        assertions (declared ++ new) es = .ok (blocks, final) ∧
        cs = declareAll new ++ .assert t :: blocks := by
  rw [assertions, Outcome.bind_eq_ok_iff]
  constructor
  · rintro ⟨⟨block, middle⟩, first, rest⟩
    obtain ⟨⟨blocks, last⟩, others, same⟩ := Outcome.bind_eq_ok_iff.1 rest
    cases same
    obtain ⟨t, new, written, made, rfl, rfl⟩ := assertion_eq_ok_iff.1 first
    exact ⟨t, new, blocks, written, made, others, by simp⟩
  · rintro ⟨t, new, blocks, written, made, others, rfl⟩
    refine ⟨_, assertion_eq_ok_iff.2 ⟨t, new, written, made, rfl, rfl⟩,
      Outcome.bind_eq_ok_iff.2 ⟨_, others, ?_⟩⟩
    simp [pure, Except.pure]

/-- Whether a command declares a constant. -/
def Command.isDeclaration : Command → Bool
  | declare .. => true
  | _ => false

theorem filter_isDeclaration_declareAll (new : SortTable) :
    (declareAll new).filter Command.isDeclaration = declareAll new := by
  refine List.filter_eq_self.2 fun c hc => ?_
  obtain ⟨_, -, rfl⟩ := List.mem_map.1 hc
  rfl

/-- **Declarations and assertions can be kept apart** as they are made: that gives
the same commands, in the same order. -/
theorem collectAssertions_eq_ok_iff {ds as : List Command} :
    collectAssertions declared es = .ok (ds, as, final) ↔
      ∃ cs, assertions declared es = .ok (cs, final) ∧
        ds = cs.filter Command.isDeclaration ∧ as = cs.filter Command.isAssertion := by
  induction es generalizing declared ds as with
  | nil =>
    simp only [collectAssertions, assertions_nil, Except.ok.injEq, Prod.mk.injEq]
    constructor
    · rintro ⟨rfl, rfl, rfl⟩
      exact ⟨[], ⟨rfl, rfl⟩, rfl, rfl⟩
    · rintro ⟨_, ⟨rfl, rfl⟩, rfl, rfl⟩
      exact ⟨rfl, rfl, rfl⟩
  | cons e es ih =>
    have parts (new : SortTable) (t : Term) (blocks : List Command) :
        (declareAll new ++ .assert t :: blocks).filter Command.isDeclaration =
            declareAll new ++ blocks.filter Command.isDeclaration ∧
          (declareAll new ++ .assert t :: blocks).filter Command.isAssertion =
            .assert t :: blocks.filter Command.isAssertion := by
      rw [List.filter_append, filter_isDeclaration_declareAll, List.filter_append,
        filter_isAssertion_declareAll]
      exact ⟨rfl, rfl⟩
    simp only [collectAssertions, Outcome.bind_eq_ok_iff, assertions_cons]
    constructor
    · rintro ⟨new, made, t, written, ⟨ds, as, last⟩, others, same⟩
      cases same
      obtain ⟨blocks, others, rfl, rfl⟩ := ih.1 others
      exact ⟨_, ⟨t, new, blocks, written, made, others, rfl⟩, (parts new t blocks).1.symm,
        (parts new t blocks).2.symm⟩
    · rintro ⟨_, ⟨t, new, blocks, written, made, others, rfl⟩, rfl, rfl⟩
      refine ⟨new, made, t, written, _, ih.2 ⟨blocks, others, rfl, rfl⟩, ?_⟩
      rw [(parts new t blocks).1, (parts new t blocks).2]
      rfl

/-! ## What is declared -/

/-- New declarations go on from the names declared before, each at its first
occurrence. -/
theorem names_of_newDeclarations {e : Expr} {new : SortTable} (built : e.Built)
    (made : newDeclarations declared e = .ok new) :
    (declared ++ new).names = e.variableNames.foldl addName declared.names := by
  unfold newDeclarations at made
  obtain ⟨found, inferred, made⟩ := Outcome.bind_eq_ok_iff.1 made
  obtain ⟨⟨⟩, -, made⟩ := Outcome.bind_eq_ok_iff.1 made
  cases made
  have all := SortTable.foldl_addName_append declared [] e.variableNames
  rw [List.filter_nil, List.append_nil] at all
  rw [SortTable.names_append, SortTable.names_newIn, names_of_infer built inferred, all]
  rfl

/-- **The constants declared by some assertions** are the variables of the
expressions, on top of those that were declared before. -/
theorem names_of_assertions (built : ∀ e ∈ es, e.Built)
    (made : assertions declared es = .ok (cs, final)) :
    final.names = (es.flatMap variableNames).foldl addName declared.names := by
  induction es generalizing declared cs with
  | nil =>
    obtain ⟨-, rfl⟩ := assertions_nil.1 made
    rfl
  | cons e es ih =>
    obtain ⟨t, new, blocks, -, declaring, others, -⟩ := assertions_cons.1 made
    rw [ih (fun d hd => built d (List.mem_cons_of_mem _ hd)) others,
      names_of_newDeclarations (built e List.mem_cons_self) declaring, List.flatMap_cons,
      List.foldl_append]

/-- **An assertion of an expression** over some constants: the expression is a truth
value, and its term is well-sorted without a variable that is not among them. -/
def Asserts (declared : SortTable) (e : Expr) (c : Command) : Prop :=
  ∃ t, Term.ofExpr e = .ok t ∧ c = .assert t ∧ e.HasSort declared .bool ∧
    t.sort? declared = some .bool ∧ ∀ x ∈ t.names, x ∈ declared.names

/-- **What assertions say of some expressions**, and what they declare when nothing
has been declared before. -/
structure SelfContained (es : List Expr) (cs : List Command) (declared : SortTable) : Prop where
  /-- No constant is declared twice. -/
  once : declared.names.Nodup
  /-- The constants are the variables of the expressions, in the order of their first
  occurrence. -/
  names : declared.names = (vars es).map name
  /-- Their declarations are all there are. -/
  declarations : cs.filter Command.isDeclaration = declareAll declared
  /-- The expressions are asserted over them, in this order. -/
  assertions : List.Forall₂ (Asserts declared) es (cs.filter Command.isAssertion)
  /-- All commands can be read. -/
  readable : ∀ c ∈ cs, c.Readable

/-- What assertions add to a table, which holds for the table after them since it
only grows. -/
theorem assertions_spec (built : ∀ e ∈ es, e.Built)
    (made : assertions declared es = .ok (cs, final)) :
    ∃ new, final = declared ++ new ∧ (declared.names.Nodup → final.names.Nodup) ∧
      cs.filter Command.isDeclaration = declareAll new ∧
      List.Forall₂ (Asserts final) es (cs.filter Command.isAssertion) ∧
      ∀ c ∈ cs, c.Readable := by
  induction es generalizing declared cs with
  | nil =>
    obtain ⟨rfl, rfl⟩ := assertions_nil.1 made
    exact ⟨[], (List.append_nil _).symm, id, rfl, .nil, nofun⟩
  | cons e es ih =>
    obtain ⟨t, new, blocks, written, declaring, others, rfl⟩ := assertions_cons.1 made
    have own : e.Built := built e List.mem_cons_self
    have spec := newDeclarations_spec declaring
    obtain ⟨later, rfl, once, declares, asserts, readable⟩ :=
      ih (fun d hd => built d (List.mem_cons_of_mem _ hd)) others
    have typed : e.HasSort (declared ++ new ++ later) .bool :=
      spec.sorted.mono (SortTable.within_append _ _)
    refine ⟨new ++ later, List.append_assoc .., fun h => once (spec.nodup h), ?_, ?_, ?_⟩
    · rw [List.filter_append, filter_isDeclaration_declareAll, declareAll, declareAll,
        List.map_append]
      exact congrArg _ declares
    · rw [List.filter_append, filter_isAssertion_declareAll]
      exact .cons ⟨t, written, rfl, typed, sort?_ofExpr own typed written,
        Term.mem_names_of_hasSort typed written⟩ asserts
    · have first := readable_of_assertion
        (assertion_eq_ok_iff.2 ⟨t, new, written, declaring, rfl, rfl⟩)
      intro c hc
      rw [← List.singleton_append, ← List.append_assoc] at hc
      exact (List.mem_append.1 hc).elim (first c) (readable c)

theorem selfContained_of_assertions (built : ∀ e ∈ es, e.Built)
    (made : assertions [] es = .ok (cs, final)) : SelfContained es cs final := by
  obtain ⟨new, rfl, once, declares, asserts, readable⟩ := assertions_spec built made
  exact ⟨once List.nodup_nil, (names_of_assertions built made).trans (map_name_vars es).symm, declares, asserts,
    readable⟩

/-- The names of what is declared can be written. -/
theorem SelfContained.writable (h : SelfContained es cs declared) :
    ∀ x ∈ declared.names, isWritable x = true := by
  intro x hx
  obtain ⟨sort, entered⟩ := SortTable.mem_names.1 hx
  have declaration : Command.declare x sort ∈ declareAll declared := List.mem_map_of_mem entered
  rw [← h.declarations] at declaration
  exact h.readable _ (List.mem_of_mem_filter declaration)

/-! ## The text -/

/-- The commands that open a script. -/
def ScriptOptions.opening (options : ScriptOptions) : List Command :=
  .produceModels :: if options.logic.isEmpty then [] else [.setLogic options.logic]

/-- The commands that close a script over some constants. -/
def ScriptOptions.closing (options : ScriptOptions) (names : List String) : List Command :=
  if options.checkSat then
    .checkSat :: if options.getValues && !names.isEmpty then [.getValue names] else []
  else []

/-- The text of a script: a title, and the commands one below the other, where the
declarations stand between blank lines. -/
def ScriptOptions.scriptText (options : ScriptOptions) (declarations assertions : List Command)
    (names : List String) : String :=
  "\n".intercalate ("; generated by satisfiability" ::
    (options.opening.map Command.text ++ "" :: declarations.map Command.text ++
      "" :: assertions.map Command.text ++ (options.closing names).map Command.text)) ++ "\n"

theorem ScriptOptions.map_text_opening (options : ScriptOptions) :
    options.opening.map Command.text = Command.produceModels.text ::
      if options.logic.isEmpty then [] else [(Command.setLogic options.logic).text] := by
  unfold opening
  split <;> rfl

theorem ScriptOptions.map_text_closing (options : ScriptOptions) (names : List String) :
    (options.closing names).map Command.text =
      if options.checkSat then
        Command.checkSat.text ::
          if options.getValues && !names.isEmpty then [(Command.getValue names).text] else []
      else [] := by
  unfold closing
  split
  · split <;> rfl
  · rfl

/-- **A script can be made when the assertions can**, and holds their commands, the
declarations in front. The values that it asks for are those of all declared
constants. -/
theorem script_eq_ok_iff (built : ∀ e ∈ es, e.Built) (options : ScriptOptions) (text : String) :
    script options es = .ok text ↔ ∃ cs declared, assertions [] es = .ok (cs, declared) ∧
      text = options.scriptText (cs.filter Command.isDeclaration)
        (cs.filter Command.isAssertion) declared.names := by
  have lines {cs : List Command} {declared : SortTable}
      (made : assertions [] es = .ok (cs, declared)) :
      script options es = .ok (options.scriptText (cs.filter Command.isDeclaration)
        (cs.filter Command.isAssertion) declared.names) := by
    have h := selfContained_of_assertions built made
    have all : ((vars es).map name).filter declared.contains = declared.names := by
      rw [← h.names]
      exact List.filter_eq_self.2 fun x hx => SortTable.contains_iff.2 hx
    unfold script scriptLines
    rw [collectAssertions_eq_ok_iff.2 ⟨cs, made, rfl, rfl⟩, Outcome.bind_ok]
    dsimp only
    rw [all, getValueOf_of_writable h.writable, ScriptOptions.scriptText,
      ScriptOptions.map_text_opening, ScriptOptions.map_text_closing]
    simp [pure, Except.pure]
  constructor
  · intro done
    have collected := done
    unfold script scriptLines at collected
    obtain ⟨_, collected, -⟩ := Outcome.bind_eq_ok_iff.1 collected
    obtain ⟨⟨ds, as, declared⟩, collected, -⟩ := Outcome.bind_eq_ok_iff.1 collected
    obtain ⟨cs, made, -, -⟩ := collectAssertions_eq_ok_iff.1 collected
    exact ⟨cs, declared, made, Except.ok.inj (done.symm.trans (lines made))⟩
  · rintro ⟨cs, declared, made, rfl⟩
    exact lines made

/-! ## Reading a script -/

/-- **Whether a text reads as some forms**, whatever comes after it. -/
def Reads (cs : List Char) (fs : List Form) : Prop :=
  ∀ rest, Scan.between.tokens (cs ++ rest) =
    (Scan.between.tokens rest).map (fs.flatMap Form.tokens ++ ·)

namespace Reads

variable {cs ds : List Char} {fs gs : List Form}

/-- Texts read one after the other. -/
theorem append (h : Reads cs fs) (h' : Reads ds gs) : Reads (cs ++ ds) (fs ++ gs) := by
  intro rest
  rw [List.append_assoc, h, h']
  cases Scan.between.tokens rest <;> simp [Except.map]

theorem of_gap (h : Gap cs) : Reads cs [] := by
  intro rest
  rw [h.tokens]
  exact (Scan.map_nil_append _).symm

/-- A line with a text that reads as a form. -/
theorem line {text : String} {f : Form}
    (whole : ∀ rest : List Char, (∀ c ∈ rest.head?, Scan.endsBare c = true ∧ c ≠ '"') →
      Scan.between.tokens (text.toList ++ rest) =
        (Scan.between.tokens rest).map (f.tokens ++ ·)) :
    Reads (text.toList ++ ['\n']) [f] := by
  intro rest
  rw [List.append_assoc, List.singleton_append, whole _ (by simp [Scan.endsBare, Text.isBlank]),
    Scan.tokens_blank rfl]
  simp

/-- Lines that read as a form each. -/
theorem lines {α : Type} {text : α → String} {form : α → Form} {xs : List α}
    (each : ∀ x ∈ xs, Reads ((text x).toList ++ ['\n']) [form x]) :
    Reads ((xs.map text).flatMap fun line => line.toList ++ ['\n']) (xs.map form) := by
  induction xs with
  | nil => exact of_gap .nil
  | cons x xs ih =>
    exact (each x List.mem_cons_self).append (ih fun y hy => each y (List.mem_cons_of_mem _ hy))

/-- A text that reads as forms reads as their items. -/
theorem parse {text : String} (h : Reads text.toList fs) (writable : ∀ f ∈ fs, f.Writable) :
    Item.parse text = .ok (fs.map Form.item) := by
  refine Item.parse_of_tokens writable ?_
  show Scan.between.tokens text.toList = _
  rw [← List.append_nil text.toList, h, Scan.tokens_nil]
  simp [Scan.finish, Except.map]

end Reads

/-- Lines one below the other, each with its line feed. -/
theorem toList_intercalate_feed (first : String) (lines : List String) :
    ("\n".intercalate (first :: lines) ++ "\n").toList =
      (first :: lines).flatMap fun line => line.toList ++ ['\n'] := by
  induction lines generalizing first with
  | nil => simp
  | cons next lines ih =>
    rw [List.flatMap_cons, ← ih next, String.intercalate_cons_of_ne_nil (by simp)]
    simp

/-- Whether a command reads as its form; a logic does when it is one word. -/
def Command.Plain (c : Command) : Prop :=
  c.Readable ∨ ∃ logic, c = .setLogic logic ∧ (Token.bare logic).Writable

theorem Command.Plain.writable_form {c : Command} (h : c.Plain) : c.form.Writable := by
  rcases h with readable | ⟨logic, rfl, one⟩
  · exact Command.writable_form readable
  · exact .list (List.forall_mem_cons.2 ⟨writable_bare (by decide) (by decide),
      List.forall_mem_singleton.2 (.atom (by constructor <;> nofun) one)⟩)

theorem Command.Plain.reads {c : Command} (h : c.Plain) :
    Reads (c.text.toList ++ ['\n']) [c.form] := by
  refine .line fun rest apart => ?_
  rcases h with readable | ⟨logic, rfl, one⟩
  · exact Command.tokens_text readable apart
  · rw [← text_form (c := setLogic logic) trivial]
    exact Form.tokens_text (writable_form (.inr ⟨logic, rfl, one⟩)) apart

/-- **The text of a script reads as its commands.** -/
theorem ScriptOptions.parse_scriptText (options : ScriptOptions) {ds as : List Command}
    {names : List String} (plain : ∀ c ∈ options.opening ++ ds ++ as ++ options.closing names,
      c.Plain) :
    Item.parse (options.scriptText ds as names) =
      .ok ((options.opening ++ ds ++ as ++ options.closing names).map Command.item) := by
  have block {cs : List Command} (sub : ∀ c ∈ cs, c.Plain) :
      Reads ((cs.map Command.text).flatMap fun line => line.toList ++ ['\n'])
        (cs.map Command.form) :=
    .lines fun c hc => (sub c hc).reads
  have title : Reads ("; generated by satisfiability".toList ++ ['\n']) [] :=
    .of_gap (@Gap.comment " generated by satisfiability".toList [] (by decide) .nil)
  have blank : Reads ("".toList ++ ['\n']) [] := .of_gap (.blank rfl .nil)
  have whole : Reads (options.scriptText ds as names).toList
      ((options.opening ++ ds ++ as ++ options.closing names).map Command.form) := by
    simp only [List.forall_mem_append] at plain
    obtain ⟨⟨⟨opening, declarations⟩, assertions⟩, closing⟩ := plain
    rw [scriptText, toList_intercalate_feed]
    simpa using title.append ((((block opening).append (blank.append (block declarations))).append
      (blank.append (block assertions))).append (block closing))
  rw [whole.parse (List.forall_mem_map.2 fun c hc => (plain c hc).writable_form), List.map_map]
  rfl

/-- Whether the logic of a script, when there is one, is one word. -/
def ScriptOptions.Plain (options : ScriptOptions) : Prop :=
  options.logic.isEmpty = false → (Token.bare options.logic).Writable

theorem ScriptOptions.Plain.opening {options : ScriptOptions} (plain : options.Plain) :
    ∀ c ∈ options.opening, c.Plain := by
  intro c hc
  unfold ScriptOptions.opening at hc
  split at hc
  · obtain rfl := List.mem_singleton.1 hc
    exact .inl trivial
  · next logic =>
    simp only [List.mem_cons, List.not_mem_nil, or_false] at hc
    obtain rfl | rfl := hc
    · exact .inl trivial
    · exact .inr ⟨_, rfl, plain (Bool.eq_false_iff.2 logic)⟩

theorem ScriptOptions.readable_closing (options : ScriptOptions) {names : List String}
    (writable : ∀ x ∈ names, isWritable x = true) : ∀ c ∈ options.closing names, c.Readable := by
  intro c hc
  unfold closing at hc
  split at hc
  · split at hc <;> simp only [List.mem_cons, List.not_mem_nil, or_false] at hc
    · obtain rfl | rfl := hc
      · trivial
      · exact writable
    · obtain rfl := hc
      trivial
  · cases hc

/-- Values are asked for when they are wanted and there are constants, and then those
of all constants. -/
theorem ScriptOptions.getValue_mem_closing {options : ScriptOptions} {names xs : List String} :
    .getValue xs ∈ options.closing names ↔
      options.checkSat = true ∧ options.getValues = true ∧ names ≠ [] ∧ xs = names := by
  unfold closing
  cases options.checkSat <;> cases options.getValues <;> cases names <;> simp

/-- **A script says what a dialogue says.** For expressions that builders make, it can
be made exactly when they can be asserted one after the other. It then holds the
commands of the assertions, all declarations first. These declare the variables of
the expressions, each once, and the terms that are asserted are well-sorted over
them; the values that are asked for are those of the declared constants, in the same
order, and nothing is asked for when there are none. The text reads as these
commands. -/
theorem script_spec (built : ∀ e ∈ es, e.Built) (options : ScriptOptions) :
    (∀ text, script options es = .ok text ↔
      ∃ cs declared, assertions [] es = .ok (cs, declared) ∧
        text = options.scriptText (cs.filter Command.isDeclaration)
          (cs.filter Command.isAssertion) declared.names) ∧
    ∀ cs declared, assertions [] es = .ok (cs, declared) →
      SelfContained es cs declared ∧
      (∀ xs, .getValue xs ∈ options.closing declared.names ↔ options.checkSat = true ∧
        options.getValues = true ∧ declared.names ≠ [] ∧ xs = declared.names) ∧
      (options.Plain → Item.parse (options.scriptText (cs.filter Command.isDeclaration)
          (cs.filter Command.isAssertion) declared.names) =
        .ok ((options.opening ++ declareAll declared ++ cs.filter Command.isAssertion ++
          options.closing declared.names).map Command.item)) := by
  refine ⟨script_eq_ok_iff built options, fun cs declared made => ?_⟩
  have h := selfContained_of_assertions built made
  have kept : ∀ c ∈ cs, c.Plain := fun c hc => .inl (h.readable c hc)
  refine ⟨h, fun xs => ScriptOptions.getValue_mem_closing, fun plain => ?_⟩
  rw [options.parse_scriptText, h.declarations]
  simp only [List.forall_mem_append]
  exact ⟨⟨⟨plain.opening, fun c hc => kept c (List.mem_of_mem_filter hc)⟩,
    fun c hc => kept c (List.mem_of_mem_filter hc)⟩,
    fun c hc => .inl (options.readable_closing h.writable c hc)⟩

/-- The script of two assertions, the second one about a constant of the first. -/
theorem script_of_two :
    (∀ e ∈ [chosenAtLeast, .var "c" none], e.Built) ∧
    script { } [chosenAtLeast, .var "c" none] = .ok
      "; generated by satisfiability
(set-option :produce-models true)

(declare-const c Bool)
(declare-const n Int)
(declare-const m Int)

(assert (>= (ite c n 5) m))
(assert c)
(check-sat)
(get-value (c n m))
" := by
  have built : ∀ e ∈ [chosenAtLeast, .var "c" none], e.Built :=
    List.forall_mem_cons.2 ⟨built_chosenAtLeast, List.forall_mem_singleton.2 (.var _ _ _ _)⟩
  exact ⟨built, ((script_spec built { }).1 _).2 ⟨_, _, rfl, by decide +kernel⟩⟩

end Smt

end SmtDialogue
