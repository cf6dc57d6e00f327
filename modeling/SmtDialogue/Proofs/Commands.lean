import SmtDialogue.Proofs.Reading
import SmtDialogue.Smt.Command
import SmtDialogue.Text.LineBreak

/-!
# Reading commands back

A solver takes a command as text. What it makes of the text is a command again,
and for the commands of a dialogue it is the one that was meant
(`Command.ofText_text`): names that can be written come back without their bars,
and terms as in `Term.ofText_text`. The logic of a dialogue is whatever the
caller has given, so a text that starts like the choice of a logic is taken for
one, whatever follows.

The commands of an assertion are written as one block and sent line by line.
Names may have any character but a line separator; then the lines of the block
are its commands (`lines_textOf`).
-/

namespace SmtDialogue

/-! ## Texts without line separators -/

namespace Text

/-- A text without any line separator. -/
def BreakFree (s : String) : Prop := ∀ c ∈ s.toList, isLineBreak c = false

instance (s : String) : Decidable (BreakFree s) :=
  List.decidableBAll (fun c => isLineBreak c = false) s.toList

theorem breakFree_append {s t : String} : BreakFree (s ++ t) ↔ BreakFree s ∧ BreakFree t := by
  simp only [BreakFree, String.toList_append, List.mem_append, or_imp, forall_and]

theorem breakFree_intercalate {sep : String} {ss : List String} (between : BreakFree sep)
    (each : ∀ s ∈ ss, BreakFree s) : BreakFree (sep.intercalate ss) := by
  induction ss with
  | nil => simp [BreakFree]
  | cons s ss ih =>
    have first := each s List.mem_cons_self
    by_cases none : ss = []
    · subst none
      simpa using first
    · rw [String.intercalate_cons_of_ne_nil none, breakFree_append, breakFree_append]
      exact ⟨⟨first, between⟩, ih fun t ht => each t (List.mem_cons_of_mem _ ht)⟩

/-- A line is read up to the line feed that ends it. -/
theorem cutLines_feed {cs : List Char} (h : ∀ c ∈ cs, isLineBreak c = false) (rest : List Char)
    (piece : List Char) :
    cutLines piece (cs ++ '\n' :: rest) = (piece.reverse ++ cs) :: cutLines [] rest := by
  induction cs generalizing piece with
  | nil =>
    rw [List.nil_append, cutLines, if_pos (by decide), List.append_nil]
    exact fun _ feed => absurd feed (by decide)
  | cons c cs ih =>
    have own := h c List.mem_cons_self
    rw [List.cons_append, cutLines, own, if_neg Bool.false_ne_true,
      ih fun d hd => h d (List.mem_cons_of_mem _ hd), List.reverse_cons, List.append_assoc]
    · rfl
    · rintro - rfl
      exact absurd own (by decide)

/-- **The lines of a block are the texts it was made of.** -/
theorem lines_intercalate {ss : List String} (each : ∀ s ∈ ss, BreakFree s ∧ s ≠ "") :
    lines ("\n".intercalate ss) = ss := by
  unfold lines
  induction ss with
  | nil => rfl
  | cons s ss ih =>
    obtain ⟨whole, some⟩ := each s List.mem_cons_self
    by_cases none : ss = []
    · subst none
      rw [String.intercalate_singleton, cutLines_of_forall_not [] whole]
      simp [some]
    · rw [String.intercalate_cons_of_ne_nil none]
      have shape : (s ++ "\n" ++ "\n".intercalate ss).toList =
          s.toList ++ '\n' :: ("\n".intercalate ss).toList := by simp
      rw [shape, cutLines_feed whole, List.map_cons,
        ih fun t ht => each t (List.mem_cons_of_mem _ ht)]
      simp

end Text

namespace Smt

open Text

theorem breakFree_symbolText {name : String} (h : BreakFree name) :
    BreakFree (symbolText name) := by
  unfold symbolText
  split
  · exact h
  · exact breakFree_append.2 ⟨breakFree_append.2 ⟨by decide, h⟩, by decide⟩

theorem breakFree_repr (n : Nat) : BreakFree n.repr := by
  intro c hc
  have bounds := toNat_of_isDigit (isDigit_of_mem_repr hc)
  simp [isLineBreak]
  omega

theorem breakFree_literalText (v : Value) : BreakFree (literalText v) := by
  cases v with
  | bool b => cases b <;> decide
  | int n =>
    rw [literalText]
    split
    · exact breakFree_append.2 ⟨breakFree_append.2 ⟨by decide, breakFree_repr _⟩, by decide⟩
    · exact breakFree_repr _

/-- A term over names without line separators is written on one line. -/
theorem Term.breakFree_text {t : Term} (h : t.Over BreakFree) : BreakFree t.text := by
  induction h with
  | symbol name =>
    rw [Term.text]
    exact breakFree_symbolText name
  | literal v =>
    rw [Term.text]
    exact breakFree_literalText v
  | @app op args _ _ _ _ ih =>
    rw [Term.text_app]
    refine breakFree_append.2 ⟨breakFree_append.2 ⟨breakFree_append.2
      ⟨breakFree_append.2 ⟨by decide, by cases op <;> decide⟩, by decide⟩,
      breakFree_intercalate (by decide) fun s hs => ?_⟩, by decide⟩
    obtain ⟨t, ht, rfl⟩ := List.mem_map.1 hs
    exact ih t ht

namespace Command

/-! ## The form of a command -/

/-- A word as a form. -/
def word (w : String) : Form := .atom (.bare w)

/-- The form of a command. -/
def form : Command → Form
  | produceModels => .list [word "set-option", word ":produce-models", word "true"]
  | setLogic logic => .list [word "set-logic", word logic]
  | declare name sort => .list [word "declare-const", nameForm name, word sort.name]
  | assert term => .list [word "assert", term.form]
  | checkSat => .list [word "check-sat"]
  | getValue names => .list [word "get-value", .list (names.map nameForm)]
  | push => .list [word "push", word "1"]
  | pop => .list [word "pop", word "1"]
  | exit => .list [word "exit"]

/-- Whether a command can be written so that it reads back: its names and those
in its term can. -/
def Written : Command → Prop
  | declare name _ => isWritable name = true
  | assert term => term.Over fun x => isWritable x = true
  | getValue names => ∀ x ∈ names, isWritable x = true
  | _ => True

/-- Whether a command reads as its form: its names can be written, and it sets no
logic, which may be any text. -/
def Readable : Command → Prop
  | setLogic _ => False
  | declare name _ => isWritable name = true
  | assert term => term.Named fun x => isWritable x = true
  | getValue names => ∀ x ∈ names, isWritable x = true
  | _ => True

theorem Written.readable {c : Command} (h : c.Written) (noLogic : ∀ logic, c ≠ setLogic logic) :
    c.Readable := by
  cases c with
  | setLogic logic => exact noLogic logic rfl
  | assert term => exact Term.Over.named h
  | produceModels | declare | checkSat | getValue | push | pop | exit => exact h

theorem Readable.written {c : Command} (h : c.Readable) (noTerm : ∀ t, c ≠ assert t) :
    c.Written := by
  cases c with
  | setLogic logic => exact h.elim
  | assert term => exact absurd rfl (noTerm term)
  | produceModels | declare | checkSat | getValue | push | pop | exit => exact h

theorem text_word (w : String) : (word w).text = w := rfl

theorem text_setLogic (logic : String) :
    (setLogic logic).text = "(set-logic " ++ logic ++ ")" := rfl

theorem text_declare (name : String) (sort : SmtSort) :
    (declare name sort).text = "(declare-const " ++ symbolText name ++ " " ++ sort.name ++ ")" := rfl

theorem text_assert (term : Term) : (assert term).text = "(assert " ++ term.text ++ ")" := rfl

theorem text_getValue (names : List String) :
    (getValue names).text = "(get-value (" ++ " ".intercalate (names.map symbolText) ++ "))" := rfl

/-- The text of a command is that of its form. -/
theorem text_form {c : Command} (h : c.Written) : c.form.text = c.text := by
  cases c with
  | setLogic logic =>
    rw [form, Form.text_list, text_setLogic, ← String.toList_inj]
    simp [text_word]
  | declare name sort =>
    rw [form, Form.text_list, text_declare, ← String.toList_inj]
    simp [text_word, text_nameForm]
  | assert term =>
    rw [form, Form.text_list, text_assert, ← String.toList_inj]
    simp [text_word, Term.text_form h]
  | getValue names =>
    have texts : (names.map nameForm).map Form.text = names.map symbolText := by
      rw [List.map_map]
      exact List.map_congr_left fun x _ => text_nameForm x
    rw [form, Form.text_list, List.map_cons, List.map_singleton, Form.text_list, texts,
      text_getValue, ← String.toList_inj]
    simp [text_word]
  | produceModels | checkSat | push | pop | exit =>
    rw [form, Form.text_list]
    rfl

/-! ## Reading -/

/-- The name that a form is the symbol of. -/
def nameOf? (f : Form) : Option String :=
  match Term.ofForm f with
  | some (.symbol name) => some name
  | _ => none

/-- The sort of a name. -/
def sortOf? (s : String) : Option SmtSort :=
  if s = "Bool" then some .bool else if s = "Int" then some .int else none

/-- The command with a name and some arguments. -/
def ofParts : String → List Form → Option Command
  | "set-option", [.atom (.bare ":produce-models"), .atom (.bare "true")] => some produceModels
  | "declare-const", [f, .atom (.bare s)] => do return declare (← nameOf? f) (← sortOf? s)
  | "assert", [f] => (Term.ofForm f).map assert
  | "check-sat", [] => some checkSat
  | "get-value", [.list fs] => (fs.mapM nameOf?).map getValue
  | "push", [.atom (.bare "1")] => some push
  | "pop", [.atom (.bare "1")] => some pop
  | "exit", [] => some exit
  | _, _ => none

/-- How the choice of a logic starts. -/
def logicLead : String := "(set-logic "

/-- **The command that a text stands for.** -/
def ofText (s : String) : Option Command :=
  if startsWith s logicLead then
    some (setLogic (String.ofList (s.toList.drop logicLead.length).dropLast))
  else
    match Form.ofText s with
    | some [.list (.atom (.bare name) :: args)] => ofParts name args
    | _ => none

theorem nameOf?_nameForm (name : String) : nameOf? (nameForm name) = some name := by
  rw [nameOf?, Term.ofForm_nameForm]

theorem mapM_nameOf? (names : List String) : (names.map nameForm).mapM nameOf? = some names := by
  induction names with
  | nil => rfl
  | cons x xs ih =>
    rw [List.map_cons, List.mapM_cons, nameOf?_nameForm, ih]
    rfl

/-- The form of a command that reads as its form. -/
theorem writable_form {c : Command} (h : c.Readable) : c.form.Writable := by
  have fixed (w : String) (some : w ≠ "")
      (inside : w.toList.all (fun c => !Scan.endsBare c) = true) : (word w).Writable :=
    writable_bare some inside
  have one {f : Form} (hf : f.Writable) : ∀ g ∈ [f], g.Writable :=
    fun g hg => List.mem_singleton.1 hg ▸ hf
  cases c with
  | setLogic logic => exact h.elim
  | produceModels =>
    exact .list (List.forall_mem_cons.2 ⟨fixed _ (by decide) (by decide),
      List.forall_mem_cons.2 ⟨fixed _ (by decide) (by decide),
        one (fixed _ (by decide) (by decide))⟩⟩)
  | declare name sort =>
    have sorts : (word sort.name).Writable := by
      cases sort <;> exact fixed _ (by decide) (by decide)
    exact .list (List.forall_mem_cons.2 ⟨fixed _ (by decide) (by decide),
      List.forall_mem_cons.2 ⟨writable_nameForm h, one sorts⟩⟩)
  | assert term =>
    exact .list (List.forall_mem_cons.2 ⟨fixed _ (by decide) (by decide),
      one (Term.writable_form h)⟩)
  | getValue names =>
    refine .list (List.forall_mem_cons.2 ⟨fixed _ (by decide) (by decide),
      one (.list fun f hf => ?_)⟩)
    obtain ⟨x, hx, rfl⟩ := List.mem_map.1 hf
    exact writable_nameForm (h x hx)
  | checkSat | exit => exact .list (one (fixed _ (by decide) (by decide)))
  | push | pop =>
    exact .list (List.forall_mem_cons.2 ⟨fixed _ (by decide) (by decide),
      one (fixed _ (by decide) (by decide))⟩)

/-! ## How commands start -/

/-- What the texts of a kind of command have in common at their start. -/
def lead : Command → String
  | produceModels => "(set-option :produce-models true)"
  | setLogic _ => logicLead
  | declare .. => "(declare-const "
  | assert _ => "(assert "
  | checkSat => "(check-sat)"
  | getValue _ => "(get-value ("
  | push => "(push 1)"
  | pop => "(pop 1)"
  | exit => "(exit)"

theorem text_eq_lead (c : Command) : ∃ rest, c.text = c.lead ++ rest := by
  cases c with
  | setLogic logic => exact ⟨_, by rw [text_setLogic, String.append_assoc]; rfl⟩
  | declare name sort =>
    refine ⟨symbolText name ++ (" " ++ (sort.name ++ ")")), ?_⟩
    rw [text_declare]
    simp only [String.append_assoc]
    rfl
  | assert term => exact ⟨_, by rw [text_assert, String.append_assoc]; rfl⟩
  | getValue names => exact ⟨_, by rw [text_getValue, String.append_assoc]; rfl⟩
  | produceModels | checkSat | push | pop | exit => exact ⟨"", rfl⟩

theorem startsWith_iff {s start : String} :
    startsWith s start = true ↔ start.toList <+: s.toList := List.isPrefixOf_iff_prefix

/-- A command starts as its kind does. -/
theorem startsWith_text {c : Command} {start : String} (h : startsWith c.lead start = true) :
    startsWith c.text start = true := by
  obtain ⟨rest, shape⟩ := c.text_eq_lead
  rw [startsWith_iff] at h ⊢
  rw [shape, String.toList_append]
  exact h.trans (List.prefix_append _ _)

/-- A command does not start in a way in which its kind does not. -/
theorem startsWith_text_eq_false {c : Command} {start : String}
    (apart : (startsWith c.lead start || startsWith start c.lead) = false) :
    startsWith c.text start = false := by
  obtain ⟨rest, shape⟩ := c.text_eq_lead
  rw [Bool.or_eq_false_iff] at apart
  rw [← Bool.not_eq_true, startsWith_iff, shape, String.toList_append]
  intro starts
  rcases List.prefix_or_prefix_of_prefix starts (List.prefix_append _ _) with h | h
  · rw [startsWith_iff.2 h] at apart
    cases apart.1
  · rw [startsWith_iff.2 h] at apart
    cases apart.2

/-- Only checks and requests for values are questions. -/
theorem isQuestion_text {c : Command} (check : c ≠ checkSat) (values : ∀ names, c ≠ getValue names) :
    isQuestion c.text = false := by
  rw [isQuestion, Bool.or_eq_false_iff]
  cases c with
  | checkSat => exact absurd rfl check
  | getValue names => exact absurd rfl (values names)
  | _ => constructor <;> exact startsWith_text_eq_false (by rw [lead]; decide)

/-- Only requests for values start like them. -/
theorem exists_getValue_of_text {c : Command} (h : startsWith c.text "(get-value" = true) :
    ∃ names, c = getValue names := by
  cases c with
  | getValue names => exact ⟨names, rfl⟩
  | _ =>
    rw [startsWith_text_eq_false (by rw [lead]; decide)] at h
    cases h

/-- **A command reads back.** -/
theorem ofText_text {c : Command} (h : c.Written) : ofText c.text = some c := by
  -- a logic is taken as it stands, with characters that no symbol could have
  by_cases logic : ∃ logic, c = setLogic logic
  · obtain ⟨logic, rfl⟩ := logic
    have lead : startsWith (setLogic logic).text logicLead = true :=
      startsWith_text (by rw [lead]; decide)
    have body : ("(set-logic " ++ logic ++ ")").toList.drop logicLead.length =
        logic.toList ++ [')'] := by
      rw [String.toList_append, String.toList_append, List.append_assoc]
      exact List.drop_left' String.length_toList
    rw [ofText, if_pos lead, text_setLogic, body, List.dropLast_concat, String.ofList_toList]
  · have noLogic : ∀ logic, c ≠ setLogic logic := fun l same => logic ⟨l, same⟩
    have lead : startsWith c.text logicLead = false := by
      cases c with
      | setLogic l => exact absurd rfl (noLogic l)
      | _ => exact startsWith_text_eq_false (by rw [lead]; decide)
    rw [ofText, if_neg (by rw [lead]; exact Bool.false_ne_true), ← text_form h,
      Form.ofText_text (writable_form (h.readable noLogic))]
    cases c with
    | setLogic l => exact absurd rfl (noLogic l)
    | declare name sort =>
      show (nameOf? (nameForm name) >>= fun n => sortOf? sort.name >>= fun s =>
        some (declare n s)) = _
      rw [nameOf?_nameForm]
      cases sort <;> rfl
    | assert term =>
      show (Term.ofForm term.form).map assert = _
      rw [Term.ofForm_form h]
      rfl
    | getValue names =>
      show ((names.map nameForm).mapM nameOf?).map getValue = _
      rw [mapM_nameOf?]
      rfl
    | _ => rfl

/-! ## Blocks of commands -/

theorem text_ne_empty (c : Command) : c.text ≠ "" := by
  cases c with
  | setLogic | declare | assert | getValue =>
    first | rw [text_setLogic] | rw [text_declare] | rw [text_assert] | rw [text_getValue]
    simp [← String.toList_inj]
  | produceModels | checkSat | push | pop | exit => decide

theorem breakFree_declare {name : String} (h : BreakFree name) (sort : SmtSort) :
    BreakFree (declare name sort).text := by
  rw [text_declare]
  simp only [breakFree_append]
  exact ⟨⟨⟨⟨by decide, breakFree_symbolText h⟩, by decide⟩, by cases sort <;> decide⟩, by decide⟩

theorem breakFree_assert {t : Term} (h : t.Over BreakFree) : BreakFree (assert t).text := by
  rw [text_assert]
  simp only [breakFree_append]
  exact ⟨⟨by decide, Term.breakFree_text h⟩, by decide⟩

end Command

/-- **The lines of a block are its commands.** -/
theorem lines_textOf {commands : List Command} (each : ∀ c ∈ commands, BreakFree c.text) :
    lines (textOf commands) = commands.map Command.text := by
  refine lines_intercalate fun s hs => ?_
  obtain ⟨c, hc, rfl⟩ := List.mem_map.1 hs
  exact ⟨each c hc, c.text_ne_empty⟩

/-- The commands of an assertion are sent one by one. -/
theorem lines_assertion {e : Expr} (built : e.Built)
    (whole : ∀ x ∈ e.variableNames, BreakFree x) {declared new : SortTable}
    (declaring : Declaring declared e new) {t : Term} (written : Term.ofExpr e = .ok t) :
    lines (textOf (declareAll new ++ [.assert t])) =
      (declareAll new).map Command.text ++ [(Command.assert t).text] := by
  rw [lines_textOf, List.map_append, List.map_singleton]
  intro c hc
  rcases List.mem_append.1 hc with hc | hc
  · obtain ⟨⟨name, sort⟩, here, rfl⟩ := List.mem_map.1 hc
    exact Command.breakFree_declare
      (whole name (declaring.names name (SortTable.mem_names.2 ⟨sort, here⟩))) sort
  · obtain rfl := List.mem_singleton.1 hc
    exact Command.breakFree_assert ((Term.over_ofExpr built whole written).mono fun _ h => h.2)

end Smt

end SmtDialogue
