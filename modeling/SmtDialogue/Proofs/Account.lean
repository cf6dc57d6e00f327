import SmtDialogue.Proofs.Course
import SmtDialogue.Proofs.Scoping
import SmtDialogue.Proofs.Transmission

/-!
# The account kept for an in-process solver

A solver in the same process gets no declarations. They are read back from the
text of the commands and kept on this side, in a table of constants, a list of
their names and one mark per open scope. The session keeps a table of its own and
saves it whole when a scope is opened, so that the saved tables have grown out of
each other (`SortTable.GrownFrom`).

The account agrees with the session when its constants are those of the table and
its marks are the sizes of the saved ones (`InProcess.Keeps`). Declaring a
constant, opening a scope and closing one keep it so, and so does everything else
that is said to the solver (`InProcess.Idle`). A name with a line separator is cut
in two on its way, but then its declaration ends inside a quoted symbol, which ends
the dialogue before anything else is said (`exists_lines_broken`).
-/

namespace SmtDialogue

open Smt Text

/-! ## Saved tables -/

namespace SortTable

/-- Whether some tables have grown out of each other, the innermost and largest
one first, and a table out of the first of them. -/
def GrownFrom (t : SortTable) : List SortTable → Prop
  | [] => True
  | saved :: outer => saved <+: t ∧ saved.GrownFrom outer

/-- A table goes on from all tables that it has grown out of. -/
theorem GrownFrom.prefix_of_mem {t saved : SortTable} {scopes : List SortTable}
    (h : t.GrownFrom scopes) (member : saved ∈ scopes) : saved <+: t := by
  induction scopes generalizing t with
  | nil => cases member
  | cons first outer ih =>
    rcases List.mem_cons.1 member with rfl | member
    · exact h.1
    · exact (ih h.2 member).trans h.1

theorem GrownFrom.append {t : SortTable} {scopes : List SortTable} (h : t.GrownFrom scopes)
    (new : SortTable) : GrownFrom (t ++ new) scopes := by
  cases scopes with
  | nil => trivial
  | cons saved outer => exact ⟨h.1.trans (List.prefix_append _ _), h.2⟩

/-- A table without a name, which must be there. -/
def delete? (t : SortTable) (name : String) : Option SortTable :=
  if t.contains name then some (t.filter (·.1 != name)) else none

/-- Names that are entered once and at the end can be deleted one by one. -/
theorem foldlM_delete? {t new : SortTable} (once : (t ++ new).names.Nodup) :
    (names new).foldlM delete? (t ++ new) = some t := by
  induction new with
  | nil => simp [names]
  | cons entry new ih =>
    obtain ⟨name, sort⟩ := entry
    rw [names_append, List.nodup_append] at once
    obtain ⟨before, later, apart⟩ := once
    obtain ⟨own, later⟩ := List.nodup_cons.1 later
    have here : SortTable.contains (t ++ (name, sort) :: new) name = true :=
      contains_iff.2 (by simp [names])
    have kept {u : SortTable} (other : name ∉ u.names) : u.filter (·.1 != name) = u :=
      List.filter_eq_self.2 fun entry hentry => by
        simpa using fun same : entry.1 = name => other (same ▸ mem_names.2 ⟨entry.2, hentry⟩)
    have deleted : delete? (t ++ (name, sort) :: new) name = some (t ++ new) := by
      rw [delete?, if_pos here, List.filter_append, List.filter_cons_of_neg (by simp),
        kept fun there => apart name there name List.mem_cons_self rfl, kept own]
    show (delete? _ name >>= fun u => (names new).foldlM delete? u) = _
    rw [deleted]
    refine ih ?_
    rw [names_append, List.nodup_append]
    exact ⟨before, later, fun a ha b hb => apart a ha b (List.mem_cons_of_mem _ hb)⟩

end SortTable

/-! ## Assertions and their constants -/

namespace Smt

/-- **A text is the assertion of one of some expressions over some constants**:
it reads as the assertion of its term, the expression is a truth value over the
constants, and every variable of the term is one of them. -/
def Grounded (asserted : Expr → Prop) (text : String) (constants : SortTable) : Prop :=
  ∃ e t, asserted e ∧ Term.ofExpr e = .ok t ∧ text = (Command.assert t).text ∧
    Item.parse text = .ok [(Command.assert t).item] ∧ e.HasSort constants .bool ∧
    ∀ x ∈ t.names, x ∈ constants.names

theorem Grounded.mono {asserted more : Expr → Prop} (weaker : ∀ e, asserted e → more e)
    {text : String} {constants : SortTable} (h : Grounded asserted text constants) :
    Grounded more text constants := by
  obtain ⟨e, t, member, rest⟩ := h
  exact ⟨e, t, weaker e member, rest⟩

/-- An application has the variables of its operands. -/
theorem Term.mem_names_apply {op : Op} {ts : List Term} {x : String}
    (h : x ∈ (apply op ts).names) : ∃ t ∈ ts, x ∈ t.names := by
  unfold apply at h
  split at h
  · split at h
    · exact ⟨_, List.mem_cons_self, h⟩
    · rwa [names_app, List.mem_flatMap] at h
  · rwa [names_app, List.mem_flatMap] at h

/-- A table that sorts an expression has the variables of its term. The tree may
have any shape: what the term leaves out, the table may leave out. -/
theorem Term.mem_names_of_hasSort {table : SortTable} {e : Expr} {sort : SmtSort}
    (typed : e.HasSort table sort) {t : Term} (written : ofExpr e = .ok t) :
    ∀ x ∈ t.names, x ∈ table.names := by
  induction typed generalizing t with
  | var leaf known =>
    obtain ⟨-, rfl⟩ := (ofExpr_identity leaf).1 written
    rw [names]
    exact List.forall_mem_singleton.2 (SortTable.mem_names_of_sortOf? known)
  | const leaf =>
    obtain ⟨v, -, rfl⟩ := (ofExpr_const leaf).1 written
    rw [names]
    exact List.forall_mem_nil _
  | @ite l condition thenBranch elseBranch sort choice _ _ _ test first second =>
    obtain ⟨ts, parts, rfl⟩ := (ofExpr_inner (by rw [choice]; rfl)).1 written
    intro x hx
    obtain ⟨t, ht, hx⟩ := mem_names_apply hx
    obtain ⟨c, hc, made⟩ := Outcome.exists_of_mem_right parts ht
    simp only [List.mem_cons, List.not_mem_nil, or_false] at hc
    obtain rfl | rfl | rfl := hc
    · exact test made x hx
    · exact first made x hx
    · exact second made x hx
  | @app l cs operand result takes gives _ each =>
    have inner : l.op.isLeaf = false := by
      rw [Op.isLeaf_eq_false_iff]
      constructor <;> intro leaf <;> rw [leaf] at takes <;> cases takes
    obtain ⟨ts, parts, rfl⟩ := (ofExpr_inner inner).1 written
    intro x hx
    obtain ⟨t, ht, hx⟩ := mem_names_apply hx
    obtain ⟨c, hc, made⟩ := Outcome.exists_of_mem_right parts ht
    exact each c hc made x hx

end Smt

/-! ## Lines of an assertion -/

/-- A quoted symbol goes on up to the next bar. -/
theorem Scan.run_barred {cs : List Char} (inside : '|' ∉ cs) (read : List Char) :
    (barred read).run cs = (barred (cs.reverse ++ read), []) := by
  induction cs generalizing read with
  | nil => rfl
  | cons c cs ih =>
    obtain ⟨other, inside⟩ := List.ne_and_not_mem_of_not_mem_cons inside
    rw [run, step, if_neg (by simpa using other.symm)]
    dsimp only
    rw [ih inside]
    simp

namespace Text

/-- A line is read up to the first separator. -/
theorem exists_cutLines_break {cs : List Char} (h : ∀ c ∈ cs, isLineBreak c = false) {c : Char}
    (separator : isLineBreak c = true) (rest piece : List Char) :
    ∃ more, cutLines piece (cs ++ c :: rest) = (piece.reverse ++ cs) :: more := by
  induction cs generalizing piece with
  | nil =>
    rw [List.nil_append, List.append_nil]
    unfold cutLines
    split
    · next none => cases none
    · exact ⟨_, rfl⟩
    · next same =>
      cases same
      exact ⟨_, if_pos separator⟩
  | cons d cs ih =>
    have own := h d List.mem_cons_self
    obtain ⟨more, cut⟩ := ih (fun e he => h e (List.mem_cons_of_mem _ he)) (d :: piece)
    refine ⟨more, ?_⟩
    rw [List.cons_append, cutLines, own, if_neg Bool.false_ne_true, cut]
    · simp
    · rintro - rfl
      exact absurd own (by decide)

end Text

namespace Smt

/-- The first command of a block is a line of its own when it is on one line. -/
theorem lines_textOf_cons {c : Command} (whole : BreakFree c.text) {cs : List Command}
    (more : cs ≠ []) : lines (textOf (c :: cs)) = c.text :: lines (textOf cs) := by
  have shape : (textOf (c :: cs)).toList = c.text.toList ++ '\n' :: (textOf cs).toList := by
    rw [textOf, List.map_cons, String.intercalate_cons_of_ne_nil (by simpa using more)]
    simp [textOf]
  rw [lines, shape, cutLines_feed whole]
  simp [lines]

/-- **A declaration that is cut in two** is cut inside a quoted symbol. -/
theorem exists_lines_broken {name : String} (writable : isWritable name = true)
    (broken : ¬ BreakFree name) (sort : SmtSort) (cs : List Command) :
    ∃ piece more, lines (textOf (.declare name sort :: cs)) = piece :: more ∧
      startsWith piece "(declare-const " = true ∧
      Item.parse piece = .error (.unfinished .quotedSymbol) := by
  have quoted : isPlainName name = false := Bool.eq_false_iff.2 (mt breakFree_of_isPlainName broken)
  have inside : '|' ∉ name.toList := by
    simp only [isWritable, quoted, Bool.false_or, Bool.not_eq_true',
      Bool.or_eq_false_iff] at writable
    simpa using writable.1
  obtain ⟨c, found⟩ : ∃ c, name.toList.find? isLineBreak = some c := by
    by_contra none
    simp only [not_exists, ← Option.eq_none_iff_forall_ne_some, List.find?_eq_none,
      Bool.not_eq_true] at none
    exact broken none
  obtain ⟨separator, first, others, shape, before⟩ := List.find?_eq_some_iff_append.1 found
  let piece : List Char := "(declare-const |".toList ++ first
  have whole : ∀ d ∈ piece, isLineBreak d = false := fun d hd => by
    rcases List.mem_append.1 hd with lead | hd
    · have inside : "(declare-const |".toList.all (!isLineBreak ·) = true := by decide
      simpa using List.all_eq_true.1 inside d lead
    · simpa using before d hd
  obtain ⟨rest, text⟩ : ∃ rest,
      (textOf (.declare name sort :: cs)).toList = piece ++ c :: rest := by
    have declaration : ∃ rest, (Command.declare name sort).text.toList = piece ++ c :: rest := by
      rw [Command.text_declare, symbolText, if_neg (by rw [quoted]; exact Bool.false_ne_true)]
      simp [shape, piece]
    obtain ⟨rest, declaration⟩ := declaration
    by_cases none : cs = []
    · subst none
      exact ⟨rest, by rw [textOf, List.map_singleton, String.intercalate_singleton, declaration]⟩
    · refine ⟨rest ++ '\n' :: (textOf cs).toList, ?_⟩
      rw [textOf, List.map_cons, String.intercalate_cons_of_ne_nil (by simpa using none)]
      simp [textOf, declaration]
  obtain ⟨more, cut⟩ := exists_cutLines_break whole separator rest []
  refine ⟨String.ofList piece, more.map String.ofList, ?_, ?_, ?_⟩
  · rw [lines, text, cut]
    rfl
  · rw [Command.startsWith_iff, String.toList_ofList]
    exact ⟨'|' :: first, by simp [piece]⟩
  · have bar : '|' ∉ first := fun there => inside (shape ▸ List.mem_append_left _ there)
    have scanned : Scan.between.run piece =
        (.barred first.reverse, [.opening, .bare "declare-const"]) := by
      rw [Scan.run_append, show Scan.between.run "(declare-const |".toList =
        (.barred [], [.opening, .bare "declare-const"]) from rfl, Scan.run_barred bar]
      simp
    rw [Item.parse, String.toList_ofList, scanned]
    rfl

end Smt

/-! ## Commands to the solver -/

namespace InProcess

/-- **The account kept for a solver** agrees with the tables of a session: the
constants are those that have been declared, and the marks of the open scopes are
the sizes of the tables that have been saved for them. -/
structure Keeps (b : InProcess) (declared : SortTable) (scopes : List SortTable) : Prop where
  /-- The constants with their sorts. -/
  constants : b.constants = declared
  /-- Their names. -/
  names : b.declared = declared.names
  /-- The marks. -/
  marks : b.marks = scopes.map List.length

variable {b : InProcess} {declared : SortTable} {scopes : List SortTable}

/-- A new constant is entered on this side. -/
theorem Keeps.declare (h : b.Keeps declared scopes) {name : String}
    (writable : isWritable name = true) (fresh : name ∉ declared.names) (sort : SmtSort) :
    ∃ b', b.send (Command.declare name sort).text =
        { outcome := .ok (), state := b', events := [] } ∧
      b'.Keeps (declared ++ [(name, sort)]) scopes := by
  refine ⟨_, (send_declare b name sort).trans (declare_text writable (h.constants ▸ fresh) sort),
    by rw [h.constants], ?_, h.marks⟩
  simp [h.names, SortTable.names]

/-- What looks like a declaration and is none ends the dialogue. -/
theorem send_broken (b : InProcess) {piece : String}
    (lead : startsWith piece "(declare-const " = true) {what : Unfinished}
    (unfinished : Item.parse piece = .error (.unfinished what)) :
    b.send piece = { outcome := .error (.unfinished what), state := b } := by
  rw [send, if_pos lead, InProcess.declare, unfinished]
  rfl

/-- A scope is marked. -/
theorem Keeps.push (h : b.Keeps declared scopes) :
    ∃ b', b.send Command.push.text = { outcome := .ok (), state := b', events := [.pushed] } ∧
      b'.Keeps declared (declared :: scopes) := by
  refine ⟨_, (send_push b).trans rfl, h.constants, h.names, ?_⟩
  show b.declared.length :: b.marks = _
  rw [h.names, h.marks]
  simp [SortTable.names]

/-- The constants of a scope are forgotten, each of which is there. -/
theorem Keeps.pop {saved new : SortTable} (h : b.Keeps (saved ++ new) (saved :: scopes))
    (once : (saved ++ new).names.Nodup) :
    ∃ b', b.send Command.pop.text = { outcome := .ok (), state := b', events := [.popped] } ∧
      b'.Keeps saved scopes ∧
      (b.declared.drop saved.length).foldlM SortTable.delete? b.constants = some b'.constants := by
  have length : saved.names.length = saved.length := List.length_map _
  have gone : b.declared.drop saved.length = SortTable.names new := by
    rw [h.names, SortTable.names_append, List.drop_left' length]
  have mark : b.marks.headD b.declared.length = saved.length := by
    rw [h.marks]
    rfl
  have filtered : b.constants.filter
      (fun entry => !(b.declared.drop saved.length).contains entry.1) = saved := by
    rw [gone, h.constants]
    exact SortTable.filter_names_append once
  refine ⟨_, (send_pop b).trans (by rw [InProcess.pop, mark]; rfl), ⟨filtered, ?_, ?_⟩,
    Eq.trans ?_ (congrArg some filtered).symm⟩
  · show b.declared.take _ = _
    rw [h.names, SortTable.names_append, List.take_left' length]
  · show b.marks.drop 1 = _
    rw [h.marks]
    rfl
  · rw [gone, h.constants]
    exact SortTable.foldlM_delete? once

/-- Whether a reply leaves the account as it was and asserts nothing. -/
structure Idle {α : Type} (b : InProcess) (r : Reply Channel α) : Prop where
  /-- The account is as it was. -/
  account : ∃ b', r.state = .inProcess b' ∧ b'.constants = b.constants ∧
    b'.declared = b.declared ∧ b'.marks = b.marks
  /-- Nothing is asserted. -/
  quiet : ∀ text constants, .asserted text constants ∉ r.events

theorem idle_setDeadline (b : InProcess) : b.Idle (b.setDeadline.mapState Channel.inProcess) := by
  unfold setDeadline
  split
  · exact ⟨⟨_, rfl, rfl, rfl, rfl⟩, by simp [call]⟩
  · split
    · exact ⟨⟨_, rfl, rfl, rfl, rfl⟩, by simp [call]⟩
    · exact ⟨⟨_, rfl, rfl, rfl, rfl⟩, by simp⟩

/-- A solver that is started has no constants and no open scopes. -/
theorem keeps_start (binding : Binding) (deadline : Option Seconds) :
    (start binding deadline).state.Keeps [] [] ∧
      ∀ text constants, .asserted text constants ∉ (start binding deadline).events := by
  unfold start
  rw [Reply.andThen_of_ok rfl]
  obtain ⟨⟨b, state, constants, names, marks⟩, quiet⟩ :=
    idle_setDeadline (call [.solverMade] { binding, deadline }).state
  obtain rfl := Channel.inProcess.inj state
  exact ⟨⟨constants, names, marks⟩, by simpa [call] using quiet⟩

/-- The first words leave no account. -/
theorem idle_greeting (b : InProcess) {c : Command}
    (greeting : c = .produceModels ∨ ∃ logic, c = .setLogic logic) :
    b.Idle ((Channel.inProcess b).send c.text) := by
  show b.Idle ((b.send c.text).mapState Channel.inProcess)
  obtain rfl | ⟨logic, rfl⟩ := greeting
  · rw [send_produceModels]
    exact ⟨⟨_, rfl, rfl, rfl, rfl⟩, by simp [call]⟩
  · rw [send_setLogic, Reply.andThen_of_ok rfl]
    obtain ⟨account, quiet⟩ := idle_setDeadline
      (b.call [.solverMadeFor (logicOf (Command.setLogic logic).text)]).state
    exact ⟨account, by simpa [call] using quiet⟩

theorem idle_askStatus (b : InProcess) (deadline : Option Seconds) :
    b.Idle ((Channel.inProcess b).askStatus deadline) := by
  show b.Idle (b.check.mapState Channel.inProcess)
  unfold check
  rw [Reply.andThen_of_ok rfl]
  dsimp only
  split
  · exact ⟨⟨_, rfl, rfl, rfl, rfl⟩, by simp [call]⟩
  · exact ⟨⟨_, rfl, rfl, rfl, rfl⟩, by simp [call]⟩
  · split <;> exact ⟨⟨_, rfl, rfl, rfl, rfl⟩, by simp [call]⟩

theorem idle_askValues (b : InProcess) (deadline : Option Seconds) (sorts : SortTable)
    (names : List String) : b.Idle ((Channel.inProcess b).askValues deadline sorts names) :=
  ⟨⟨b, rfl, rfl, rfl, rfl⟩, by simp [Channel.askValues]⟩

end InProcess

end SmtDialogue
