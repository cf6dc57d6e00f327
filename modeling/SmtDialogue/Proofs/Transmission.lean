import SmtDialogue.Proofs.Dialogue
import SmtDialogue.Proofs.LineFeeds
import SmtDialogue.Proofs.SoundSolver

/-!
# What an assertion sends

The commands of an assertion are written as one text, which is sent in lines.
What the solver has read by then is the text with its line separators turned
into line feeds, and reads as the same commands over other names: those of the
variables with their separators turned into line feeds (`parse_sentSince`). So
the solver has read the commands that were written exactly when the names have
no separators but line feeds, and otherwise knows variables by other names than
the session does.
-/

namespace SmtDialogue

open Text

namespace Scan

/-- Nothing comes of blanks. -/
theorem tokens_blanks {cs : List Char} (blank : ∀ c ∈ cs, isBlank c = true) :
    between.tokens cs = .ok [] := by
  induction cs with
  | nil => rfl
  | cons c cs ih =>
    rw [tokens_blank (blank c List.mem_cons_self),
      ih fun d hd => blank d (List.mem_cons_of_mem _ hd)]

end Scan

namespace Smt

/-- The tokens of a term over writable names. An application to nothing is
written with a space after the operator, which is passed over. -/
theorem Term.tokens_text {t : Term} (h : t.Named fun x => isWritable x = true) {rest : List Char}
    (apart : ∀ c ∈ rest.head?, Scan.endsBare c = true ∧ c ≠ '"') :
    Scan.between.tokens (t.text.toList ++ rest) =
      (Scan.between.tokens rest).map (t.form.tokens ++ ·) := by
  induction h generalizing rest with
  | symbol writable =>
    rw [text, ← text_nameForm]
    exact Form.tokens_text (writable_nameForm writable) apart
  | literal v =>
    rw [text, ← text_literalForm]
    exact Form.tokens_text (writable_literalForm v) apart
  | @app op args inner _ ih =>
    have head : (Token.bare (headOf op)).Writable := by
      cases writable_headOf inner with
      | atom _ writable => exact writable
    have shape : (app (headOf op) args).text.toList ++ rest = '(' :: ((headOf op).toList ++
        (' ' :: ([' '].intercalate (args.map (·.text.toList)) ++ ')' :: rest))) := by
      rw [text_app]
      simp [List.map_map, Function.comp_def]
    have tokens : (app (headOf op) args).form.tokens =
        .opening :: .bare (headOf op) :: (args.flatMap (·.form.tokens) ++ [.closing]) := by
      rw [form_app, Form.tokens_list, List.flatMap_cons, List.flatMap_map]
      rfl
    rw [shape, Scan.tokens_cons, show Scan.between.step '(' = (.between, [.opening]) from rfl,
      show (headOf op).toList = (Token.bare (headOf op)).source.toList from rfl,
      Token.tokens_source head (by simp; decide), Scan.tokens_blank (by decide),
      Form.tokens_intercalate (by decide) (by simp [Scan.endsBare])
        fun t ht rest apart => ih t ht apart,
      Scan.tokens_cons, show Scan.between.step ')' = (.between, [.closing]) from rfl, tokens]
    cases Scan.between.tokens rest with
    | error e => rfl
    | ok ts => simp [Except.map]

/-- **The term of any expression** is over names that can be written. -/
theorem Term.named_ofExpr {e : Expr} {t : Term} (written : ofExpr e = .ok t) :
    t.Named fun x => isWritable x = true := by
  induction e using Expr.induct generalizing t with
  | node l cs ih =>
    by_cases leaf : l.op = .identity
    · obtain ⟨writable, rfl⟩ := (ofExpr_identity leaf).1 written
      exact .symbol writable
    by_cases literal : l.op = .const
    · obtain ⟨v, -, rfl⟩ := (ofExpr_const literal).1 written
      exact .literal v
    have inner : l.op.isLeaf = false := Op.isLeaf_eq_false_iff.2 ⟨leaf, literal⟩
    obtain ⟨ts, parts, rfl⟩ := (ofExpr_inner inner).1 written
    have named : ∀ t ∈ ts, t.Named fun x => isWritable x = true := fun t ht => by
      obtain ⟨c, hc, written⟩ := Outcome.exists_of_mem_right parts ht
      exact ih c hc written
    unfold apply
    split
    · split
      · exact named _ List.mem_cons_self
      · exact .app inner named
    · exact .app inner named

namespace Command

/-- The item of a command. -/
def item (c : Command) : Item :=
  c.form.item

/-- The command with other names for its variables. -/
def rename (f : String → String) : Command → Command
  | declare name sort => declare (f name) sort
  | assert term => assert (term.rename f)
  | getValue names => getValue (names.map f)
  | other => other

/-- The names of the variables of a command. -/
def names : Command → List String
  | declare name _ => [name]
  | assert term => term.names
  | getValue names => names
  | _ => []

/-- Names arrive so that they can be read. -/
theorem Readable.rename {c : Command} (h : c.Readable) : (c.rename feeds).Readable := by
  cases c with
  | setLogic logic => exact h
  | declare name sort => exact isWritable_feeds h
  | assert term => exact Term.Named.rename (fun _ => isWritable_feeds) h
  | getValue names =>
    intro x hx
    obtain ⟨y, hy, rfl⟩ := List.mem_map.1 hx
    exact isWritable_feeds (h y hy)
  | produceModels | checkSat | push | pop | exit => trivial

/-- A command over names that are kept together is written on one line. -/
theorem Readable.breakFree_text {c : Command} (h : c.Readable)
    (whole : ∀ x ∈ c.names, BreakFree x) : BreakFree c.text := by
  cases c with
  | setLogic logic => exact h.elim
  | declare name sort => exact breakFree_declare (whole name (List.mem_singleton_self name)) sort
  | assert term =>
    rw [text_assert]
    exact breakFree_append.2
      ⟨breakFree_append.2 ⟨by decide, Term.Named.breakFree_text h whole⟩, by decide⟩
  | getValue names =>
    rw [text_getValue]
    refine breakFree_append.2 ⟨breakFree_append.2 ⟨by decide,
      breakFree_intercalate (by decide) fun s hs => ?_⟩, by decide⟩
    obtain ⟨x, hx, rfl⟩ := List.mem_map.1 hs
    exact breakFree_symbolText (whole x hx)
  | produceModels | checkSat | push | pop | exit => decide

/-- **A command arrives as the command over the names that arrive.** -/
theorem feeds_text {c : Command} (h : c.Readable) : feeds c.text = (c.rename feeds).text := by
  cases c with
  | setLogic logic => exact h.elim
  | declare name sort =>
    have sorts : BreakFree sort.name := by cases sort <;> decide
    rw [rename, text_declare, text_declare, feeds_append_of_right (by decide),
      feeds_append_of_right sorts, feeds_append_of_right (by decide),
      feeds_append_of_left (by decide), feeds_symbolText]
  | assert term =>
    rw [rename, text_assert, text_assert, feeds_append_of_right (by decide),
      feeds_append_of_left (by decide), Term.feeds_text h]
  | getValue names =>
    have texts : (names.map symbolText).map feeds = (names.map feeds).map symbolText := by
      rw [List.map_map, List.map_map]
      exact List.map_congr_left fun x _ => feeds_symbolText x
    rw [rename, text_getValue, text_getValue, feeds_append_of_right (by decide),
      feeds_append_of_left (by decide),
      feeds_intercalate rfl (by decide) fun _ _ => .inr (by decide), texts]
  | produceModels | checkSat | push | pop | exit => exact feeds_of_breakFree (by decide)

/-- A renamed command reads as the command exactly when its names stay as they
are. -/
theorem item_rename_iff {f : String → String} {c : Command} (h : c.Readable) :
    (c.rename f).item = c.item ↔ ∀ x ∈ c.names, f x = x := by
  cases c with
  | assert term =>
    simp only [rename, item, form, names, Form.item_list, List.map_cons, List.map_nil,
      Item.list.injEq, List.cons.injEq, true_and, and_true]
    exact Term.item_rename_iff h
  | _ => simp [rename, item, form, names, Function.comp_def]

/-- The tokens of a command. -/
theorem tokens_text {c : Command} (h : c.Readable) {rest : List Char}
    (apart : ∀ d ∈ rest.head?, Scan.endsBare d = true ∧ d ≠ '"') :
    Scan.between.tokens (c.text.toList ++ rest) =
      (Scan.between.tokens rest).map (c.form.tokens ++ ·) := by
  cases c with
  | setLogic logic => exact h.elim
  | assert term =>
    have inside : "assert".toList.all (fun c => !Scan.endsBare c) = true := by decide
    have lead : (Token.bare "assert").Writable :=
      ⟨by decide, fun c hc => by simpa using List.all_eq_true.1 inside c hc⟩
    have shape : (assert term).text.toList ++ rest =
        '(' :: ("assert".toList ++ (' ' :: (term.text.toList ++ (')' :: rest)))) := by
      rw [text_assert]
      simp
    rw [shape, Scan.tokens_cons, show Scan.between.step '(' = (.between, [.opening]) from rfl,
      show "assert".toList = (Token.bare "assert").source.toList from rfl,
      Token.tokens_source lead (by simp; decide), Scan.tokens_blank (by decide),
      Term.tokens_text h (by simp [Scan.endsBare]), Scan.tokens_cons,
      show Scan.between.step ')' = (.between, [.closing]) from rfl, form, Form.tokens_list]
    cases Scan.between.tokens rest with
    | error e => rfl
    | ok ts => simp [Except.map, word, Form.tokens]
  | declare | getValue | produceModels | checkSat | push | pop | exit =>
    have written := Readable.written h fun t same => by cases same
    rw [← text_form written]
    exact Form.tokens_text (writable_form h) apart

theorem getLast?_text (c : Command) : c.text.toList.getLast? = some ')' := by
  cases c with
  | setLogic | declare | assert | getValue =>
    first | rw [text_setLogic] | rw [text_declare] | rw [text_assert] | rw [text_getValue]
    rw [String.toList_append, List.getLast?_append]
    rfl
  | produceModels | checkSat | push | pop | exit => decide

end Command

/-! ## Blocks of commands -/

/-- A block ends as its last command does. -/
theorem getLast?_textOf {commands : List Command} (nonempty : commands ≠ []) :
    (textOf commands).toList.getLast? = some ')' := by
  induction commands with
  | nil => exact absurd rfl nonempty
  | cons c cs ih =>
    unfold textOf at ih ⊢
    by_cases none : cs = []
    · subst none
      rw [List.map_singleton, String.intercalate_singleton]
      exact c.getLast?_text
    · rw [List.map_cons, String.intercalate_cons_of_ne_nil (by simpa using none),
        String.toList_append, List.getLast?_append, ih none]
      rfl

/-- **A block arrives as the block over the names that arrive.** -/
theorem feeds_textOf {commands : List Command} (readable : ∀ c ∈ commands, c.Readable) :
    feeds (textOf commands) = textOf (commands.map (Command.rename feeds)) := by
  have texts : (commands.map Command.text).map feeds =
      (commands.map (Command.rename feeds)).map Command.text := by
    rw [List.map_map, List.map_map]
    exact List.map_congr_left fun c hc => Command.feeds_text (readable c hc)
  unfold textOf
  rw [feeds_intercalate rfl fun _ => rfl, texts]
  intro s hs
  obtain ⟨c, -, rfl⟩ := List.mem_map.1 hs
  rw [c.getLast?_text]
  exact .inl (by decide)

/-- **A block reads as the items of its commands**, whatever blanks follow. -/
theorem parse_textOf {commands : List Command} (readable : ∀ c ∈ commands, c.Readable)
    {tail : String} (blank : ∀ c ∈ tail.toList, isBlank c = true) :
    Item.parse (textOf commands ++ tail) = .ok (commands.map Command.item) := by
  have apart : ∀ c ∈ tail.toList.head?, Scan.endsBare c = true ∧ c ≠ '"' := fun c hc => by
    have space := blank c (List.mem_of_head? hc)
    refine ⟨by simp [Scan.endsBare, space], ?_⟩
    rintro rfl
    exact absurd space (by decide)
  have scanned : Token.scan (textOf commands ++ tail) =
      .ok (commands.flatMap fun c => c.form.tokens) := by
    have shape : (textOf commands ++ tail).toList =
        ['\n'].intercalate (commands.map fun c => c.text.toList) ++ tail.toList := by
      simp [textOf, List.map_map, Function.comp_def]
    show Scan.between.tokens (textOf commands ++ tail).toList = _
    rw [shape, Form.tokens_intercalate (by decide) apart fun c hc rest apart =>
      Command.tokens_text (readable c hc) apart, Scan.tokens_blanks blank]
    simp [Except.map]
  rw [Item.parse_of_tokens (List.forall_mem_map.2 fun c hc => Command.writable_form (readable c hc))
    (by rw [scanned, List.flatMap_map]), List.map_map]
  rfl

theorem Command.parse_text {c : Command} (readable : c.Readable) :
    Item.parse c.text = .ok [c.item] := by
  have read : Item.parse (textOf [c] ++ "") = .ok ([c].map Command.item) :=
    parse_textOf (List.forall_mem_singleton.2 readable) nofun
  rwa [String.append_empty, textOf, List.map_singleton, String.intercalate_singleton] at read

/-- The commands of any assertion that is written read as their items. -/
theorem readable_of_assertion {declared declared' : SortTable} {e : Expr} {commands : List Command}
    (accepted : assertion declared e = .ok (commands, declared')) : ∀ c ∈ commands, c.Readable := by
  obtain ⟨t, new, written, made, rfl, -⟩ := assertion_eq_ok_iff.1 accepted
  intro c hc
  rcases List.mem_append.1 hc with hc | hc
  · obtain ⟨⟨name, sort⟩, here, rfl⟩ := List.mem_map.1 hc
    exact (newDeclarations_spec made).writable name (SortTable.mem_names.2 ⟨sort, here⟩)
  · obtain rfl := List.mem_singleton.1 hc
    exact Term.named_ofExpr written

end Smt

/-! ## Processes that take everything -/

/-- Whether a process takes every command, now and later: it is running, and ends
at no command. -/
def Process.TakesAll (p : Process) : Prop :=
  p.alive = true ∧ ∀ history command, ∃ r, p.behaviour history command = .taken r ∧ r.ends = false

theorem Process.alive_react {p : Process} (alive : p.alive = true) {r : Reaction}
    (goesOn : r.ends = false) : (p.react r).alive = true := by
  have closed (p : Process) : p.closeOutput.alive = p.alive := by
    unfold closeOutput
    split <;> rfl
  have printed : (p.printAll r).alive = true := (p.alive_printAll r).1.trans alive
  unfold react
  rw [goesOn, if_neg Bool.false_ne_true]
  split
  · exact (closed _).trans printed
  · exact printed

/-- A process that takes everything takes a command and goes on so. -/
theorem Process.TakesAll.send {p : Process} (takes : p.TakesAll) (command : String) :
    (p.send command).outcome = .ok () ∧ (p.send command).events = [.written command] ∧
      (p.send command).state.TakesAll := by
  obtain ⟨r, taken, goesOn⟩ := takes.2 p.history command
  have hears : p.Takes command r := ⟨takes.1, taken⟩
  rw [hears.send]
  refine ⟨rfl, rfl, alive_react (p := p.hearing command) takes.1 goesOn, fun history next => ?_⟩
  have goes := takes.2 history next
  rwa [← show ((p.hearing command).react r).behaviour = p.behaviour from
    ((p.hearing command).persists_react r).behaviour] at goes

namespace Session

variable {s : Session}

/-- A process that takes everything takes commands one after the other. -/
theorem sendAll_of_takesAll {p : Process} (running : s.phase = .running (.process p))
    (takes : p.TakesAll) (commands : List String) :
    ∃ p' : Process, sendAll commands s = (.ok (), { s with
      phase := .running (.process p')
      trace := s.trace.addAll (commands.map .written) }) := by
  induction commands generalizing s p with
  | nil => exact ⟨p, by rw [← running]; rfl⟩
  | cons command rest ih =>
    obtain ⟨ok, events, takes'⟩ := takes.send command
    have sent : send command s = (.ok (), s.after ((Channel.process p).send command)) :=
      exchange_of_ok running ok
    obtain ⟨p', others⟩ := ih (s := s.after ((Channel.process p).send command)) rfl takes'
    refine ⟨p', ?_⟩
    show (send command >>= fun _ => sendAll rest) s = _
    rw [SessionM.bind_of_ok sent, others]
    show (_, { s with phase := _, trace := (s.trace.addAll (p.send command).events).addAll _ }) = _
    rw [events]
    rfl

/-- The characters that a process has read since an earlier session: each command
with a line feed. -/
def sentSince (s earlier : Session) : String :=
  String.join (((s.trace.since earlier.trace).filterMap Event.command?).map (· ++ "\n"))

open Smt

/-- An assertion that is written is sent as one text with its separators turned
into line feeds. -/
theorem assert_of_takesAll {p : Process} (running : s.phase = .running (.process p))
    (takes : p.TakesAll) {e : Expr} {commands : List Command} {declared : SortTable}
    (accepted : assertion s.declared e = .ok (commands, declared)) :
    ∃ s', Session.assert e s = (.ok (), s') ∧ s'.declared = declared ∧
      s'.sentSince s = feeds (textOf commands) ++ "\n" := by
  let entered : Session := { s with declared }
  obtain ⟨p', sent⟩ := sendAll_of_takesAll (s := entered) running takes (lines (textOf commands))
  have ends : (textOf commands).toList.getLast? = some ')' := by
    obtain ⟨t, new, -, -, rfl, -⟩ := assertion_eq_ok_iff.1 accepted
    exact getLast?_textOf (by simp)
  refine ⟨{ s with
    phase := .running (.process p')
    declared
    status := none
    trace := s.trace.addAll ((lines (textOf commands)).map .written) }, ?_, rfl, ?_⟩
  · unfold Session.assert
    rw [SessionM.bind_of_ok (requireRunning_of_running running _),
      SessionM.bind_of_ok (SessionM.get_apply s), accepted, SessionM.bind_of_ok (written_ok _ s)]
    dsimp only
    rw [SessionM.bind_of_ok (SessionM.modify_apply _ s), SessionM.bind_of_ok sent]
    rfl
  · have some : textOf commands ≠ "" := fun none => by
      rw [none] at ends
      cases ends
    have lastly : ∀ c ∈ (textOf commands).toList.getLast?, isLineBreak c = false := by
      rw [ends]
      rintro c ⟨⟩
      decide
    rw [← join_lines some lastly, sentSince, History.since_addAll, List.filterMap_map]
    congr 2
    exact List.filterMap_some

/-- **What an assertion sends.** At a process that takes everything, an assertion
that is written goes through. It is written as a declaration of each new
constant, with the term of the expression after them, and the text of these
commands reads as the commands. What the process has read since reads as the
same commands with each line separator in a name turned into a line feed; so it
reads as the text exactly when no name has another separator. -/
theorem parse_sentSince {p : Process} (running : s.phase = .running (.process p))
    (takes : p.TakesAll) {e : Expr} {commands : List Command} {declared : SortTable}
    (accepted : assertion s.declared e = .ok (commands, declared)) :
    ∃ s', Session.assert e s = (.ok (), s') ∧ s'.declared = declared ∧
      (∃ t new, Term.ofExpr e = .ok t ∧ newDeclarations s.declared e = .ok new ∧
        declared = s.declared ++ new ∧ commands = declareAll new ++ [.assert t]) ∧
      Item.parse (textOf commands) = .ok (commands.map Command.item) ∧
      Item.parse (s'.sentSince s) = .ok (commands.map fun c => (c.rename feeds).item) ∧
      (Item.parse (s'.sentSince s) = Item.parse (textOf commands) ↔
        ∀ c ∈ commands, ∀ x ∈ c.names, FeedsOnly x) := by
  obtain ⟨s', sent, knows, read⟩ := assert_of_takesAll running takes accepted
  have readable := readable_of_assertion accepted
  have written : Item.parse (textOf commands) = .ok (commands.map Command.item) := by
    rw [← String.append_empty (s := textOf commands)]
    exact parse_textOf readable nofun
  have arrived :
      Item.parse (s'.sentSince s) = .ok (commands.map fun c => (c.rename feeds).item) := by
    have renamed : ∀ c ∈ commands.map (Command.rename feeds), c.Readable := fun c hc => by
      obtain ⟨d, hd, rfl⟩ := List.mem_map.1 hc
      exact (readable d hd).rename
    have blank : "\n".toList.all isBlank = true := by decide
    rw [read, feeds_textOf readable, parse_textOf renamed (List.all_eq_true.1 blank), List.map_map]
    rfl
  refine ⟨s', sent, knows, ?_, written, arrived, ?_⟩
  · obtain ⟨t, new, term, made, commands, declared⟩ := assertion_eq_ok_iff.1 accepted
    exact ⟨t, new, term, made, declared, commands⟩
  · rw [arrived, written, Except.ok.injEq, List.map_inj_left]
    refine forall₂_congr fun c hc => ?_
    rw [Command.item_rename_iff (readable c hc)]
    exact forall₂_congr fun x _ => feeds_eq_self_iff

/-- A process that takes everything and says nothing. -/
def mute : Process where
  solver := "z3"
  behaviour := fun _ _ => .taken {}

theorem takesAll_mute : mute.TakesAll :=
  ⟨rfl, fun _ _ => ⟨{}, rfl, rfl⟩⟩

/-- A session with such a process. -/
def listening : Session where
  launch := .process ⟨"z3", ["z3"]⟩
  options := {}
  phase := .running (.process mute)

/-- A variable whose name has a line feed and one whose name has a vertical
tab. -/
def oddlyBroken : Expr :=
  .node ⟨.or, "or_a\nb_a\x0bb", some .bool, none, none⟩
    [.var "a\nb" (some .bool), .var "a\x0bb" none]

theorem parse_oddlyBroken :
    assertion listening.declared oddlyBroken =
      .ok ([.declare "a\nb" .bool, .declare "a\x0bb" .bool,
          .assert (.app "or" [.symbol "a\nb", .symbol "a\x0bb"])],
        [("a\nb", .bool), ("a\x0bb", .bool)]) ∧
    ∃ s', Session.assert oddlyBroken listening = (.ok (), s') ∧
      Item.parse (s'.sentSince listening) =
        .ok [.list [.symbol "declare-const", .symbol "a\nb", .symbol "Bool"],
          .list [.symbol "declare-const", .symbol "a\nb", .symbol "Bool"],
          .list [.symbol "assert", .list [.symbol "or", .symbol "a\nb", .symbol "a\nb"]]] := by
  have accepted : assertion listening.declared oddlyBroken =
      .ok ([.declare "a\nb" .bool, .declare "a\x0bb" .bool,
          .assert (.app "or" [.symbol "a\nb", .symbol "a\x0bb"])],
        [("a\nb", .bool), ("a\x0bb", .bool)]) := rfl
  obtain ⟨s', sent, -, -, -, arrived, -⟩ := parse_sentSince rfl takesAll_mute accepted
  exact ⟨accepted, s', sent, arrived⟩

/-- **A vertical tab in a name is lost**: the process gets to know a variable by
another name. -/
theorem sent_verticalTab :
    ∃ s', Session.assert (.var "a\x0bb" (some .bool)) listening = (.ok (), s') ∧
      s'.declared = [("a\x0bb", .bool)] ∧
      assertion listening.declared (.var "a\x0bb" (some .bool)) =
        .ok ([.declare "a\x0bb" .bool, .assert (.symbol "a\x0bb")], s'.declared) ∧
      Item.parse (s'.sentSince listening) =
        .ok [.list [.symbol "declare-const", .symbol "a\nb", .symbol "Bool"],
          .list [.symbol "assert", .symbol "a\nb"]] ∧
      Item.parse (s'.sentSince listening) ≠
        Item.parse (textOf [.declare "a\x0bb" .bool, .assert (.symbol "a\x0bb")]) := by
  have accepted : assertion listening.declared (.var "a\x0bb" (some .bool)) =
      .ok ([.declare "a\x0bb" .bool, .assert (.symbol "a\x0bb")], [("a\x0bb", .bool)]) := rfl
  obtain ⟨s', sent, knows, read⟩ := assert_of_takesAll rfl takesAll_mute accepted
  have arrived : Item.parse (s'.sentSince listening) =
      .ok [.list [.symbol "declare-const", .symbol "a\nb", .symbol "Bool"],
        .list [.symbol "assert", .symbol "a\nb"]] := by
    rw [read]
    rfl
  have written : Item.parse (textOf [.declare "a\x0bb" .bool, .assert (.symbol "a\x0bb")]) =
      .ok [.list [.symbol "declare-const", .symbol "a\x0bb", .symbol "Bool"],
        .list [.symbol "assert", .symbol "a\x0bb"]] := rfl
  refine ⟨s', sent, knows, knows ▸ accepted, arrived, ?_⟩
  rw [arrived, written]
  simp

end Session

end SmtDialogue
