import SmtDialogue.Proofs.Composition
import SmtDialogue.Proofs.Layout
import SmtDialogue.Proofs.SoundSolver

/-!
# Where an answer ends

A process gives no sign that its answer is over. The reader tells from the text:
after each line it reads all lines again, and stops when they are complete. This
finds the end of any form laid out over lines (`LaidOver.whole`), and not a line
earlier or later, wherever the lines are broken.

That it does not stop too late is that such a text is read at all. That it does
not stop too early needs more. The lines before the last one may hold any part of
the form, and be read without an error – then they hold no token at all. For what
follows them holds the last token, so it is read as at least one item; both parts
together have one item only, and so none is left for the lines before
(`LaidOver.sooner`). The last token is found in what follows because a layout ends
with a character that is no blank, in a place where a comment cannot be.
-/

namespace SmtDialogue

/-! ## Texts without an item -/

namespace Nesting

/-- A token leaves something behind. -/
theorem push_ne_empty (n : Nesting) (t : Token) : n.push t ≠ empty := by
  intro same
  cases n with
  | broken => cases t <;> cases same
  | nested top inner =>
    cases t with
    | opening => cases same
    | closing =>
      cases inner with
      | nil => cases same
      | cons items outer => cases outer <;> cases same
    | bare text | barred text | literal text => cases inner <;> cases same

/-- So nothing is left behind by no token only. -/
theorem foldl_push_eq_empty {ts : List Token} (h : ts.foldl push empty = empty) : ts = [] := by
  rcases List.eq_nil_or_concat' ts with none | ⟨front, t, rfl⟩
  · exact none
  · rw [List.foldl_concat] at h
    exact absurd h (push_ne_empty _ t)

/-- What is closed without an item is empty. -/
theorem eq_empty_of_close {n : Nesting} (h : n.close = .ok []) : n = empty := by
  cases n with
  | broken => cases h
  | nested top inner =>
    cases inner with
    | cons items outer => cases h
    | nil =>
      have none : top.reverse = [] := Except.ok.inj h
      rw [List.reverse_eq_nil_iff.1 none]
      rfl

end Nesting

/-- A text that can be read has been scanned to its end. -/
theorem Item.exists_scan_of_parse {text : String} {items : List Item}
    (done : parse text = .ok items) :
    ∃ ts, Token.scan text = .ok ts ∧ (ts.foldl Nesting.push .empty).close = .ok items := by
  cases scanned : Token.scan text with
  | ok ts => exact ⟨ts, rfl, (parse_of_scan scanned).symm.trans done⟩
  | error what =>
    unfold Token.scan at scanned
    unfold parse at done
    dsimp only at done
    cases finished : (Scan.between.run text.toList).1.finish with
    | ok final => simp [finished, Except.map] at scanned
    | error what =>
      rw [finished] at done
      split at done <;> cases done

/-- **A text without an item has no token.** -/
theorem Item.scan_of_parse_nil {text : String} (done : parse text = .ok []) :
    Token.scan text = .ok [] := by
  obtain ⟨ts, scanned, closed⟩ := exists_scan_of_parse done
  rw [scanned, Nesting.foldl_push_eq_empty (Nesting.eq_empty_of_close closed)]

namespace Scan

/-- From where the text ended, `more` is read on. -/
theorem tokens_append (scan : Scan) (cs more : List Char) :
    scan.tokens (cs ++ more) = ((scan.run cs).1.tokens more).map ((scan.run cs).2 ++ ·) := by
  unfold tokens
  rw [run_append]
  cases ((scan.run cs).1.run more).1.finish with
  | error what => rfl
  | ok final => simp [Except.map, List.append_assoc]

/-- No token is completed where none comes of the whole. -/
theorem run_of_tokens_nil {scan : Scan} {cs more : List Char}
    (none : scan.tokens (cs ++ more) = .ok []) : (scan.run cs).2 = [] := by
  rw [tokens_append] at none
  cases rest : (scan.run cs).1.tokens more with
  | error what => rw [rest] at none; cases none
  | ok ts =>
    rw [rest] at none
    exact (List.append_eq_nil_iff.1 (Except.ok.inj none)).1

/-- Only inside of nothing is a parenthesis the first token. -/
theorem eq_between_of_tokens_opening {scan : Scan} (h : scan.tokens ['('] = .ok [.opening]) :
    scan = between := by
  cases scan with
  | between => rfl
  | comment | bare read | barred read | literal read | quote read => cases h

/-- A character that completes no token and leaves the scanner inside of nothing is
a blank. -/
theorem isBlank_of_step {scan : Scan} {c : Char} (h : scan.step c = (between, [])) :
    Text.isBlank c = true := by
  have entered (h : enter c = (between, [])) : Text.isBlank c = true := by
    by_contra visible
    unfold enter at h
    rw [if_neg visible] at h
    split at h
    · cases h
    split at h
    · cases h
    split at h
    · cases h
    split at h
    · cases h
    split at h <;> cases h
  cases scan with
  | between => exact entered h
  | comment =>
    by_cases feed : c = '\n'
    · rw [feed]
      rfl
    · simp [step, feed] at h
  | bare read =>
    simp only [step] at h
    split at h
    · cases congrArg Prod.snd h
    · cases congrArg Prod.fst h
  | quote read =>
    simp only [step] at h
    split at h
    · cases congrArg Prod.fst h
    · cases congrArg Prod.snd h
  | barred read => simp only [step] at h; split at h <;> cases h
  | literal read => simp only [step] at h; split at h <;> cases h

end Scan

/-! ## The end of a layout -/

/-- A token ends with a character that is no blank. -/
theorem Token.exists_getLast?_source {t : Token} (writable : t.Writable) :
    ∃ c, t.source.toList.getLast? = some c ∧ Text.isBlank c = false := by
  cases t with
  | opening => exact ⟨'(', by decide, by decide⟩
  | closing => exact ⟨')', by decide, by decide⟩
  | bare text =>
    obtain ⟨some, inside⟩ := writable
    have nonempty : text.toList ≠ [] := fun h => some (String.toList_eq_nil_iff.1 h)
    refine ⟨text.toList.getLast nonempty, List.getLast?_eq_some_getLast nonempty, ?_⟩
    have last := inside _ (List.getLast_mem nonempty)
    simp only [Scan.endsBare, Bool.or_eq_false_iff] at last
    exact last.1.1.1.1.1
  | barred text =>
    refine ⟨'|', ?_, by decide⟩
    rw [source, String.toList_append, List.getLast?_append]
    rfl
  | literal text =>
    refine ⟨'"', ?_, by decide⟩
    rw [source, String.toList_append, List.getLast?_append]
    rfl

namespace Laid

variable {after : Prop} {ts : List Token} {cs : List Char}

/-- Tokens laid out end as the last of them does. -/
theorem exists_getLast? (laid : Laid after ts cs) (writable : ∀ t ∈ ts, t.Writable)
    (nonempty : ts ≠ []) : ∃ c, cs.getLast? = some c ∧ Text.isBlank c = false := by
  induction laid with
  | nil => exact absurd rfl nonempty
  | @cons after t ts gap cs _ _ others ih =>
    by_cases none : ts = []
    · subst none
      cases others
      obtain ⟨c, last, visible⟩ := Token.exists_getLast?_source (writable t List.mem_cons_self)
      refine ⟨c, ?_, visible⟩
      rw [List.append_nil, List.getLast?_append, last]
      rfl
    · obtain ⟨c, last, visible⟩ := ih (fun u hu => writable u (List.mem_cons_of_mem _ hu)) none
      refine ⟨c, ?_, visible⟩
      rw [List.getLast?_append, List.getLast?_append, last]
      rfl

/-- **The last token of a layout is in any part at its end**, when what stands before
leaves the scanner inside of nothing. -/
theorem tokens_ne_nil_of_append {front back tail : List Char} (laid : Laid after ts (front ++ back))
    (writable : ∀ t ∈ ts, t.Writable) (gap : Gap tail) (some : back ≠ [])
    (between : (Scan.between.run front).1 = .between) :
    Scan.between.tokens (back ++ tail) ≠ .ok [] := by
  intro none
  have quiet := Scan.run_of_tokens_nil none
  -- the scanner would be inside of nothing at the end of the layout, with all tokens read
  have all : (Scan.between.run front).2 = ts := by
    have whole := laid.tokens writable gap.apart
    rw [gap.tokens_eq_nil, List.append_assoc, Scan.tokens_append, between, none] at whole
    simpa [Except.map] using whole
  have ended : (Scan.between.run back).1 = .between := by
    have apart : ∀ c ∈ ['('].head?, Scan.endsBare c = true ∧ c ≠ '"' := by
      rintro c ⟨⟩
      decide
    have more := laid.tokens writable apart
    rw [List.append_assoc, Scan.tokens_append, between, all, Scan.tokens_append, quiet] at more
    cases last : (Scan.between.run back).1.tokens ['('] with
    | error what => rw [last] at more; cases more
    | ok us =>
      rw [last] at more
      have same : ts ++ ([] ++ us) = ts ++ [.opening] := Except.ok.inj more
      rw [List.nil_append, List.append_cancel_left_eq] at same
      exact Scan.eq_between_of_tokens_opening (same ▸ last)
  -- but its last character is no blank
  obtain ⟨init, c, rfl⟩ := (List.eq_nil_or_concat' back).resolve_left some
  have blank : Text.isBlank c = true := by
    rw [Scan.run_append] at ended quiet
    have step : ((Scan.between.run init).1.step c) = (.between, []) := by
      have := (List.append_eq_nil_iff.1 quiet).2
      simp only [Scan.run, List.append_nil] at this ended
      exact Prod.ext ended this
    exact Scan.isBlank_of_step step
  have tokens : ts ≠ [] := by
    rintro rfl
    generalize same : front ++ (init ++ [c]) = cs at laid
    cases laid
    simp at same
  obtain ⟨d, last, visible⟩ := laid.exists_getLast? writable tokens
  rw [← List.append_assoc, List.getLast?_concat] at last
  rw [← Option.some.inj last, blank] at visible
  cases visible

end Laid

/-! ## Answers over lines -/

/-- **A form laid out over lines**: before its last token lines may be broken
wherever a layout has blanks, and inside of quoted symbols and literals; the line
of the last token is ended, after blanks and perhaps a comment. -/
structure LaidOver (f : Form) (text : String) : Prop where
  /-- The form can be written. -/
  writable : f.Writable
  /-- Its tokens stand in the text, and after them the rest of the line. -/
  layout : ∃ body rest, text.toList = body ++ (rest ++ ['\n']) ∧ Laid False f.tokens body ∧
    '\n' ∉ rest ∧ Gap (rest ++ ['\n'])

namespace LaidOver

variable {f : Form} {text : String}

theorem scan (h : LaidOver f text) : Token.scan text = .ok f.tokens := by
  obtain ⟨body, rest, split, laid, -, gap⟩ := h.layout
  rw [← String.ofList_toList (s := text), split]
  exact laid.scan h.writable.tokens gap

/-- **It is read as the item of the form.** -/
theorem parse (h : LaidOver f text) : Item.parse text = .ok [f.item] := by
  rw [Item.parse_of_scan h.scan, Nesting.empty, Form.foldl_push_tokens h.writable]
  rfl

/-- **Lines before the last one** end before the last token. -/
theorem exists_of_lines {front back : List Char} (h : LaidOver f text)
    (split : text.toList = front ++ back) (more : back ≠ [])
    (ended : front.getLast? = some '\n') :
    ∃ part tail, back = part ++ tail ∧ part ≠ [] ∧ Laid False f.tokens (front ++ part) ∧
      Gap tail := by
  obtain ⟨body, rest, whole, laid, inside, gap⟩ := h.layout
  have visible : body.getLast? ≠ some '\n' := by
    have tokens : f.tokens ≠ [] := by
      cases f with
      | atom token => exact nofun
      | list forms => rw [Form.tokens_list]; exact nofun
    obtain ⟨c, last, visible⟩ := laid.exists_getLast? h.writable.tokens tokens
    rw [last]
    rintro ⟨⟩
    cases visible
  rw [split] at whole
  rcases List.append_eq_append_iff.1 whole with ⟨part, rfl, same⟩ | ⟨beyond, rfl, same⟩
  · refine ⟨part, _, same, ?_, laid, gap⟩
    rintro rfl
    exact visible (by rwa [List.append_nil])
  · -- a line feed after the layout is the last character
    exfalso
    rcases List.eq_nil_or_concat' beyond with rfl | ⟨init, c, rfl⟩
    · rw [List.append_nil] at ended
      exact visible ended
    · rw [← List.append_assoc, List.getLast?_concat] at ended
      cases ended
      obtain ⟨last, d, rfl⟩ := (List.eq_nil_or_concat' back).resolve_left more
      rw [← List.append_assoc] at same
      rw [(List.append_inj' same rfl).1] at inside
      exact inside (by simp)

/-- **Fewer lines are unfinished or hold nothing**: they are no complete answer. -/
theorem isComplete_of_lines {front back : List Char} (h : LaidOver f text)
    (split : text.toList = front ++ back) (more : back ≠ [])
    (ended : front = [] ∨ front.getLast? = some '\n') :
    Item.isComplete (String.ofList front) = .ok false := by
  rcases ended with rfl | ended
  · rfl
  have whole : text = String.ofList front ++ String.ofList back := by
    rw [← String.ofList_append, ← split, String.ofList_toList]
  have all := h.parse
  unfold Item.isComplete
  cases before : Item.parse (String.ofList front) with
  | error e =>
    cases e with
    | unfinished what => rfl
    | unbalanced =>
      rw [whole, Item.parse_append_of_unbalanced before] at all
      cases all
  | ok items =>
    have feed : (String.ofList front).toList.getLast? = some '\n' := by rwa [String.toList_ofList]
    rw [whole, Item.parse_append_of_ended before (.inr feed)] at all
    cases items with
    | nil => rfl
    | cons item items =>
      -- all items would be in these lines, and no token after them
      exfalso
      obtain ⟨part, tail, rfl, some, laid, gap⟩ := h.exists_of_lines split more ended
      have none : Item.parse (String.ofList (part ++ tail)) = .ok [] := by
        cases after : Item.parse (String.ofList (part ++ tail)) with
        | error e => rw [after] at all; cases all
        | ok others =>
          rw [after] at all
          have same : item :: items ++ others = [f.item] := Except.ok.inj all
          rw [(List.append_eq_nil_iff.1 (List.cons.inj same).2).2]
      rw [Reader.parse_eq_result] at before
      have between := Reader.scan_read_of_result before (.inr feed)
      rw [String.toList_ofList] at between
      have scanned : Scan.between.tokens (String.ofList (part ++ tail)).toList = .ok [] :=
        Item.scan_of_parse_nil none
      rw [String.toList_ofList] at scanned
      exact laid.tokens_ne_nil_of_append h.writable.tokens gap some between scanned

theorem ended (h : LaidOver f text) : (Text.splitFeeds text).2 = "" := by
  obtain ⟨body, rest, split, -⟩ := h.layout
  refine Text.splitFeeds_of_getLast? ?_
  rw [split, ← List.append_assoc, List.getLast?_concat]

/-- **A form laid out over lines is one whole answer**: complete with its last line,
and not before. -/
theorem whole (h : LaidOver f text) : WholeAnswer text where
  ended := h.ended
  complete := by
    unfold Item.isComplete
    rw [h.parse]
    rfl
  sooner front back split more := by
    have text_eq := Process.join_splitFeeds h.ended
    rw [split] at text_eq
    have chars : text.toList = (String.join front).toList ++ (String.join back).toList := by
      rw [← text_eq, String.join_append, String.toList_append]
    have feed : ∀ line ∈ front ++ back, line.toList.getLast? = some '\n' := by
      rw [← split]
      exact fun line here => Text.getLast?_of_mem_splitFeeds here
    have later : (String.join back).toList ≠ [] := by
      obtain ⟨line, back, rfl⟩ := List.exists_cons_of_ne_nil more
      rw [String.join_cons, String.toList_append]
      intro none
      have last := feed line (by simp)
      rw [(List.append_eq_nil_iff.1 none).1] at last
      cases last
    have before : (String.join front).toList = [] ∨
        (String.join front).toList.getLast? = some '\n' := by
      rcases List.eq_nil_or_concat' front with rfl | ⟨init, line, rfl⟩
      · exact .inl rfl
      · right
        rw [String.join_append, String.toList_append, List.getLast?_append, String.join_cons,
          String.join_nil, String.append_empty, feed line (by simp)]
        rfl
    rw [← String.ofList_toList (s := String.join front)]
    exact h.isComplete_of_lines chars later before

/-- Blanks and comments before it make no difference. -/
theorem after_gap (h : LaidOver f text) {gap : String} (isGap : Gap gap.toList) :
    LaidOver f (gap ++ text) where
  writable := h.writable
  layout := by
    obtain ⟨body, rest, split, laid, inside, rest_gap⟩ := h.layout
    refine ⟨gap.toList ++ body, rest, ?_, ?_, inside, rest_gap⟩
    · rw [String.toList_append, split, List.append_assoc]
    · cases f with
      | atom token => exact laid.after_gap isGap
      | list forms =>
        rw [Form.tokens_list] at laid ⊢
        exact laid.after_gap isGap

/-- The text of a form and a line feed are the form laid out over lines. -/
theorem of_text {f : Form} (writable : f.Writable) : LaidOver f (f.text ++ "\n") where
  writable := writable
  layout := by
    refine ⟨f.text.toList, [], String.toList_append, ?_, nofun, .blank (by decide) .nil⟩
    have laid : Laid False (f.tokens ++ []) ([] ++ (f.text.toList ++ [])) :=
      Laid.anywhere_text f .nil nofun .nil
    simpa using laid

end LaidOver

end SmtDialogue
