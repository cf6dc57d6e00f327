import SmtDialogue.Proofs.Oracle

/-!
# How the answer to a check is read

The answer to a check is one word, and two readers look at it. The reader of
S-expressions decides that the answer is whole and whether it reports an error; it
passes over gaps, comments among them. The status is then found by comparing the whole
text with the words of the statuses, and this comparison cuts off blanks only.

A text whose one token is a bare word is that word between a gap and a trail
(`Token.exists_of_scan_bare`), where a trail is what may stand after the last token: a
gap, and perhaps a comment that no line feed ends. Both readers see the word when the
gap and the trail are blanks, which is when no comment is in the text. A comment is no
part of the answer for the one reader and a part of it for the other, and so an answer
with a comment is refused whatever its word is (`Answer.status_by_word`).
-/

namespace SmtDialogue

namespace Scan

/-! ## What a begun token becomes -/

/-- Whether the scanner is inside of a token. -/
def IsInside : Scan → Prop
  | between | comment => False
  | bare _ | barred _ | literal _ | quote _ => True

/-- Whether a token is of the kind that the scanner is inside of. -/
def Begins : Scan → Token → Prop
  | bare _, .bare _ | barred _, .barred _ | literal _, .literal _ | quote _, .literal _ => True
  | _, _ => False

/-- One character completes the token that has been begun, or leaves it begun. -/
theorem step_of_isInside {scan : Scan} (inside : scan.IsInside) (c : Char) :
    (∃ t more, (scan.step c).2 = t :: more ∧ scan.Begins t) ∨
      (scan.step c).2 = [] ∧ (scan.step c).1.IsInside ∧
        ∀ t, (scan.step c).1.Begins t → scan.Begins t := by
  cases scan with
  | between | comment => exact inside.elim
  | bare read =>
    by_cases ends : endsBare c = true
    · rw [step_bare_of_endsBare ends]
      exact .inl ⟨_, _, rfl, trivial⟩
    · rw [step, if_neg ends]
      exact .inr ⟨rfl, trivial, fun t h => by cases t <;> exact h⟩
  | barred read =>
    rw [step]
    split
    · exact .inl ⟨_, _, rfl, trivial⟩
    · exact .inr ⟨rfl, trivial, fun t h => by cases t <;> exact h⟩
  | literal read =>
    rw [step]
    split
    · exact .inr ⟨rfl, trivial, fun t h => by cases t <;> exact h⟩
    · exact .inr ⟨rfl, trivial, fun t h => by cases t <;> exact h⟩
  | quote read =>
    by_cases doubled : c = '"'
    · subst doubled
      exact .inr ⟨rfl, trivial, fun t h => by cases t <;> exact h⟩
    · rw [step_quote_of_ne doubled]
      exact .inl ⟨_, _, rfl, trivial⟩

/-- **Inside of a token the first token to come is this one.** -/
theorem exists_cons_of_isInside {scan : Scan} {cs : List Char} {ts : List Token}
    (done : scan.tokens cs = .ok ts) (inside : scan.IsInside) :
    ∃ t more, ts = t :: more ∧ scan.Begins t := by
  induction cs generalizing scan ts with
  | nil =>
    rw [tokens_nil] at done
    cases scan with
    | between | comment => exact inside.elim
    | bare | quote => cases done; exact ⟨_, _, rfl, trivial⟩
    | barred | literal => cases done
  | cons c cs ih =>
    rw [tokens_cons] at done
    cases rest : (scan.step c).1.tokens cs with
    | error what => rw [rest] at done; cases done
    | ok others =>
      rw [rest] at done
      cases done
      rcases scan.step_of_isInside inside c with ⟨t, more, completed, kind⟩ | ⟨none, still, kind⟩
      · exact ⟨t, more ++ others, by rw [completed]; rfl, kind⟩
      · obtain ⟨t, more, rfl, first⟩ := ih rest still
        exact ⟨t, more, by rw [none]; rfl, kind t first⟩

end Scan

/-! ## What stands around the tokens -/

/-- **A trail after the last token**: a gap, and perhaps a comment that nothing ends. -/
inductive Trail : List Char → Prop
  /-- A gap. -/
  | gap {cs : List Char} (isGap : Gap cs) : Trail cs
  /-- A gap, and a comment up to the end of the text. -/
  | comment {cs note : List Char} (isGap : Gap cs) (last : '\n' ∉ note) :
      Trail (cs ++ ';' :: note)

namespace Gap

/-- Without a comment a gap is blank. -/
theorem blank_of_not_mem {gap : List Char} (h : Gap gap) (none : ';' ∉ gap) :
    ∀ c ∈ gap, Text.isBlank c = true := by
  induction h with
  | nil => exact nofun
  | blank isBlank _ ih =>
    exact List.forall_mem_cons.2 ⟨isBlank, ih (mt (List.mem_cons_of_mem _) none)⟩
  | comment => exact absurd List.mem_cons_self none

end Gap

namespace Trail

variable {cs : List Char}

/-- A trail may stand after a gap. -/
theorem after_gap {gap : List Char} (h : Trail cs) (isGap : Gap gap) : Trail (gap ++ cs) := by
  cases h with
  | gap rest => exact .gap (isGap.append rest)
  | comment rest last =>
    rw [← List.append_assoc]
    exact .comment (isGap.append rest) last

/-- Nothing comes of a trail. -/
theorem tokens_eq_nil (h : Trail cs) : Scan.between.tokens cs = .ok [] := by
  cases h with
  | gap isGap => exact isGap.tokens_eq_nil
  | @comment cs note isGap last =>
    have unended (note : List Char) (last : '\n' ∉ note) : Scan.comment.tokens note = .ok [] := by
      induction note with
      | nil => rfl
      | cons c note ih =>
        rw [List.mem_cons, not_or] at last
        rw [Scan.tokens_cons, Scan.step, if_neg (by simpa using Ne.symm last.1),
          Scan.map_nil_append, ih last.2]
    rw [isGap.tokens, Scan.tokens_cons]
    exact (Scan.map_nil_append _).trans (unended note last)

/-- Without a comment a trail is blank. -/
theorem blank_of_not_mem (h : Trail cs) (none : ';' ∉ cs) :
    ∀ c ∈ cs, Text.isBlank c = true := by
  cases h with
  | gap isGap => exact isGap.blank_of_not_mem none
  | comment => exact absurd (List.mem_append_right _ List.mem_cons_self) none

end Trail

/-- **Whether a token begins** after a gap. -/
def Opens (cs : List Char) : Prop :=
  ∃ gap c rest, cs = gap ++ c :: rest ∧ Gap gap ∧ Text.isBlank c = false ∧ c ≠ ';'

theorem Opens.after_gap {cs gap : List Char} (h : Opens cs) (isGap : Gap gap) :
    Opens (gap ++ cs) := by
  obtain ⟨next, c, rest, rfl, isNext, visible, noNote⟩ := h
  exact ⟨gap ++ next, c, rest, (List.append_assoc ..).symm, isGap.append isNext, visible, noNote⟩

/-- **A text is a trail, or a token begins in it.** -/
theorem trail_or_opens : (cs : List Char) → Trail cs ∨ Opens cs
  | [] => .inl (.gap .nil)
  | c :: cs => by
    by_cases isBlank : Text.isBlank c = true
    · have first : Gap [c] := .blank isBlank .nil
      exact (trail_or_opens cs).imp (·.after_gap first) (·.after_gap first)
    by_cases note : c = ';'
    · subst note
      by_cases feed : '\n' ∈ cs
      · obtain ⟨note, rest, rfl, inside⟩ := List.eq_append_cons_of_mem feed
        have first : Gap (';' :: (note ++ ['\n'])) := .comment inside .nil
        have later := (trail_or_opens rest).imp (·.after_gap first) (·.after_gap first)
        simpa using later
      · exact .inl (.comment .nil feed)
    · exact .inr ⟨[], c, cs, rfl, .nil, Bool.eq_false_iff.2 isBlank, note⟩
termination_by cs => cs.length

/-! ## A text of one word -/

namespace Scan

/-- **A visible character that begins no comment is the first of a token**, and of a bare
word only when it may stand in one. -/
theorem exists_cons_of_visible {c : Char} (visible : Text.isBlank c = false) (noNote : c ≠ ';')
    {cs : List Char} {ts : List Token} (done : between.tokens (c :: cs) = .ok ts) :
    ∃ t more, ts = t :: more ∧ ∀ word, t = .bare word → endsBare c = false := by
  rw [tokens_cons, step] at done
  cases rest : (enter c).1.tokens cs with
  | error what => rw [rest] at done; cases done
  | ok others =>
    rw [rest] at done
    cases done
    by_cases opening : c = '('
    · subst opening
      exact ⟨_, _, rfl, by rintro _ ⟨⟩⟩
    by_cases closing : c = ')'
    · subst closing
      exact ⟨_, _, rfl, by rintro _ ⟨⟩⟩
    by_cases bar : c = '|'
    · subst bar
      have rest : (barred []).tokens cs = .ok others := rest
      obtain ⟨t, more, rfl, begun⟩ := exists_cons_of_isInside rest trivial
      exact ⟨t, more, rfl, by rintro _ rfl; exact begun.elim⟩
    by_cases mark : c = '"'
    · subst mark
      have rest : (literal []).tokens cs = .ok others := rest
      obtain ⟨t, more, rfl, begun⟩ := exists_cons_of_isInside rest trivial
      exact ⟨t, more, rfl, by rintro _ rfl; exact begun.elim⟩
    · have letter : endsBare c = false := by simp [endsBare, *]
      rw [Token.enter_of_not_endsBare letter] at rest ⊢
      have rest : (bare [c]).tokens cs = .ok others := rest
      obtain ⟨t, more, rfl, -⟩ := exists_cons_of_isInside rest trivial
      exact ⟨t, more, rfl, fun _ _ => letter⟩

/-- A word goes on up to the first character that ends it. -/
theorem exists_letters (cs : List Char) : ∃ letters rest, cs = letters ++ rest ∧
    (∀ c ∈ letters, endsBare c = false) ∧ ∀ c ∈ rest.head?, endsBare c = true := by
  refine ⟨cs.takeWhile fun c => !endsBare c, cs.dropWhile fun c => !endsBare c,
    List.takeWhile_append_dropWhile.symm, fun c hc => ?_, fun c hc => ?_⟩
  · simpa using List.all_eq_true.1 List.all_takeWhile c hc
  · have outside := List.head?_dropWhile_not (fun c => !endsBare c) cs
    rw [show (cs.dropWhile _).head? = some c from hc] at outside
    simpa using outside

end Scan

/-- A text without a token is a trail. -/
theorem Trail.of_tokens_nil {cs : List Char} (none : Scan.between.tokens cs = .ok []) :
    Trail cs := by
  rcases trail_or_opens cs with trail | ⟨gap, c, rest, rfl, isGap, visible, noNote⟩
  · exact trail
  · rw [isGap.tokens] at none
    obtain ⟨_, _, same, -⟩ := Scan.exists_cons_of_visible visible noNote none
    cases same

/-- **A text whose one token is a bare word** is the word between a gap and a trail. -/
theorem Token.exists_of_scan_bare {text word : String}
    (scanned : Token.scan text = .ok [.bare word]) :
    ∃ before after : List Char, text.toList = before ++ (word.toList ++ after) ∧
      Gap before ∧ Trail after ∧ (bare word).Writable := by
  have scanned : Scan.between.tokens text.toList = .ok [.bare word] := scanned
  rcases trail_or_opens text.toList with trail | ⟨gap, c, cs, shape, isGap, visible, noNote⟩
  · rw [trail.tokens_eq_nil] at scanned
    cases scanned
  rw [shape, isGap.tokens] at scanned
  obtain ⟨_, _, same, first⟩ := Scan.exists_cons_of_visible visible noNote scanned
  cases same
  have letter := first word rfl
  obtain ⟨letters, rest, split, inside, ended⟩ := Scan.exists_letters cs
  rw [Scan.tokens_cons, Scan.step, enter_of_not_endsBare letter, Scan.map_nil_append, split,
    Scan.tokens_bare inside ended] at scanned
  cases others : Scan.between.tokens rest with
  | error what => rw [others] at scanned; cases scanned
  | ok ts =>
    rw [others] at scanned
    obtain ⟨same, rfl⟩ := List.cons.inj (Except.ok.inj scanned)
    have whole : word.toList = c :: letters := by
      rw [← Token.bare.inj same]
      simp [Scan.textOf]
    refine ⟨gap, rest, by rw [whole, shape, split]; rfl, isGap, .of_tokens_nil others, ?_, ?_⟩
    · rintro rfl
      cases whole
    · rw [whole]
      exact List.forall_mem_cons.2 ⟨letter, inside⟩

namespace Text

/-- What is visible is not cut off. -/
theorem mem_trim {text : String} {c : Char} (here : c ∈ text.toList) (visible : isBlank c = false) :
    c ∈ (trim text).toList := by
  obtain ⟨before, after, shape, blankBefore, blankAfter⟩ := exists_of_trim text
  rw [shape, List.mem_append, List.mem_append] at here
  have notBlank : ¬ isBlank c = true := by rw [visible]; exact Bool.false_ne_true
  exact (here.resolve_left fun there => notBlank (blankBefore c there)).resolve_right
    fun there => notBlank (blankAfter c there)

/-- **A visible word between blanks** is what is left when they are cut off. -/
theorem trim_of_blanks {text word : String} {before after : List Char}
    (shape : text.toList = before ++ (word.toList ++ after))
    (blankBefore : ∀ c ∈ before, isBlank c = true) (blankAfter : ∀ c ∈ after, isBlank c = true)
    (visible : ∀ c ∈ word.toList, isBlank c = false) (some : word ≠ "") : trim text = word := by
  have stays {cs : List Char} (visible : ∀ c ∈ cs, isBlank c = false) (more : List Char)
      (some : cs ≠ []) : (cs ++ more).dropWhile isBlank = cs ++ more := by
    obtain ⟨c, cs, rfl⟩ := List.exists_cons_of_ne_nil some
    rw [List.cons_append, List.dropWhile_cons, visible c List.mem_cons_self]
    rfl
  have letters : word.toList ≠ [] := fun none => some (String.toList_eq_nil_iff.1 none)
  rw [← String.toList_inj, toList_trim, trimChars, shape, List.dropWhile_append_of_pos blankBefore,
    stays visible after letters, List.reverse_append,
    List.dropWhile_append_of_pos fun c hc => blankAfter c (List.mem_reverse.1 hc)]
  have back := stays (fun c hc => visible c (List.mem_reverse.1 hc)) []
    (mt List.reverse_eq_nil_iff.1 letters)
  rw [List.append_nil] at back
  rw [back, List.reverse_reverse]

end Text

namespace Answer

variable {solver text word : String}

/-- **The status of an answer** is the one whose word the answer is, blanks at its ends
aside. -/
theorem status_eq_ok_iff {status : Status} :
    Answer.status solver text = .ok status ↔ Text.trim text = status.word :=
  ⟨fun read => (word_of_status read).symm, fun trimmed => status_of_trim trimmed solver⟩

/-- An answer of one bare word is this word and blanks exactly when no comment is in it. -/
theorem trim_eq_iff (scanned : Token.scan text = .ok [.bare word]) :
    Text.trim text = word ↔ ';' ∉ text.toList := by
  obtain ⟨before, after, shape, isGap, trail, some, inside⟩ := Token.exists_of_scan_bare scanned
  have noNote : ';' ∉ word.toList := fun here => absurd (inside _ here) (by decide)
  constructor
  · rintro rfl here
    exact noNote (Text.mem_trim here rfl)
  · intro none
    rw [shape, List.mem_append, List.mem_append, not_or, not_or] at none
    refine Text.trim_of_blanks shape (isGap.blank_of_not_mem none.1)
      (trail.blank_of_not_mem none.2.2) (fun c hc => ?_) some
    have := inside c hc
    simp only [Scan.endsBare, Bool.or_eq_false_iff] at this
    exact this.1.1.1.1.1

/-- The words of no status, among the answers of one word, are faults of
interpretation. -/
theorem status_of_ne_word (scanned : Token.scan text = .ok [.bare word])
    (none : ∀ status : Status, Text.trim text ≠ status.word) :
    Answer.status solver text = .error (.unexpectedStatus text) := by
  have read : Item.parse text = .ok [.symbol word] := (Item.parse_of_scan scanned).trans rfl
  unfold Answer.status items
  rw [read, Outcome.bind_ok]
  show Status.ofResponse text = _
  unfold Status.ofResponse
  rw [List.find?_eq_none.2 fun status _ => by simpa using (none status).symm]

/-- An answer that is one list and starts with `error` is a fault that is reported. -/
theorem status_of_error {head : Item} {rest : List Item} (reports : head.hasText "error" = true)
    (read : Item.parse text = .ok [.list (head :: rest)]) :
    Answer.status solver text = .error (.reported solver (rest.headD (.symbol "")) text) := by
  have message : (Item.list (head :: rest)).errorMessage? = some (rest.headD (.symbol "")) := by
    rw [Item.errorMessage?, if_pos reports]
  unfold Answer.status items
  rw [read, Outcome.bind_ok]
  simp only [message]
  rfl

/-- **How the answer to a check is read.** Let the one token of an answer be a bare word.
Without a comment the answer is read as the status of the word, and refused when the word
is that of no status. With a comment in front of the word or after it the answer is
refused, whatever the word is. An answer that is one list and starts with `error` is
refused in any layout. All of these are faults of interpretation that keep the answer. -/
theorem status_by_word (solver text : String) :
    (∀ word, Token.scan text = .ok [.bare word] →
      (';' ∉ text.toList →
        (∀ status : Status, status.word = word → Answer.status solver text = .ok status) ∧
        ((∀ status : Status, status.word ≠ word) → ∃ fault, Answer.status solver text = .error fault ∧
          fault.kind = .protocolError ∧ fault.response? = some text)) ∧
      (';' ∈ text.toList → ∃ fault, Answer.status solver text = .error fault ∧
        fault.kind = .protocolError ∧ fault.response? = some text)) ∧
    ∀ head rest, Item.hasText head "error" = true → Item.parse text = .ok [.list (head :: rest)] →
      ∃ fault, Answer.status solver text = .error fault ∧
        fault.kind = .protocolError ∧ fault.response? = some text := by
  refine ⟨fun word scanned => ⟨fun none => ⟨fun status named => ?_, fun unnamed => ?_⟩,
    fun note => ?_⟩, fun head rest reports read => ⟨_, status_of_error reports read, rfl, rfl⟩⟩
  · exact status_eq_ok_iff.2 (((trim_eq_iff scanned).2 none).trans named.symm)
  · refine ⟨_, status_of_ne_word scanned fun status trimmed => unnamed status ?_, rfl, rfl⟩
    exact trimmed.symm.trans ((trim_eq_iff scanned).2 none)
  · refine ⟨_, status_of_ne_word scanned fun status trimmed => ?_, rfl, rfl⟩
    have kept : ';' ∈ status.word.toList := trimmed ▸ Text.mem_trim note rfl
    revert kept
    cases status <;> decide

/-- A word over two lines of blanks, a word of no status, a comment after the word and one
in front of it, and an error with a comment in it. -/
theorem status_by_word_laidOut :
    Answer.status "z3" "\t\n unsat \n" = .ok .unsat ∧
    (∃ fault, Answer.status "z3" "unsatt\n" = .error fault ∧
      fault.kind = .protocolError ∧ fault.response? = some "unsatt\n") ∧
    (∃ fault, Answer.status "z3" "sat ; at last" = .error fault ∧
      fault.kind = .protocolError ∧ fault.response? = some "sat ; at last") ∧
    (∃ fault, Answer.status "z3" "(; no\nerror \"late\")\n" = .error fault ∧
      fault.kind = .protocolError ∧ fault.response? = some "(; no\nerror \"late\")\n") := by
  have blanks : Token.scan "\t\n unsat \n" = .ok [.bare "unsat"] := by cbv
  have unknown : Token.scan "unsatt\n" = .ok [.bare "unsatt"] := by cbv
  have noted : Token.scan "sat ; at last" = .ok [.bare "sat"] := by cbv
  have error : Item.parse "(; no\nerror \"late\")\n" =
      .ok [.list [.symbol "error", .literal "late"]] := by cbv
  refine ⟨?_, ?_, ?_, ?_⟩
  · exact (((status_by_word "z3" _).1 _ blanks).1 (by decide)).1 .unsat rfl
  · exact (((status_by_word "z3" _).1 _ unknown).1 (by decide)).2 (by rintro ⟨⟩ <;> decide)
  · exact ((status_by_word "z3" _).1 _ noted).2 (by decide)
  · exact (status_by_word "z3" _).2 _ _ rfl error

/-- The items of this answer are the one symbol `unsat`, and it is refused. -/
theorem status_of_banner :
    Token.scan "; banner\nunsat\n" = .ok [.bare "unsat"] ∧
      Item.parse "; banner\nunsat\n" = .ok [.symbol "unsat"] ∧
      ¬ ∃ status, Answer.status "z3" "; banner\nunsat\n" = .ok status := by
  refine ⟨by cbv, by cbv, ?_⟩
  rintro ⟨status, read⟩
  have trimmed := status_eq_ok_iff.1 read
  revert trimmed
  cases status <;> decide

end Answer

end SmtDialogue
