import SmtDialogue.Proofs.Forms

/-!
# Layout

The same items can be written in many ways: over one line or over many, with
tabs, with comments after any of them. None of this is in the items, and reading
finds the items whatever the layout is (`Item.parse_of_laid`).

A layout puts a *gap* before each token, blanks and whole comments in any order.
A gap may be empty, except between two atoms: `ab` is one bare atom and `a b` are
two, and `"a""b"` is one literal with a quote in it. A parenthesis needs no gap on
either side. What stands between the bars of a quoted symbol or the quotes of a
literal is no layout, and so it may hold anything that a gap may hold.
-/

namespace SmtDialogue

/-- **A gap between tokens**: blanks, and comments with the line feed that ends
them. -/
inductive Gap : List Char → Prop
  /-- Nothing. -/
  | nil : Gap []
  /-- A blank, and more. -/
  | blank {c : Char} {cs : List Char} (isBlank : Text.isBlank c = true) (more : Gap cs) :
      Gap (c :: cs)
  /-- A comment, and more. -/
  | comment {note cs : List Char} (inside : '\n' ∉ note) (more : Gap cs) :
      Gap (';' :: (note ++ '\n' :: cs))

/-- **Tokens laid out as text**, each after a gap of its own. The gap holds
something when the token is an atom and stands `after` another one. -/
inductive Laid : (after : Prop) → List Token → List Char → Prop
  /-- No token is left. -/
  | nil {after : Prop} : Laid after [] []
  /-- A gap, a token, and what follows. -/
  | cons {after : Prop} {t : Token} {ts : List Token} {gap cs : List Char} (isGap : Gap gap)
      (apart : after → t.IsAtom → gap ≠ []) (others : Laid t.IsAtom ts cs) :
      Laid after (t :: ts) (gap ++ (t.source.toList ++ cs))

/-! ## Gaps -/

namespace Scan

/-- A comment is passed over with its line feed. -/
theorem tokens_comment {note : List Char} (inside : '\n' ∉ note) (cs : List Char) :
    comment.tokens (note ++ '\n' :: cs) = between.tokens cs := by
  induction note with
  | nil =>
    rw [List.nil_append, tokens_cons]
    exact map_nil_append _
  | cons c note ih =>
    rw [List.mem_cons, not_or] at inside
    have inner : (c == '\n') = false := beq_false_of_ne (Ne.symm inside.1)
    rw [List.cons_append, tokens_cons, step, inner, if_neg Bool.false_ne_true, map_nil_append,
      ih inside.2]

end Scan

namespace Gap

variable {gap : List Char}

/-- **A gap is passed over.** -/
theorem tokens (h : Gap gap) (cs : List Char) :
    Scan.between.tokens (gap ++ cs) = Scan.between.tokens cs := by
  induction h with
  | nil => rfl
  | blank isBlank _ ih => rw [List.cons_append, Scan.tokens_blank isBlank, ih]
  | @comment note more inside _ ih =>
    rw [List.cons_append, Scan.tokens_cons,
      show Scan.between.step ';' = (.comment, []) from rfl, Scan.map_nil_append,
      List.append_assoc, List.cons_append, Scan.tokens_comment inside, ih]

/-- Nothing comes of a gap alone. -/
theorem tokens_eq_nil (h : Gap gap) : Scan.between.tokens gap = .ok [] := by
  rw [← List.append_nil gap, h.tokens]
  rfl

/-- What a gap starts with can be no part of the atom before it. -/
theorem apart (h : Gap gap) : ∀ c ∈ gap.head?, Scan.endsBare c = true ∧ c ≠ '"' := by
  cases h with
  | nil => exact nofun
  | @blank c cs isBlank _ =>
    rintro c ⟨⟩
    exact ⟨by simp [Scan.endsBare, isBlank], by rintro rfl; revert isBlank; decide⟩
  | comment _ _ =>
    rintro c ⟨⟩
    exact ⟨by decide, by decide⟩

/-- Blanks are a gap. -/
theorem of_blanks (blanks : ∀ c ∈ gap, Text.isBlank c = true) : Gap gap := by
  induction gap with
  | nil => exact .nil
  | cons c cs ih =>
    rw [List.forall_mem_cons] at blanks
    exact .blank blanks.1 (ih blanks.2)

/-- Two gaps make one. -/
theorem append {gap' : List Char} (h : Gap gap) (h' : Gap gap') : Gap (gap ++ gap') := by
  induction h with
  | nil => exact h'
  | blank isBlank _ ih => exact .blank isBlank ih
  | @comment note more inside _ ih =>
    rw [List.cons_append, List.append_assoc, List.cons_append]
    exact .comment inside ih

end Gap

/-! ## Tokens -/

namespace Token

/-- Only an atom has to be kept apart from what follows it. -/
theorem tokens_source_of_isAtom {t : Token} (writable : t.Writable) {rest : List Char}
    (apart : t.IsAtom → ∀ c ∈ rest.head?, Scan.endsBare c = true ∧ c ≠ '"') :
    Scan.between.tokens (t.source.toList ++ rest) =
      (Scan.between.tokens rest).map (t :: ·) := by
  cases t with
  | opening => exact Scan.tokens_cons .between '(' rest
  | closing => exact Scan.tokens_cons .between ')' rest
  | bare | barred | literal => exact tokens_source writable (apart ⟨nofun, nofun⟩)

end Token

namespace Laid

variable {after : Prop} {ts : List Token} {cs rest : List Char}

/-- The first gap of a layout may be any longer. -/
theorem after_gap {t : Token} {gap : List Char} (laid : Laid after (t :: ts) cs)
    (isGap : Gap gap) : Laid after (t :: ts) (gap ++ cs) := by
  cases laid with
  | @cons _ _ _ first cs isFirst apart others =>
    rw [← List.append_assoc]
    refine .cons (isGap.append isFirst) (fun atom isAtom none => ?_) others
    exact apart atom isAtom (List.append_eq_nil_iff.1 none).2

/-- What follows an atom in a layout can be no part of it. -/
theorem apart (laid : Laid after ts cs) (atom : after)
    (rest_apart : ∀ c ∈ rest.head?, Scan.endsBare c = true ∧ c ≠ '"') :
    ∀ c ∈ (cs ++ rest).head?, Scan.endsBare c = true ∧ c ≠ '"' := by
  cases laid with
  | nil => exact rest_apart
  | @cons _ t ts gap cs isGap apart others =>
    cases gap with
    | cons c gap => exact isGap.apart
    | nil =>
      -- without a gap the next token is a parenthesis
      cases t with
      | opening => rintro c ⟨⟩; exact ⟨by decide, by decide⟩
      | closing => rintro c ⟨⟩; exact ⟨by decide, by decide⟩
      | bare | barred | literal => exact absurd rfl (apart atom ⟨nofun, nofun⟩)

/-- **Laid out tokens read back**, when nothing follows that could be a part of the
last one. -/
theorem tokens (laid : Laid after ts cs) (writable : ∀ t ∈ ts, t.Writable)
    (rest_apart : ∀ c ∈ rest.head?, Scan.endsBare c = true ∧ c ≠ '"') :
    Scan.between.tokens (cs ++ rest) = (Scan.between.tokens rest).map (ts ++ ·) := by
  induction laid with
  | nil => exact (Scan.map_nil_append _).symm
  | @cons after t ts gap cs isGap apart others ih =>
    rw [List.append_assoc, List.append_assoc, isGap.tokens,
      Token.tokens_source_of_isAtom (writable t List.mem_cons_self)
        fun atom => others.apart atom rest_apart,
      ih fun u hu => writable u (List.mem_cons_of_mem _ hu)]
    cases Scan.between.tokens rest <;> rfl

/-- **The tokens of a layout**, with a gap after the last one. -/
theorem scan (laid : Laid after ts cs) (writable : ∀ t ∈ ts, t.Writable) {tail : List Char}
    (gap : Gap tail) : Token.scan (String.ofList (cs ++ tail)) = .ok ts := by
  show Scan.between.tokens (String.ofList (cs ++ tail)).toList = _
  rw [String.toList_ofList, laid.tokens writable gap.apart, gap.tokens_eq_nil]
  simp [Except.map]

end Laid

/-! ## Forms -/

/-- All tokens of a form that can be written can be written. -/
theorem Form.Writable.tokens {f : Form} (writable : f.Writable) : ∀ t ∈ f.tokens, t.Writable := by
  induction writable with
  | atom _ writable =>
    intro t ht
    rw [List.mem_singleton.1 ht]
    exact writable
  | @list fs _ ih =>
    intro t ht
    rw [Form.tokens_list, List.mem_cons, List.mem_append, List.mem_flatMap,
      List.mem_singleton] at ht
    obtain rfl | ⟨f, here, ht⟩ | rfl := ht
    · trivial
    · exact ih f here t ht
    · trivial

namespace Laid

variable {after : Prop} {ts : List Token} {cs : List Char}

/-- Tokens that may stand after an atom may stand after anything. -/
theorem of_after_atom (laid : Laid True ts cs) : Laid after ts cs := by
  cases laid with
  | nil => exact .nil
  | cons isGap apart others => exact .cons isGap (fun _ => apart trivial) others

/-- Whether a text is a layout of some tokens wherever it stands, as long as a gap
keeps it apart from an atom before it and from an atom after it. -/
def Anywhere (tokens : List Token) (text : List Char) : Prop :=
  ∀ {after : Prop} {gap : List Char} {ts : List Token} {cs : List Char}, Gap gap →
    (after → gap ≠ []) → Laid True ts cs → Laid after (tokens ++ ts) (gap ++ (text ++ cs))

/-- Texts with spaces between them. -/
theorem Anywhere.intercalate {α : Type} {tokens : α → List Token} {text : α → String} {x : α}
    {xs : List α} (each : ∀ y ∈ x :: xs, Anywhere (tokens y) (text y).toList) :
    Anywhere ((x :: xs).flatMap tokens) (" ".intercalate ((x :: xs).map text)).toList := by
  induction xs generalizing x with
  | nil =>
    intro after gap ts cs isGap apart others
    simpa using each x List.mem_cons_self isGap apart others
  | cons y xs ih =>
    intro after gap ts cs isGap apart others
    have space : Gap [' '] := .blank (by decide) .nil
    have rest : Laid True ((y :: xs).flatMap tokens ++ ts)
        ([' '] ++ ((" ".intercalate ((y :: xs).map text)).toList ++ cs)) :=
      ih (fun z here => each z (List.mem_cons_of_mem _ here)) space
        (fun _ => List.cons_ne_nil _ _) others
    have first := each x List.mem_cons_self isGap apart rest
    rw [List.flatMap_cons, List.append_assoc, List.map_cons, List.map_cons,
      String.intercalate_cons_cons, String.toList_append, String.toList_append]
    simpa using first

/-- **The text of a form is a layout of it.** -/
theorem anywhere_text (f : Form) : Anywhere f.tokens f.text.toList := by
  induction f using Form.induct with
  | atom token =>
    intro after gap ts cs isGap apart others
    exact .cons isGap (fun h _ => apart h) others.of_after_atom
  | list forms ih =>
    intro after gap ts cs isGap apart others
    have closing : Laid True (.closing :: ts) (')' :: cs) :=
      .cons .nil (fun _ atom => absurd rfl atom.2) others.of_after_atom
    have inner : Laid Token.opening.IsAtom (forms.flatMap Form.tokens ++ .closing :: ts)
        ((" ".intercalate (forms.map Form.text)).toList ++ ')' :: cs) := by
      cases forms with
      | nil => exact closing.of_after_atom
      | cons f forms => exact Anywhere.intercalate ih .nil (fun atom => absurd rfl atom.1) closing
    have laid : Laid after (.opening :: (forms.flatMap Form.tokens ++ .closing :: ts)) _ :=
      .cons isGap (fun _ atom => absurd rfl atom.1) inner
    rw [Form.tokens_list, Form.text_list]
    simpa [Token.source] using laid

end Laid

/-- **Reading undoes writing, whatever the layout.** Forms with any gaps between
their tokens, and after the last one, are read as their items. -/
theorem Item.parse_of_laid {forms : List Form} (writable : ∀ f ∈ forms, f.Writable)
    {body tail : List Char} (laid : Laid False (forms.flatMap Form.tokens) body)
    (gap : Gap tail) :
    Item.parse (String.ofList (body ++ tail)) = .ok (forms.map Form.item) := by
  have parts : ∀ t ∈ forms.flatMap Form.tokens, t.Writable := by
    intro t ht
    obtain ⟨f, here, ht⟩ := List.mem_flatMap.1 ht
    exact (writable f here).tokens t ht
  exact parse_of_tokens writable (laid.scan parts gap)

/-- Two comments, one of them inside a list, a quoted symbol over two lines, a
parenthesis between bars, no gap where a parenthesis stands, and a literal that
ends with a quote. -/
theorem Item.parse_of_laid_over_lines :
    let forms : List Form :=
      [.list [.atom (.bare "a"), .atom (.barred "b;\n"), .list [.atom (.literal "x\"y"), .list []],
        .atom (.barred ")")], .atom (.literal "z\""), .atom (.bare "-3")]
    let body := "; a |note| \"\n(a |b;\n|(\"x\"\"y\"()); )\n|)|)\"z\"\"\"\t-3".toList
    let tail := " ;\n".toList
    (∀ f ∈ forms, f.Writable) ∧ Laid False (forms.flatMap Form.tokens) body ∧ Gap tail ∧
      Item.parse (String.ofList (body ++ tail)) = .ok (forms.map Form.item) := by
  intro forms body tail
  have atom (t : Token) (h : t.IsAtom ∧ t.Writable) : (Form.atom t).Writable := .atom h.1 h.2
  have writable : ∀ f ∈ forms, f.Writable := by
    have inner : (Form.list [.atom (.literal "x\"y"), .list []]).Writable :=
      .list (by simpa using ⟨atom _ (by decide), .list nofun⟩)
    have whole : (Form.list [.atom (.bare "a"), .atom (.barred "b;\n"),
        .list [.atom (.literal "x\"y"), .list []], .atom (.barred ")")]).Writable :=
      .list (by
        simpa using ⟨atom _ (by decide), atom _ (by decide), inner,
          atom _ (by decide)⟩)
    simpa [forms] using
      ⟨whole, atom _ (by decide), atom _ (by decide)⟩
  have note : Gap "; a |note| \"\n".toList :=
    @Gap.comment " a |note| \"".toList [] (by decide) .nil
  have closed : Gap "; )\n".toList := @Gap.comment " )".toList [] (by decide) .nil
  have space : Gap " ".toList := .blank (by decide) .nil
  have tab : Gap "\t".toList := .blank (by decide) .nil
  have ended : Gap tail := .blank (by decide) (@Gap.comment [] [] (by decide) .nil)
  have laid : ∃ cs, Laid False (forms.flatMap Form.tokens) cs ∧ cs = body :=
    ⟨_, .cons note nofun <| .cons .nil (by decide) <| .cons space (by decide) <|
      .cons .nil (by decide) <| .cons .nil (by decide) <| .cons .nil (by decide) <|
      .cons .nil (by decide) <| .cons .nil (by decide) <| .cons closed (by decide) <|
      .cons .nil (by decide) <| .cons .nil (by decide) <| .cons tab (by decide) .nil, by decide⟩
  obtain ⟨_, laid, rfl⟩ := laid
  exact ⟨writable, laid, ended, parse_of_laid writable laid ended⟩

end SmtDialogue
