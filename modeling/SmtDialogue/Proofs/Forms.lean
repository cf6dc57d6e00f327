import SmtDialogue.Sexp.Reader

/-!
# Forms

The items of an S-expression text do not tell a quoted symbol from a bare one,
but what a solver reads does: `|true|` is a variable and `true` is none. A
`Form` is a token or a list of forms, and loses nothing of the text but its
layout.

A form is written with single spaces between the members of a list, and reads
back as itself (`ofText_text`): each token is written so that what follows it
cannot be taken for a part of it, and lists are nested as their parentheses
are. Where the members of a list stand the two readers, of forms and of items,
do the same, and so the items of a text are those of its forms
(`Item.parse_text`).
-/

namespace SmtDialogue

namespace Scan

/-- All tokens from a state of the scanner to the end of the text, or what is
left unfinished there. -/
def tokens (scan : Scan) (cs : List Char) : Except Unfinished (List Token) :=
  (scan.run cs).1.finish.map ((scan.run cs).2 ++ ·)

theorem tokens_nil (scan : Scan) : scan.tokens [] = scan.finish := by
  show scan.finish.map ([] ++ ·) = scan.finish
  cases scan.finish <;> rfl

theorem tokens_cons (scan : Scan) (c : Char) (cs : List Char) :
    scan.tokens (c :: cs) = ((scan.step c).1.tokens cs).map ((scan.step c).2 ++ ·) := by
  unfold tokens
  rw [run]
  show ((scan.step c).1.run cs).1.finish.map _ = _
  cases ((scan.step c).1.run cs).1.finish with
  | error e => rfl
  | ok last => simp [Except.map, List.append_assoc]

theorem map_nil_append (x : Except Unfinished (List Token)) : x.map ([] ++ ·) = x := by
  cases x <;> rfl

/-- A blank between tokens is passed over. -/
theorem tokens_blank {c : Char} (h : Text.isBlank c = true) (cs : List Char) :
    between.tokens (c :: cs) = between.tokens cs := by
  rw [tokens_cons, step, enter, if_pos h, map_nil_append]

theorem step_bare_of_endsBare {c : Char} (h : endsBare c = true) (read : List Char) :
    (bare read).step c = ((enter c).1, .bare (textOf read) :: (enter c).2) := by
  simp [step, h]

theorem step_quote_of_ne {c : Char} (h : c ≠ '"') (read : List Char) :
    (quote read).step c = ((enter c).1, .literal (textOf read) :: (enter c).2) := by
  simp [step, h]

/-- The characters of a bare atom are read up to the first one that ends it. -/
theorem tokens_bare {cs : List Char} (inside : ∀ c ∈ cs, endsBare c = false) {rest : List Char}
    (apart : ∀ c ∈ rest.head?, endsBare c = true) (read : List Char) :
    (bare read).tokens (cs ++ rest) =
      (between.tokens rest).map (.bare (textOf (cs.reverse ++ read)) :: ·) := by
  induction cs generalizing read with
  | nil =>
    cases rest with
    | nil => rfl
    | cons c rest =>
      rw [List.nil_append, tokens_cons, tokens_cons, step_bare_of_endsBare (apart c rfl)]
      show _ = (((enter c).1.tokens rest).map _).map _
      cases (enter c).1.tokens rest <;> rfl
  | cons c cs ih =>
    rw [List.cons_append, tokens_cons, step, inside c List.mem_cons_self]
    simp only [Bool.false_eq_true, if_false]
    rw [map_nil_append, ih fun d hd => inside d (List.mem_cons_of_mem _ hd), List.reverse_cons,
      List.append_assoc]
    rfl

/-- The characters of a quoted symbol are read up to its second bar. -/
theorem tokens_barred {cs : List Char} (inside : '|' ∉ cs) (rest read : List Char) :
    (barred read).tokens (cs ++ '|' :: rest) =
      (between.tokens rest).map (.barred (textOf (cs.reverse ++ read)) :: ·) := by
  induction cs generalizing read with
  | nil =>
    rw [List.nil_append, tokens_cons, step, if_pos (beq_self_eq_true _)]
    rfl
  | cons c cs ih =>
    rw [List.mem_cons, not_or] at inside
    have inner : (c == '|') = false := beq_false_of_ne (Ne.symm inside.1)
    rw [List.cons_append, tokens_cons, step, inner, if_neg Bool.false_ne_true,
      map_nil_append, ih inside.2, List.reverse_cons, List.append_assoc]
    rfl

/-- The characters of a literal are read up to a quote that no other follows. -/
theorem tokens_literal (cs : List Char) {rest : List Char} (apart : ∀ c ∈ rest.head?, c ≠ '"')
    (read : List Char) :
    (literal read).tokens (Token.doubleQuotes cs ++ '"' :: rest) =
      (between.tokens rest).map (.literal (textOf (cs.reverse ++ read)) :: ·) := by
  induction cs generalizing read with
  | nil =>
    rw [Token.doubleQuotes, List.nil_append, tokens_cons, step, if_pos (beq_self_eq_true _),
      map_nil_append]
    cases rest with
    | nil => rfl
    | cons c rest =>
      -- the closing quote is known as such only by the character after it
      show (quote read).tokens (c :: rest) = _
      rw [tokens_cons, tokens_cons, step_quote_of_ne (apart c rfl)]
      show _ = (((enter c).1.tokens rest).map _).map _
      cases (enter c).1.tokens rest <;> rfl
  | cons c cs ih =>
    rw [Token.doubleQuotes]
    by_cases h : c = '"'
    · subst h
      rw [if_pos (beq_self_eq_true _), List.cons_append, List.cons_append, tokens_cons, step,
        if_pos (beq_self_eq_true _), map_nil_append, tokens_cons, step,
        if_pos (beq_self_eq_true _), map_nil_append, ih, List.reverse_cons, List.append_assoc]
      rfl
    · rw [if_neg (by simpa using h), List.cons_append, tokens_cons, step,
        if_neg (by simpa using h), map_nil_append, ih, List.reverse_cons, List.append_assoc]
      rfl

end Scan

namespace Token

/-- Whether a token can be written so that it reads back. -/
def Writable : Token → Prop
  | bare text => text ≠ "" ∧ ∀ c ∈ text.toList, Scan.endsBare c = false
  | barred text => '|' ∉ text.toList
  | opening | closing | literal _ => True

/-- Whether a token is no parenthesis. -/
def IsAtom (t : Token) : Prop := t ≠ .opening ∧ t ≠ .closing

instance : DecidablePred Writable
  | bare text =>
    @instDecidableAnd (text ≠ "") _ inferInstance
      (List.decidableBAll (fun c => Scan.endsBare c = false) text.toList)
  | barred text => inferInstanceAs (Decidable ('|' ∉ text.toList))
  | opening | closing | literal _ => inferInstanceAs (Decidable True)

instance : DecidablePred IsAtom := fun _ => inferInstanceAs (Decidable (_ ∧ _))

theorem textOf_reverse (s : String) : Scan.textOf s.toList.reverse = s := by
  simp [Scan.textOf]

/-- A character that ends a bare atom starts no bare atom. -/
theorem enter_of_not_endsBare {c : Char} (h : Scan.endsBare c = false) :
    Scan.enter c = (.bare [c], []) := by
  simp only [Scan.endsBare, Bool.or_eq_false_iff] at h
  obtain ⟨⟨⟨⟨⟨h₁, h₂⟩, h₃⟩, h₄⟩, h₅⟩, h₆⟩ := h
  simp [Scan.enter, h₁, h₂, h₃, h₄, h₅, h₆]

/-- **A token reads back** when a blank, a parenthesis or the end of the text
follows it. -/
theorem tokens_source {t : Token} (writable : t.Writable) {rest : List Char}
    (apart : ∀ c ∈ rest.head?, Scan.endsBare c = true ∧ c ≠ '"') :
    Scan.between.tokens (t.source.toList ++ rest) =
      (Scan.between.tokens rest).map (t :: ·) := by
  cases t with
  | opening =>
    show Scan.between.tokens ('(' :: rest) = _
    rw [Scan.tokens_cons]
    rfl
  | closing =>
    show Scan.between.tokens (')' :: rest) = _
    rw [Scan.tokens_cons]
    rfl
  | bare text =>
    obtain ⟨some, inside⟩ := writable
    show Scan.between.tokens (text.toList ++ rest) = _
    obtain ⟨c, cs, hc⟩ := List.exists_cons_of_ne_nil
      (show text.toList ≠ [] from fun h => some (String.toList_eq_nil_iff.1 h))
    rw [hc] at inside
    rw [hc, List.cons_append, Scan.tokens_cons, Scan.step,
      enter_of_not_endsBare (inside c List.mem_cons_self), Scan.map_nil_append,
      Scan.tokens_bare (fun d hd => inside d (List.mem_cons_of_mem _ hd))
        (fun d hd => (apart d hd).1), ← List.reverse_cons, ← hc, textOf_reverse]
  | barred text =>
    have shape : (barred text).source.toList ++ rest = '|' :: (text.toList ++ '|' :: rest) := by
      simp [source]
    rw [shape, Scan.tokens_cons]
    show ((Scan.barred []).tokens _).map ([] ++ ·) = _
    rw [Scan.map_nil_append, Scan.tokens_barred writable, List.append_nil, textOf_reverse]
  | literal text =>
    have shape : (literal text).source.toList ++ rest =
        '"' :: (doubleQuotes text.toList ++ '"' :: rest) := by
      simp [source]
    rw [shape, Scan.tokens_cons]
    show ((Scan.literal []).tokens _).map ([] ++ ·) = _
    rw [Scan.map_nil_append, Scan.tokens_literal _ fun c hc => (apart c hc).2, List.append_nil,
      textOf_reverse]

end Token

/-- A token or a list of forms. -/
inductive Form where
  /-- A token that is no parenthesis. -/
  | atom (token : Token)
  /-- A parenthesised list. -/
  | list (forms : List Form)
deriving Repr, Inhabited

namespace Form

/-- Induction over forms, with the induction hypothesis for every member of a
list. -/
theorem induct {motive : Form → Prop} (atom : ∀ token, motive (atom token))
    (list : ∀ forms, (∀ f ∈ forms, motive f) → motive (list forms)) : ∀ f, motive f :=
  @Form.rec motive (fun forms => ∀ f ∈ forms, motive f) atom list
    (fun _ h => nomatch h)
    (fun _ _ first rest f h => (List.mem_cons.1 h).elim (· ▸ first) (rest f))

mutual

/-- The tokens of a form. -/
def tokens : Form → List Token
  | atom token => [token]
  | list forms => .opening :: (tokensOfAll forms ++ [.closing])

/-- The tokens of several forms, one form after the other. -/
def tokensOfAll : List Form → List Token
  | [] => []
  | f :: fs => f.tokens ++ tokensOfAll fs

end

mutual

/-- The form as text, with single spaces between the members of a list. -/
def text : Form → String
  | atom token => token.source
  | list forms => "(" ++ " ".intercalate (textAll forms) ++ ")"

/-- The texts of several forms. -/
def textAll : List Form → List String
  | [] => []
  | f :: fs => f.text :: textAll fs

end

mutual

/-- The item of a form: a quoted symbol is the symbol of that name. -/
def item : Form → Item
  | atom (.literal text) => .literal text
  | atom (.bare text) => .symbol text
  | atom (.barred text) => .symbol text
  | atom _ => .symbol ""
  | list forms => .list (itemAll forms)

/-- The items of several forms. -/
def itemAll : List Form → List Item
  | [] => []
  | f :: fs => f.item :: itemAll fs

end

@[simp] theorem tokensOfAll_eq_flatMap (fs : List Form) :
    tokensOfAll fs = fs.flatMap tokens := by
  induction fs with
  | nil => rfl
  | cons f fs ih => rw [tokensOfAll, ih, List.flatMap_cons]

@[simp] theorem textAll_eq_map (fs : List Form) : textAll fs = fs.map text := by
  induction fs with
  | nil => rfl
  | cons f fs ih => rw [textAll, ih, List.map_cons]

@[simp] theorem itemAll_eq_map (fs : List Form) : itemAll fs = fs.map item := by
  induction fs with
  | nil => rfl
  | cons f fs ih => rw [itemAll, ih, List.map_cons]

theorem tokens_list (fs : List Form) :
    (list fs).tokens = .opening :: (fs.flatMap tokens ++ [.closing]) := by
  rw [tokens, tokensOfAll_eq_flatMap]

theorem text_list (fs : List Form) :
    (list fs).text = "(" ++ " ".intercalate (fs.map text) ++ ")" := by
  rw [text, textAll_eq_map]

@[simp] theorem item_list (fs : List Form) : (list fs).item = .list (fs.map item) := by
  rw [item, itemAll_eq_map]

/-- **Whether a form can be written** so that it reads back: all of its atoms
can. -/
inductive Writable : Form → Prop
  | atom {t : Token} (isAtom : t.IsAtom) (writable : t.Writable) : Writable (atom t)
  | list {fs : List Form} (parts : ∀ f ∈ fs, Writable f) : Writable (list fs)

/-! ## Written forms read back as their tokens -/

/-- Texts with blanks between them, each of which reads as some tokens when
nothing follows that could be a part of it. -/
theorem tokens_intercalate {α : Type} {text : α → String} {tokens : α → List Token} {sep : Char}
    (blank : Text.isBlank sep = true) {xs : List α} {rest : List Char}
    (apart : ∀ c ∈ rest.head?, Scan.endsBare c = true ∧ c ≠ '"')
    (each : ∀ x ∈ xs, ∀ rest : List Char, (∀ c ∈ rest.head?, Scan.endsBare c = true ∧ c ≠ '"') →
      Scan.between.tokens ((text x).toList ++ rest) =
        (Scan.between.tokens rest).map (tokens x ++ ·)) :
    Scan.between.tokens ([sep].intercalate (xs.map fun x => (text x).toList) ++ rest) =
      (Scan.between.tokens rest).map (xs.flatMap tokens ++ ·) := by
  have ends : Scan.endsBare sep = true ∧ sep ≠ '"' :=
    ⟨by simp [Scan.endsBare, blank], by rintro rfl; revert blank; decide⟩
  induction xs with
  | nil => exact (Scan.map_nil_append _).symm
  | cons x xs ih =>
    have first := each x List.mem_cons_self
    have others := ih fun y hy => each y (List.mem_cons_of_mem _ hy)
    cases xs with
    | nil =>
      rw [List.map_singleton, List.intercalate_singleton, first _ apart]
      simp
    | cons y ys =>
      rw [List.map_cons, List.intercalate_cons_of_ne_nil (by simp), List.append_assoc,
        List.append_assoc, first _ (by simpa using ends), List.singleton_append,
        Scan.tokens_blank blank, others]
      cases Scan.between.tokens rest with
      | error e => rfl
      | ok ts => simp [Except.map]

/-- **A written form reads back as its tokens**, when nothing follows that could
be a part of it. -/
theorem tokens_text {f : Form} (writable : f.Writable) {rest : List Char}
    (apart : ∀ c ∈ rest.head?, Scan.endsBare c = true ∧ c ≠ '"') :
    Scan.between.tokens (f.text.toList ++ rest) =
      (Scan.between.tokens rest).map (f.tokens ++ ·) := by
  induction writable generalizing rest with
  | atom _ writable =>
    rw [text, tokens, Token.tokens_source writable apart]
    rfl
  | @list fs _ ih =>
    have shape : (list fs).text.toList ++ rest =
        '(' :: ([' '].intercalate (fs.map (·.text.toList)) ++ ')' :: rest) := by
      rw [text_list]
      simp [List.map_map, Function.comp_def]
    rw [shape, Scan.tokens_cons, show Scan.between.step '(' = (.between, [.opening]) from rfl,
      tokens_intercalate (by decide) (by simp [Scan.endsBare]) fun f hf rest apart => ih f hf apart,
      Scan.tokens_cons,
      show Scan.between.step ')' = (.between, [.closing]) from rfl, tokens_list]
    cases Scan.between.tokens rest with
    | error e => rfl
    | ok ts => simp [Except.map]

/-- **The tokens of a written form.** -/
theorem scan_text {f : Form} (writable : f.Writable) : Token.scan f.text = .ok f.tokens := by
  show Scan.between.tokens f.text.toList = _
  rw [← List.append_nil f.text.toList, tokens_text writable (by simp), Scan.tokens_nil]
  simp [Scan.finish, Except.map]

/-! ## Reading forms -/

/-- One more token, on top of the open lists, innermost first; none when a
parenthesis closes nothing. Members are kept last one first. -/
def push : List (List Form) → Token → Option (List (List Form))
  | inner, .opening => some ([] :: inner)
  | fs :: gs :: outer, .closing => some ((list fs.reverse :: gs) :: outer)
  | _, .closing => none
  | fs :: outer, t => some ((atom t :: fs) :: outer)
  | [], _ => none

/-- The forms that some tokens make, when every list is closed. -/
def ofTokens (ts : List Token) : Option (List Form) :=
  match ts.foldlM push [[]] with
  | some [fs] => some fs.reverse
  | _ => none

/-- **The forms of a text**; none when it is unbalanced or unfinished. -/
def ofText (text : String) : Option (List Form) :=
  match Token.scan text with
  | .ok ts => ofTokens ts
  | .error _ => none

/-- The tokens of a form add the form to the innermost list. -/
theorem foldlM_push_tokens {f : Form} (writable : f.Writable) (fs : List Form)
    (outer : List (List Form)) :
    f.tokens.foldlM push (fs :: outer) = some ((f :: fs) :: outer) := by
  induction writable generalizing fs outer with
  | @atom t isAtom _ =>
    rw [tokens, List.foldlM_cons]
    cases t with
    | opening => exact absurd rfl isAtom.1
    | closing => exact absurd rfl isAtom.2
    | bare | barred | literal => rfl
  | @list gs parts ih =>
    -- the innermost list grows in front, and is turned round when it is closed
    have members : ∀ (hs : List Form), (gs.flatMap tokens).foldlM push (hs :: fs :: outer) =
        some ((gs.reverse ++ hs) :: fs :: outer) := by
      clear parts
      induction gs with
      | nil => exact fun _ => rfl
      | cons g gs rest =>
        intro hs
        rw [List.flatMap_cons, List.foldlM_append, ih g List.mem_cons_self, Option.bind_eq_bind,
          Option.bind_some, rest fun f hf => ih f (List.mem_cons_of_mem _ hf), List.reverse_cons,
          List.append_assoc]
        rfl
    rw [tokens_list, List.foldlM_cons]
    show (gs.flatMap tokens ++ [Token.closing]).foldlM push ([] :: fs :: outer) = _
    rw [List.foldlM_append, members, Option.bind_eq_bind, Option.bind_some, List.append_nil]
    show some ((list gs.reverse.reverse :: fs) :: outer) = _
    rw [List.reverse_reverse]

/-- **A written form reads back as itself.** -/
theorem ofText_text {f : Form} (writable : f.Writable) : ofText f.text = some [f] := by
  rw [ofText, scan_text writable]
  show ofTokens f.tokens = _
  rw [ofTokens, foldlM_push_tokens writable]
  rfl

/-! ## Items of forms -/

/-- The tokens of a form put its item into the innermost list. -/
theorem foldl_push_tokens {f : Form} (writable : f.Writable) (top : List Item)
    (inner : List (List Item)) :
    f.tokens.foldl Nesting.push (.nested top inner) = (Nesting.nested top inner).put f.item := by
  induction writable generalizing top inner with
  | @atom t isAtom _ =>
    cases t with
    | opening => exact absurd rfl isAtom.1
    | closing => exact absurd rfl isAtom.2
    | bare | barred | literal => cases inner <;> rfl
  | @list gs parts ih =>
    have members : ∀ items : List Item,
        (gs.flatMap tokens).foldl Nesting.push (.nested top (items :: inner)) =
          .nested top (((gs.map item).reverse ++ items) :: inner) := by
      clear parts
      induction gs with
      | nil => exact fun _ => rfl
      | cons g gs rest =>
        intro items
        rw [List.flatMap_cons, List.foldl_append, ih g List.mem_cons_self]
        show (gs.flatMap tokens).foldl Nesting.push (.nested top ((g.item :: items) :: inner)) = _
        rw [rest fun f hf => ih f (List.mem_cons_of_mem _ hf), List.map_cons, List.reverse_cons,
          List.append_assoc]
        rfl
    rw [tokens_list, List.foldl_cons]
    show (gs.flatMap tokens ++ [Token.closing]).foldl Nesting.push (.nested top ([] :: inner)) = _
    rw [List.foldl_append, members, List.append_nil, item_list]
    show (Nesting.nested top inner).put (.list (gs.map item).reverse.reverse) = _
    rw [List.reverse_reverse]

/-- Several forms put their items one after the other. -/
theorem foldl_push_flatMap {α : Type} {form : α → Form} {xs : List α}
    (writable : ∀ x ∈ xs, (form x).Writable) (top : List Item) :
    (xs.flatMap fun x => (form x).tokens).foldl Nesting.push (.nested top []) =
      .nested ((xs.map fun x => (form x).item).reverse ++ top) [] := by
  induction xs generalizing top with
  | nil => rfl
  | cons x xs ih =>
    rw [List.flatMap_cons, List.foldl_append, foldl_push_tokens (writable x List.mem_cons_self)]
    show (xs.flatMap _).foldl Nesting.push (.nested ((form x).item :: top) []) = _
    rw [ih fun y hy => writable y (List.mem_cons_of_mem _ hy), List.map_cons, List.reverse_cons,
      List.append_assoc]
    rfl

end Form

/-- Reading items is nesting all tokens of the text. -/
theorem Item.parse_of_scan {text : String} {ts : List Token} (h : Token.scan text = .ok ts) :
    Item.parse text = (ts.foldl Nesting.push .empty).close := by
  unfold Token.scan at h
  unfold Item.parse
  cases hr : Scan.between.run text.toList with
  | mk last done =>
    rw [hr] at h
    simp only at h ⊢
    cases hf : last.finish with
    | error e => rw [hf] at h; cases h
    | ok final =>
      rw [hf] at h
      cases h
      rw [List.foldl_append]
      cases done.foldl Nesting.push .empty with
      | broken => rw [Nesting.foldl_push_broken]; rfl
      | nested top inner => rfl

/-- **The items of forms** whose tokens a text has. -/
theorem Item.parse_of_tokens {text : String} {fs : List Form} (writable : ∀ f ∈ fs, f.Writable)
    (scanned : Token.scan text = .ok (fs.flatMap Form.tokens)) :
    Item.parse text = .ok (fs.map Form.item) := by
  rw [parse_of_scan scanned, Nesting.empty, Form.foldl_push_flatMap writable, List.append_nil]
  show Except.ok (fs.map Form.item).reverse.reverse = _
  rw [List.reverse_reverse]

/-- **The items of a written form** are its one item. -/
theorem Item.parse_text {f : Form} (writable : f.Writable) :
    Item.parse f.text = .ok [f.item] := by
  refine parse_of_tokens (List.forall_mem_singleton.2 writable) ?_
  rw [Form.scan_text writable, List.flatMap_singleton]

end SmtDialogue
