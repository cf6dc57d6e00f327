import SmtDialogue.Proofs.Commands

/-!
# What becomes of line separators

A block of commands is cut into lines at ten separators, and each line is sent
with a line feed behind it. So the separators themselves do not arrive: in what
has been sent, each of them is a line feed, and a carriage return with a line
feed after it is one (`feeds`, `flatMap_cutLines`). A text arrives as it was
written exactly when its separators are line feeds (`feeds_eq_self_iff`).

The texts of symbols and terms have separators in the names of variables only,
so what arrives is the text of the same term over other names
(`Term.feeds_text`).
-/

namespace SmtDialogue

namespace Text

/-! ## Separators turned into line feeds -/

/-- Characters with each separator turned into a line feed. -/
def feedChars : List Char → List Char
  | [] => []
  | '\r' :: '\n' :: rest => '\n' :: feedChars rest
  | c :: rest => (if isLineBreak c then '\n' else c) :: feedChars rest

/-- A text with each line separator turned into a line feed. -/
def feeds (s : String) : String :=
  String.ofList (feedChars s.toList)

/-- Whether the only line separators in a text are line feeds. -/
def FeedsOnly (s : String) : Prop :=
  ∀ c ∈ s.toList, isLineBreak c = true → c = '\n'

instance (s : String) : Decidable (FeedsOnly s) :=
  List.decidableBAll (fun c => isLineBreak c = true → c = '\n') s.toList

/-- The lines of characters that end in no separator, each with a line feed, are
the characters with their separators turned into line feeds. -/
theorem flatMap_cutLines {piece cs : List Char} (some : piece ≠ [] ∨ cs ≠ [])
    (ends : ∀ c ∈ cs.getLast?, isLineBreak c = false) :
    (cutLines piece cs).flatMap (· ++ ['\n']) = piece.reverse ++ feedChars cs ++ ['\n'] := by
  -- after a separator the text goes on, since it does not end in one
  have goesOn {c : Char} {rest : List Char} (separator : isLineBreak c = true)
      (ends : ∀ d ∈ (c :: rest).getLast?, isLineBreak d = false) :
      rest ≠ [] ∧ ∀ d ∈ rest.getLast?, isLineBreak d = false := by
    cases rest with
    | nil => exact absurd (separator.symm.trans (ends c rfl)) (by decide)
    | cons d rest => exact ⟨List.cons_ne_nil _ _, List.getLast?_cons_cons ▸ ends⟩
  fun_induction cutLines piece cs with
  | case1 piece none =>
    rw [List.isEmpty_iff] at none
    exact absurd none (some.resolve_right (· rfl))
  | case2 piece begun => simp [feedChars]
  | case3 piece rest ih =>
    obtain ⟨more, ends⟩ := goesOn (by decide) (List.getLast?_cons_cons ▸ ends)
    rw [List.flatMap_cons, ih (.inr more) ends, feedChars]
    simp
  | case4 piece c rest alone separator ih =>
    obtain ⟨more, ends⟩ := goesOn separator ends
    rw [List.flatMap_cons, ih (.inr more) ends, feedChars, if_pos separator]
    · simp
    · exact alone
  | case5 piece c rest alone inside ih =>
    have ends' : ∀ d ∈ rest.getLast?, isLineBreak d = false := by
      cases rest with
      | nil => nofun
      | cons d rest => exact List.getLast?_cons_cons ▸ ends
    rw [ih (.inl (List.cons_ne_nil _ _)) ends', feedChars, if_neg inside]
    · simp
    · exact alone

/-- What arrives has a line feed exactly when there is a separator. -/
theorem feed_mem_feedChars {cs : List Char} :
    '\n' ∈ feedChars cs ↔ ∃ c ∈ cs, isLineBreak c = true := by
  fun_induction feedChars cs with
  | case1 => simp
  | case2 rest => simp [isLineBreak]
  | case3 c rest alone ih =>
    simp only [List.mem_cons, ih, or_and_right, exists_or, exists_eq_left]
    refine or_congr ⟨fun feed => ?_, fun separator => (if_pos separator).symm⟩ .rfl
    by_contra inside
    rw [if_neg inside] at feed
    exact inside (feed ▸ by decide)

/-- What arrives has the other characters of the text. -/
theorem mem_of_mem_feedChars {cs : List Char} {c : Char} (h : c ∈ feedChars cs) :
    c = '\n' ∨ c ∈ cs ∧ isLineBreak c = false := by
  fun_induction feedChars cs with
  | case1 => cases h
  | case2 rest ih =>
    rcases List.mem_cons.1 h with rfl | h
    · exact .inl rfl
    · exact (ih h).imp_right fun h => ⟨by simp [h.1], h.2⟩
  | case3 d rest alone ih =>
    rcases List.mem_cons.1 h with rfl | h
    · split
      · exact .inl rfl
      · next inside => exact .inr ⟨List.mem_cons_self, by simpa using inside⟩
    · exact (ih h).imp_right fun h => ⟨List.mem_cons_of_mem _ h.1, h.2⟩

/-- Line feeds alone arrive as they are. -/
theorem feedChars_eq_self {cs : List Char} (h : ∀ c ∈ cs, isLineBreak c = true → c = '\n') :
    feedChars cs = cs := by
  fun_induction feedChars cs with
  | case1 => rfl
  | case2 rest => exact absurd (h '\r' (by simp) (by decide)) (by decide)
  | case3 c rest alone ih =>
    have own : (if isLineBreak c then '\n' else c) = c :=
      (apply_ite (· = c) _ _ _).mpr (by simpa using fun separator => (h c (by simp) separator).symm)
    rw [own, ih fun d hd => h d (List.mem_cons_of_mem _ hd)]

/-- Two texts arrive one after the other, unless a carriage return and a line
feed meet. -/
theorem feedChars_append {cs ds : List Char}
    (apart : cs.getLast? ≠ some '\r' ∨ ds.head? ≠ some '\n') :
    feedChars (cs ++ ds) = feedChars cs ++ feedChars ds := by
  fun_induction feedChars cs with
  | case1 => rfl
  | case2 rest ih =>
    rw [List.cons_append, List.cons_append, feedChars, ih, List.cons_append]
    cases rest with
    | nil => exact .inl nofun
    | cons c rest => simpa [List.getLast?_cons_cons] using apart
  | case3 c rest alone ih =>
    rw [List.cons_append, feedChars, ih, List.cons_append]
    · cases rest with
      | nil => exact .inl nofun
      | cons d rest => simpa [List.getLast?_cons_cons] using apart
    · rintro rest' rfl meets
      cases rest with
      | nil =>
        rcases apart with last | first
        · exact last rfl
        · exact first (by rw [show ds = _ from meets]; rfl)
      | cons d rest =>
        cases meets
        exact alone _ rfl rfl

/-! ## Texts -/

theorem toList_feeds (s : String) : (feeds s).toList = feedChars s.toList := String.toList_ofList

/-- **A text arrives as it is** exactly when its separators are line feeds. -/
theorem feeds_eq_self_iff {s : String} : feeds s = s ↔ FeedsOnly s := by
  rw [← String.toList_inj, toList_feeds]
  refine ⟨fun same c hc separator => ?_, feedChars_eq_self⟩
  rw [← same] at hc
  rcases mem_of_mem_feedChars hc with feed | ⟨-, inside⟩
  · exact feed
  · exact absurd (separator.symm.trans inside) (by decide)

theorem BreakFree.feedsOnly {s : String} (h : BreakFree s) : FeedsOnly s :=
  fun c hc separator => absurd (separator.symm.trans (h c hc)) (by decide)

theorem feeds_of_breakFree {s : String} (h : BreakFree s) : feeds s = s :=
  feeds_eq_self_iff.2 h.feedsOnly

/-- What arrives has a separator exactly when the text has one. -/
theorem breakFree_feeds {s : String} : BreakFree (feeds s) ↔ BreakFree s := by
  unfold BreakFree
  rw [toList_feeds]
  constructor
  · intro whole c hc
    by_contra separator
    rw [Bool.not_eq_false] at separator
    exact absurd (whole _ (feed_mem_feedChars.2 ⟨c, hc, separator⟩)) (by decide)
  · intro whole c hc
    rcases mem_of_mem_feedChars hc with rfl | ⟨-, inside⟩
    · obtain ⟨d, hd, separator⟩ := feed_mem_feedChars.1 hc
      exact absurd (separator.symm.trans (whole d hd)) (by decide)
    · exact inside

theorem feeds_append {s t : String}
    (apart : s.toList.getLast? ≠ some '\r' ∨ t.toList.head? ≠ some '\n') :
    feeds (s ++ t) = feeds s ++ feeds t := by
  simp only [← String.toList_inj, String.toList_append, toList_feeds, feedChars_append apart]

theorem feeds_append_of_left {s t : String} (h : BreakFree s) : feeds (s ++ t) = s ++ feeds t := by
  have apart : s.toList.getLast? ≠ some '\r' := fun last =>
    absurd (h '\r' (List.mem_of_getLast? last)) (by decide)
  rw [feeds_append (.inl apart), feeds_of_breakFree h]

theorem feeds_append_of_right {s t : String} (h : BreakFree t) :
    feeds (s ++ t) = feeds s ++ t := by
  have apart : t.toList.head? ≠ some '\n' := fun first =>
    absurd (h '\n' (List.mem_of_head? first)) (by decide)
  rw [feeds_append (.inr apart), feeds_of_breakFree h]

/-- Texts with single characters between them arrive one by one, unless a
carriage return and a line feed meet. -/
theorem feeds_intercalate {sep : String} {c : Char} (single : sep.toList = [c])
    (kept : isLineBreak c = true → c = '\n') {ss : List String}
    (apart : ∀ s ∈ ss, s.toList.getLast? ≠ some '\r' ∨ c ≠ '\n') :
    feeds (sep.intercalate ss) = sep.intercalate (ss.map feeds) := by
  have between : feeds sep = sep :=
    feeds_eq_self_iff.2 fun d hd => List.mem_singleton.1 (single ▸ hd) ▸ kept
  induction ss with
  | nil => rfl
  | cons s ss ih =>
    by_cases none : ss = []
    · subst none
      simp
    · have ends : (s ++ sep).toList.getLast? ≠ some '\r' := by
        rw [String.toList_append, single, List.getLast?_concat]
        rintro ⟨⟩
        exact absurd (kept (by decide)) (by decide)
      have starts : s.toList.getLast? ≠ some '\r' ∨ sep.toList.head? ≠ some '\n' :=
        (apart s List.mem_cons_self).imp_right fun other first => by
          rw [single] at first
          exact other (Option.some.inj first)
      rw [String.intercalate_cons_of_ne_nil none, feeds_append (.inl ends), feeds_append starts,
        between, ih fun t ht => apart t (List.mem_cons_of_mem _ ht), List.map_cons,
        String.intercalate_cons_of_ne_nil (by simpa using none)]

/-- **The lines of a text, each with a line feed**, are the text with its
separators turned into line feeds, when it does not end in a separator. -/
theorem join_lines {s : String} (some : s ≠ "")
    (ends : ∀ c ∈ s.toList.getLast?, isLineBreak c = false) :
    String.join ((lines s).map (· ++ "\n")) = feeds s ++ "\n" := by
  have begun : s.toList ≠ [] := mt String.toList_eq_nil_iff.1 some
  rw [← String.toList_inj, String.toList_append, toList_feeds]
  have cut : (cutLines [] s.toList).flatMap (· ++ ['\n']) = feedChars s.toList ++ ['\n'] :=
    flatMap_cutLines (.inr begun) ends
  simpa [lines, String.toList_join, List.flatMap_map, String.toList_append] using cut

theorem isBlank_of_isLineBreak {c : Char} (h : isLineBreak c = true) : isBlank c = true := by
  simp only [isLineBreak, Bool.or_eq_true, Bool.and_eq_true, decide_eq_true_eq, beq_iff_eq] at h
  simp only [isBlank, Bool.or_eq_true, Bool.and_eq_true, decide_eq_true_eq, beq_iff_eq]
  omega

end Text

namespace Smt

open Text

/-! ## Symbols and terms -/

/-- A name that is written without bars has no separator. -/
theorem breakFree_of_isPlainName {name : String} (plain : isPlainName name = true) :
    BreakFree name := by
  rw [isPlainName, Bool.and_eq_true] at plain
  intro c hc
  have inside := (writable_bare_of_isSimple plain.1).2 c hc
  by_contra separator
  rw [Scan.endsBare, isBlank_of_isLineBreak (Bool.not_eq_false _ ▸ separator)] at inside
  cases inside

/-- A name that is written between bars arrives between bars. -/
theorem isPlainName_feeds (name : String) : isPlainName (feeds name) = isPlainName name := by
  by_cases whole : BreakFree name
  · rw [feeds_of_breakFree whole]
  · rw [Bool.eq_false_iff.2 (mt breakFree_of_isPlainName whole),
      Bool.eq_false_iff.2 (mt breakFree_of_isPlainName (mt breakFree_feeds.1 whole))]

theorem feeds_symbolText (name : String) : feeds (symbolText name) = symbolText (feeds name) := by
  unfold symbolText
  rw [isPlainName_feeds]
  split
  · rfl
  · rw [feeds_append_of_right (by decide), feeds_append_of_left (by decide)]

/-- A name that can be written arrives as one that can be written. -/
theorem isWritable_feeds {name : String} (h : isWritable name = true) :
    isWritable (feeds name) = true := by
  simp only [isWritable, isPlainName_feeds, Bool.or_eq_true, Bool.not_eq_true',
    Bool.or_eq_false_iff, List.contains_eq_mem, decide_eq_false_iff_not] at h ⊢
  have absent {c : Char} (other : c ≠ '\n') (h : c ∉ name.toList) : c ∉ (feeds name).toList :=
    fun there => by
      rw [toList_feeds] at there
      exact (mem_of_mem_feedChars there).elim other fun there => h there.1
  exact h.imp_right fun h => ⟨absent (by decide) h.1, absent (by decide) h.2⟩

namespace Term

mutual

/-- The term with other names for its variables. -/
def rename (f : String → String) : Term → Term
  | symbol name => symbol (f name)
  | literal value => literal value
  | app head args => app head (renameAll f args)

/-- Several terms with other names for their variables. -/
def renameAll (f : String → String) : List Term → List Term
  | [] => []
  | t :: ts => t.rename f :: renameAll f ts

end

mutual

/-- The names of the variables of a term. -/
def names : Term → List String
  | symbol name => [name]
  | literal _ => []
  | app _ args => namesAll args

/-- The names of the variables of several terms. -/
def namesAll : List Term → List String
  | [] => []
  | t :: ts => t.names ++ namesAll ts

end

@[simp] theorem renameAll_eq_map (f : String → String) (ts : List Term) :
    renameAll f ts = ts.map (rename f) := by
  induction ts with
  | nil => rfl
  | cons t ts ih => rw [renameAll, ih, List.map_cons]

@[simp] theorem namesAll_eq_flatMap (ts : List Term) : namesAll ts = ts.flatMap names := by
  induction ts with
  | nil => rfl
  | cons t ts ih => rw [namesAll, ih, List.flatMap_cons]

theorem rename_app (f : String → String) (head : String) (args : List Term) :
    (app head args).rename f = app head (args.map (rename f)) := by
  rw [rename, renameAll_eq_map]

theorem names_app (head : String) (args : List Term) :
    (app head args).names = args.flatMap names := by
  rw [names, namesAll_eq_flatMap]

variable {property : String → Prop}

/-- The symbols of operators have no separator. -/
theorem breakFree_headOf (op : Op) : BreakFree (headOf op) := by
  cases op <;> decide

/-- A term over names that are kept together is written on one line. -/
theorem Named.breakFree_text {t : Term} (h : t.Named property)
    (whole : ∀ x ∈ t.names, BreakFree x) : BreakFree t.text := by
  induction h with
  | symbol name =>
    rw [text]
    exact breakFree_symbolText (whole _ (by rw [names]; exact List.mem_singleton_self _))
  | literal v =>
    rw [text]
    exact breakFree_literalText v
  | @app op args _ _ ih =>
    rw [text_app]
    refine breakFree_append.2 ⟨breakFree_append.2 ⟨breakFree_append.2
      ⟨breakFree_append.2 ⟨by decide, breakFree_headOf op⟩, by decide⟩,
      breakFree_intercalate (by decide) fun s hs => ?_⟩, by decide⟩
    obtain ⟨t, ht, rfl⟩ := List.mem_map.1 hs
    exact ih t ht fun x hx => whole x (by rw [names_app]; exact List.mem_flatMap.2 ⟨t, ht, hx⟩)

/-- **A term arrives as the term over the names that arrive.** -/
theorem feeds_text {t : Term} (h : t.Named property) : feeds t.text = (t.rename feeds).text := by
  induction h with
  | @symbol name _ =>
    rw [text, rename, text]
    exact feeds_symbolText name
  | literal v =>
    rw [rename, text]
    exact feeds_of_breakFree (breakFree_literalText v)
  | @app op args _ _ ih =>
    have parts : (args.map text).map feeds = (args.map (rename feeds)).map text := by
      rw [List.map_map, List.map_map]
      exact List.map_congr_left ih
    have lead : BreakFree ("(" ++ headOf op ++ " ") :=
      breakFree_append.2 ⟨breakFree_append.2 ⟨by decide, breakFree_headOf op⟩, by decide⟩
    rw [rename_app, text_app, text_app, feeds_append_of_right (by decide),
      feeds_append_of_left lead, feeds_intercalate rfl (by decide) fun _ _ => .inr (by decide),
      parts]

theorem Named.rename {more : String → Prop} {f : String → String}
    (carries : ∀ x, property x → more (f x)) {t : Term} (h : t.Named property) :
    (t.rename f).Named more := by
  induction h with
  | symbol name =>
    rw [Term.rename]
    exact .symbol (carries _ name)
  | literal v =>
    rw [Term.rename]
    exact .literal v
  | app inner _ ih =>
    rw [rename_app]
    refine .app inner fun t ht => ?_
    obtain ⟨u, hu, rfl⟩ := List.mem_map.1 ht
    exact ih u hu

/-- A renamed term reads as the term exactly when its names stay as they
are. -/
theorem item_rename_iff {f : String → String} {t : Term} (h : t.Named property) :
    (t.rename f).form.item = t.form.item ↔ ∀ x ∈ t.names, f x = x := by
  induction h with
  | symbol =>
    simp [Term.rename, form, names]
  | literal => simp [Term.rename, names]
  | @app op args _ _ ih =>
    rw [rename_app, form_app, form_app, names_app, Form.item_list, Form.item_list]
    simp only [List.map_cons, List.map_map, Item.list.injEq, List.cons.injEq, true_and,
      List.map_inj_left, List.mem_flatMap, Function.comp_apply]
    constructor
    · rintro same x ⟨t, ht, hx⟩
      exact (ih t ht).1 (same t ht) x hx
    · intro fixed t ht
      exact (ih t ht).2 fun x hx => fixed x ⟨t, ht, hx⟩

end Term

end Smt

end SmtDialogue
