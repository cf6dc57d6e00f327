import SmtDialogue.Proofs.Forms

/-!
# Texts read one after the other

A solver's text arrives line by line, and after each line it is read again from
its start. What makes this sound is a law about cutting a text in two, and it
holds for every text and every place to cut.

What the first part leaves behind is a `Reader`: what the scanner is inside of,
and the lists under construction. The second part is read from there, and three
things can have happened before. A parenthesis has closed nothing, and then
nothing that follows mends the text. Or the first part is unfinished, and then
its end can be written down: the second half of a quoted symbol or literal, a
line feed, and a parenthesis for each open list (`Reader.exists_result_end`). Or
the first part is read; when it ends with a line feed the scanner is inside of
nothing then – a bare atom or a comment is over, and a quoted symbol or a literal
would have left the text unfinished – and the second part is read as if it stood
alone, with its items below those of the first (`Reader.result_above`).
-/

namespace SmtDialogue

open Token (IsAtom)

/-! ## Lists under construction on top of items -/

namespace Nesting

/-- Lists under construction, with some items before everything else at top
level. -/
def above (items : List Item) : Nesting → Nesting
  | nested top inner => nested (top ++ items.reverse) inner
  | broken => broken

@[simp] theorem above_nested (items top : List Item) (inner : List (List Item)) :
    (nested top inner).above items = nested (top ++ items.reverse) inner := rfl

@[simp] theorem above_broken (items : List Item) : broken.above items = broken := rfl

/-- Items already there are not touched by an item that is put in. -/
theorem put_above (items : List Item) (item : Item) (n : Nesting) :
    (n.above items).put item = (n.put item).above items := by
  cases n with
  | broken => rfl
  | nested top inner => cases inner <;> rfl

/-- Nor by a token. -/
theorem push_above (items : List Item) (n : Nesting) (t : Token) :
    (n.above items).push t = (n.push t).above items := by
  cases n with
  | broken => simp
  | nested top inner =>
    cases t with
    | opening => rfl
    | closing =>
      cases inner with
      | nil => rfl
      | cons members outer => exact put_above items _ (nested top outer)
    | bare text => exact put_above items _ (nested top inner)
    | barred text => exact put_above items _ (nested top inner)
    | literal text => exact put_above items _ (nested top inner)

theorem foldl_push_above (items : List Item) (ts : List Token) (n : Nesting) :
    ts.foldl push (n.above items) = (ts.foldl push n).above items := by
  induction ts generalizing n with
  | nil => rfl
  | cons t ts ih => rw [List.foldl_cons, List.foldl_cons, push_above, ih]

/-- They come first when everything has been closed. -/
theorem close_above (items : List Item) (n : Nesting) :
    (n.above items).close = n.close.map (items ++ ·) := by
  cases n with
  | broken => rfl
  | nested top inner =>
    cases inner with
    | nil => simp [close, Except.map]
    | cons members outer => rfl

/-- An atom breaks nothing, and leaves as many lists open as there were. -/
theorem exists_push_of_isAtom {t : Token} (atom : t.IsAtom) (top : List Item)
    (inner : List (List Item)) :
    ∃ top' inner', (nested top inner).push t = nested top' inner' ∧
      inner'.length = inner.length := by
  cases t with
  | opening => exact absurd rfl atom.1
  | closing => exact absurd rfl atom.2
  | bare | barred | literal =>
    cases inner with
    | nil => exact ⟨_, _, rfl, rfl⟩
    | cons members outer => exact ⟨_, _, rfl, rfl⟩

theorem exists_foldl_push_of_isAtom {ts : List Token} (atoms : ∀ t ∈ ts, t.IsAtom)
    (top : List Item) (inner : List (List Item)) :
    ∃ top' inner', ts.foldl push (nested top inner) = nested top' inner' ∧
      inner'.length = inner.length := by
  induction ts generalizing top inner with
  | nil => exact ⟨_, _, rfl, rfl⟩
  | cons t ts ih =>
    obtain ⟨top₁, inner₁, first, same₁⟩ :=
      exists_push_of_isAtom (atoms t List.mem_cons_self) top inner
    obtain ⟨top₂, inner₂, others, same₂⟩ :=
      ih (fun u hu => atoms u (List.mem_cons_of_mem _ hu)) top₁ inner₁
    exact ⟨top₂, inner₂, by rw [List.foldl_cons, first, others], same₂.trans same₁⟩

/-- As many closing parentheses as there are open lists close them all. -/
theorem exists_close_of_closings {depth : Nat} {inner : List (List Item)}
    (deep : inner.length = depth) (top : List Item) :
    ∃ items, ((List.replicate depth Token.closing).foldl push (nested top inner)).close =
      .ok items := by
  induction depth generalizing top inner with
  | zero =>
    obtain rfl := List.length_eq_zero_iff.1 deep
    exact ⟨_, rfl⟩
  | succ depth ih =>
    cases inner with
    | nil => cases deep
    | cons members outer =>
      rw [List.replicate_succ, List.foldl_cons]
      -- the closed list goes into the next one, or to the top when it is the last
      cases outer with
      | nil =>
        have closed : ([] : List (List Item)).length = depth := Nat.succ.inj deep
        exact ih closed _
      | cons others outer =>
        have deep : ((Item.list members.reverse :: others) :: outer).length = depth :=
          Nat.succ.inj deep
        exact ih deep top

end Nesting

/-! ## What a text leaves behind -/

namespace Scan

/-- The tokens that the end of a text completes are atoms. -/
theorem isAtom_of_finish {scan : Scan} {ts : List Token} (finished : scan.finish = .ok ts) :
    ∀ t ∈ ts, t.IsAtom := by
  cases scan with
  | between | comment => cases finished; exact nofun
  | bare read | quote read =>
    cases finished
    intro t ht
    cases List.mem_singleton.1 ht
    exact ⟨nofun, nofun⟩
  | barred read | literal read => cases finished

/-- **Where a line feed leaves the scanner**: inside of nothing, unless it is a
character of a quoted symbol or of a literal, which is then unfinished. -/
theorem step_feed (scan : Scan) :
    (scan.step '\n').1 = between ∨ ∃ what, (scan.step '\n').1.finish = .error what := by
  cases scan with
  | between | comment | bare read | quote read => exact .inl rfl
  | barred read => exact .inr ⟨_, rfl⟩
  | literal read => exact .inr ⟨_, rfl⟩

/-- How what the scanner is inside of comes to its end. -/
def ending : Scan → List Char
  | barred _ => ['|', '\n']
  | literal _ => ['"', '\n']
  | _ => ['\n']

/-- Then the scanner is inside of nothing, and has completed atoms only. -/
theorem run_ending (scan : Scan) :
    (scan.run scan.ending).1 = between ∧ ∀ t ∈ (scan.run scan.ending).2, t.IsAtom := by
  cases scan with
  | between | comment => exact ⟨rfl, nofun⟩
  | bare read | barred read | literal read | quote read =>
    refine ⟨rfl, fun t ht => ?_⟩
    cases List.mem_singleton.1 ht
    exact ⟨nofun, nofun⟩

/-- Closing parentheses leave the scanner where it is. -/
theorem run_closings (depth : Nat) :
    between.run (List.replicate depth ')') = (between, List.replicate depth .closing) := by
  induction depth with
  | zero => rfl
  | succ depth ih =>
    rw [List.replicate_succ, run, show between.step ')' = (between, [.closing]) from rfl]
    show ((between.run _).1, _) = _
    rw [ih, List.replicate_succ]
    rfl

end Scan

/-- **A reader part way through a text**: what the scanner is inside of, and the
lists under construction. -/
structure Reader where
  /-- What the scanner is inside of. -/
  scan : Scan
  /-- What the tokens completed so far have built. -/
  lists : Nesting

namespace Reader

/-- Before the first character. -/
def start : Reader := ⟨.between, .empty⟩

/-- The reader some characters later. -/
def read (r : Reader) (cs : List Char) : Reader :=
  ⟨(r.scan.run cs).1, (r.scan.run cs).2.foldl Nesting.push r.lists⟩

/-- What has been read when the text ends here. -/
def result (r : Reader) : Except ReadError (List Item) :=
  match r.lists with
  | .broken => .error .unbalanced
  | .nested top inner =>
    match r.scan.finish with
    | .error what => .error (.unfinished what)
    | .ok final => (final.foldl Nesting.push (.nested top inner)).close

/-- Reading a text is going through it and looking what there is at its end. -/
theorem parse_eq_result (text : String) :
    Item.parse text = (start.read text.toList).result := by
  unfold Item.parse result read start
  dsimp only
  cases (Scan.between.run text.toList).2.foldl Nesting.push .empty <;> rfl

/-- **The second part is read from where the first one ends.** -/
theorem read_append (r : Reader) (cs ds : List Char) :
    r.read (cs ++ ds) = (r.read cs).read ds := by
  unfold read
  rw [Scan.run_append, List.foldl_append]

theorem parse_append (t s : String) :
    Item.parse (t ++ s) = ((start.read t.toList).read s.toList).result := by
  rw [parse_eq_result, String.toList_append, read_append]

/-- A text is unbalanced exactly when a parenthesis has closed nothing: its last
token, which its end completes, is no parenthesis. -/
theorem result_eq_unbalanced_iff (r : Reader) :
    r.result = .error .unbalanced ↔ r.lists = .broken := by
  obtain ⟨scan, lists⟩ := r
  cases lists with
  | broken => exact ⟨fun _ => rfl, fun _ => rfl⟩
  | nested top inner =>
    refine ⟨fun failed => ?_, nofun⟩
    unfold result at failed
    cases finished : scan.finish with
    | error what => simp [finished] at failed
    | ok final =>
      obtain ⟨top', inner', built, -⟩ :=
        Nesting.exists_foldl_push_of_isAtom (Scan.isAtom_of_finish finished) top inner
      simp only [finished, built] at failed
      cases inner' <;> cases failed

/-- What closes nothing stays. -/
theorem lists_read_of_broken {r : Reader} (broken : r.lists = .broken) (cs : List Char) :
    (r.read cs).lists = .broken := by
  rw [read, broken, Nesting.foldl_push_broken]

/-! ## An unfinished text can be finished -/

/-- How what has been read so far comes to its end. -/
def ending (r : Reader) : List Char :=
  match r.lists with
  | .broken => []
  | .nested _ inner => r.scan.ending ++ List.replicate inner.length ')'

/-- **An end can be written** for whatever has been read, unless a parenthesis
has closed nothing. -/
theorem exists_result_ending {r : Reader} (sound : r.lists ≠ .broken) :
    ∃ items, (r.read r.ending).result = .ok items := by
  obtain ⟨scan, lists⟩ := r
  cases lists with
  | broken => exact absurd rfl sound
  | nested top inner =>
    obtain ⟨between, atoms⟩ := scan.run_ending
    obtain ⟨top', inner', built, deep⟩ :=
      Nesting.exists_foldl_push_of_isAtom atoms top inner
    obtain ⟨items, closed⟩ := Nesting.exists_close_of_closings deep top'
    have ended : read ⟨scan, .nested top inner⟩ scan.ending = ⟨.between, .nested top' inner'⟩ := by
      rw [read, between, built]
    refine ⟨items, ?_⟩
    show ((read ⟨scan, .nested top inner⟩ (scan.ending ++ _)).result) = _
    rw [read_append, ended, read, Scan.run_closings]
    unfold result
    dsimp only
    cases lists : (List.replicate inner.length Token.closing).foldl Nesting.push
      (.nested top' inner') with
    | broken => rw [lists] at closed; cases closed
    | nested top inner => rw [lists] at closed; exact closed

/-! ## Whole lines leave nothing open -/

/-- The reader with some items before everything else. -/
def above (items : List Item) (r : Reader) : Reader := ⟨r.scan, r.lists.above items⟩

theorem read_above (items : List Item) (r : Reader) (cs : List Char) :
    (r.above items).read cs = (r.read cs).above items := by
  show Reader.mk _ (List.foldl _ (r.lists.above items) _) = _
  rw [Nesting.foldl_push_above]
  rfl

/-- **Items already there come first**, and change nothing else. -/
theorem result_above (items : List Item) (r : Reader) :
    (r.above items).result = r.result.map (items ++ ·) := by
  obtain ⟨scan, lists⟩ := r
  cases lists with
  | broken => rfl
  | nested top inner =>
    unfold result above
    dsimp only [Nesting.above_nested]
    cases scan.finish with
    | error what => rfl
    | ok final =>
      show (final.foldl Nesting.push ((Nesting.nested top inner).above items)).close = _
      rw [Nesting.foldl_push_above, Nesting.close_above]

/-- A reader inside of nothing, with every list closed, is at its start again,
with the items that it has read. -/
theorem eq_start_above {r : Reader} {items : List Item} (between : r.scan = .between)
    (done : r.result = .ok items) : r = start.above items := by
  obtain ⟨scan, lists⟩ := r
  obtain rfl : scan = .between := between
  cases lists with
  | broken => cases done
  | nested top inner =>
    cases inner with
    | cons members outer => cases done
    | nil =>
      obtain rfl : top.reverse = items := Except.ok.inj done
      show _ = Reader.mk .between (.nested ([] ++ top.reverse.reverse) [])
      rw [List.reverse_reverse]
      rfl

/-- **Lines that can be read leave the reader inside of nothing.** -/
theorem scan_read_of_result {t : String} {items : List Item}
    (done : (start.read t.toList).result = .ok items)
    (ended : t = "" ∨ t.toList.getLast? = some '\n') :
    (start.read t.toList).scan = .between := by
  rcases ended with rfl | last
  · rfl
  · obtain ⟨cs, split⟩ := List.getLast?_eq_some_iff.1 last
    rw [split, read_append] at done ⊢
    rcases ((start.read cs).scan).step_feed with between | ⟨what, unfinished⟩
    · exact between
    · -- the text would be unfinished, or unbalanced before
      exfalso
      unfold result at done
      have finish : ((start.read cs).read ['\n']).scan.finish = .error what := unfinished
      rw [finish] at done
      split at done <;> cases done

end Reader

namespace Item

variable {t : String}

/-- **Nothing mends an unbalanced text.** -/
theorem parse_append_of_unbalanced (failed : parse t = .error .unbalanced) (s : String) :
    parse (t ++ s) = .error .unbalanced := by
  rw [Reader.parse_eq_result, Reader.result_eq_unbalanced_iff] at failed
  rw [Reader.parse_append, Reader.result_eq_unbalanced_iff]
  exact Reader.lists_read_of_broken failed _

/-- **An unfinished text can be finished.** -/
theorem exists_parse_append_of_unfinished {what : Unfinished}
    (failed : parse t = .error (.unfinished what)) : ∃ s items, parse (t ++ s) = .ok items := by
  have sound : (Reader.start.read t.toList).lists ≠ .broken := by
    intro broken
    rw [Reader.parse_eq_result, (Reader.result_eq_unbalanced_iff _).2 broken] at failed
    cases failed
  obtain ⟨items, finished⟩ := Reader.exists_result_ending sound
  refine ⟨String.ofList (Reader.start.read t.toList).ending, items, ?_⟩
  rw [Reader.parse_append, String.toList_ofList, finished]

/-- **After whole lines that can be read, what follows is read as if it stood
alone.** -/
theorem parse_append_of_ended {items : List Item} (done : parse t = .ok items)
    (ended : t = "" ∨ t.toList.getLast? = some '\n') (s : String) :
    parse (t ++ s) = (parse s).map (items ++ ·) := by
  rw [Reader.parse_eq_result] at done
  have again := Reader.eq_start_above (Reader.scan_read_of_result done ended) done
  rw [Reader.parse_append, again, Reader.read_above, Reader.result_above,
    ← Reader.parse_eq_result]

/-- **Reading and cutting.** A text that is unbalanced stays so, whatever follows.
One that is unfinished can be finished. After one that is read and holds whole
lines only, what follows is read as if it stood alone: its items come after the
first ones, and where it cannot be read the reason is the same. -/
theorem parse_composes (t : String) :
    (parse t = .error .unbalanced → ∀ s, parse (t ++ s) = .error .unbalanced) ∧
    (∀ what, parse t = .error (.unfinished what) → ∃ s items, parse (t ++ s) = .ok items) ∧
    (∀ items, parse t = .ok items → (t = "" ∨ t.toList.getLast? = some '\n') →
      ∀ s, parse (t ++ s) = (parse s).map (items ++ ·)) :=
  ⟨parse_append_of_unbalanced, fun _ => exists_parse_append_of_unfinished,
    fun _ => parse_append_of_ended⟩

/-- A bar after a parenthesis too many, a list that ends inside a literal with a
doubled quote, and a line with a parenthesis in a comment, before a line that is
cut off. -/
theorem parse_composes_at_cuts :
    (parse "a) ; b" = .error .unbalanced ∧ parse ("a) ; b" ++ "|\n(") = .error .unbalanced) ∧
    (parse "((a) \"b\"\"" = .error (.unfinished .stringLiteral) ∧
      ∃ s items, parse ("((a) \"b\"\"" ++ s) = .ok items) ∧
    (parse "(a |)|) ; (\n" = .ok [.list [.symbol "a", .symbol ")"]] ∧
      parse ("(a |)|) ; (\n" ++ "b (") =
        (parse "b (").map ([.list [.symbol "a", .symbol ")"]] ++ ·)) := by
  have unbalanced : parse "a) ; b" = .error .unbalanced := by cbv
  have unfinished : parse "((a) \"b\"\"" = .error (.unfinished .stringLiteral) := by cbv
  have whole : parse "(a |)|) ; (\n" = .ok [.list [.symbol "a", .symbol ")"]] := by cbv
  exact ⟨⟨unbalanced, (parse_composes _).1 unbalanced _⟩,
    ⟨unfinished, (parse_composes _).2.1 _ unfinished⟩,
    ⟨whole, (parse_composes _).2.2 _ whole (.inr (by decide)) _⟩⟩

end Item

end SmtDialogue
