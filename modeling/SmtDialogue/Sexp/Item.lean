import SmtDialogue.Text.Quoted

/-!
# S-expressions

What a solver prints is a sequence of items: symbols, string literals and
lists of items. A symbol written between bars has lost its bars here, so that
it is the same item as the bare symbol of that name; a string literal is kept
apart from every symbol, although most readers of items look at its text only.
-/

namespace SmtDialogue

/-- One item of an S-expression text. -/
inductive Item where
  /-- A bare atom, or a quoted symbol without its bars. -/
  | symbol (name : String)
  /-- A string literal, without its quotes and with doubled quotes undone. -/
  | literal (text : String)
  /-- A parenthesised list. -/
  | list (items : List Item)
deriving Repr, Inhabited

namespace Item

/-- The text of a symbol or a literal; a list has none. -/
def text? : Item → Option String
  | symbol name => some name
  | literal text => some text
  | list _ => none

/-- Whether the item is a symbol or literal with the given text. -/
def hasText (item : Item) (text : String) : Bool :=
  item.text? == some text

@[simp] theorem text?_symbol (name : String) : (symbol name).text? = some name := rfl

@[simp] theorem text?_literal (text : String) : (literal text).text? = some text := rfl

@[simp] theorem text?_list (items : List Item) : (list items).text? = none := rfl

mutual

/-- The item as a message shows it: texts quoted, lists in square brackets. -/
def display : Item → String
  | symbol name => Text.quoted name
  | literal text => Text.quoted text
  | list items => "[" ++ ", ".intercalate (displayAll items) ++ "]"

/-- The items of a list, each as a message shows it. -/
def displayAll : List Item → List String
  | [] => []
  | item :: items => item.display :: displayAll items

end

/-- The item as running text: a text stands as it is. -/
def plain (item : Item) : String :=
  item.text?.getD item.display

/-- What is shown of a list is what is shown of its items. -/
@[simp] theorem displayAll_eq_map (items : List Item) : displayAll items = items.map display := by
  induction items with
  | nil => rfl
  | cons item items ih => simp [displayAll, ih]

/-- Induction over items, with the induction hypothesis for every member of a
list. -/
theorem induct {motive : Item → Prop} (symbol : ∀ name, motive (symbol name))
    (literal : ∀ text, motive (literal text))
    (list : ∀ items, (∀ item ∈ items, motive item) → motive (list items)) :
    ∀ item, motive item :=
  @Item.rec motive (fun items => ∀ item ∈ items, motive item) symbol literal list
    (fun _ h => nomatch h)
    (fun _ _ first rest item h => (List.mem_cons.1 h).elim (· ▸ first) (rest item))

end Item

end SmtDialogue
