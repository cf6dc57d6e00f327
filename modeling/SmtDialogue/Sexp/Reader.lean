import SmtDialogue.Sexp.Item
import SmtDialogue.Sexp.Token

/-!
# Reading S-expressions

Tokens are nested as they come: an opening parenthesis starts a list inside
the current one, a closing one ends it, any other token is an item. A closing
parenthesis that closes nothing cannot be mended by anything that follows, so
the text is *unbalanced* from there on. A text that ends inside a quoted symbol,
a literal or a list is *unfinished*, and more text can complete it.

Whether a text read so far is a complete answer is decided by these two
notions: it holds at least one item and nothing is unfinished.
-/

namespace SmtDialogue

/-- Why a text cannot be read. -/
inductive ReadError where
  /-- A closing parenthesis closes nothing. -/
  | unbalanced
  /-- The text ends too early. -/
  | unfinished (what : Unfinished)
deriving DecidableEq, Repr

/-- Lists under construction. Items are kept last one first. -/
inductive Nesting where
  /-- The items at top level, and the open lists, innermost first. -/
  | nested (top : List Item) (inner : List (List Item))
  /-- A parenthesis closed nothing. -/
  | broken
deriving Repr

namespace Nesting

/-- Nothing has been read. -/
def empty : Nesting := nested [] []

/-- An item at the innermost place. -/
def put (item : Item) : Nesting → Nesting
  | nested top [] => nested (item :: top) []
  | nested top (items :: outer) => nested top ((item :: items) :: outer)
  | broken => broken

/-- One more token. -/
def push : Nesting → Token → Nesting
  | broken, _ => broken
  | nested top inner, .opening => nested top ([] :: inner)
  | nested _ [], .closing => broken
  | nested top (items :: outer), .closing => (nested top outer).put (.list items.reverse)
  | n@(nested ..), .bare text => n.put (.symbol text)
  | n@(nested ..), .barred text => n.put (.symbol text)
  | n@(nested ..), .literal text => n.put (.literal text)

/-- The items, when nothing is broken and every list has been closed. -/
def close : Nesting → Except ReadError (List Item)
  | nested top [] => .ok top.reverse
  | nested _ (_ :: _) => .error (.unfinished .list)
  | broken => .error .unbalanced

@[simp] theorem push_broken (t : Token) : broken.push t = broken := by cases t <;> rfl

@[simp] theorem foldl_push_broken (ts : List Token) : ts.foldl push broken = broken := by
  induction ts with
  | nil => rfl
  | cons t ts ih => simpa using ih

end Nesting

namespace Item

/-- The items of a text. What is broken anywhere wins over what is unfinished
at the end. -/
def parse (text : String) : Except ReadError (List Item) :=
  let (last, tokens) := Scan.between.run text.toList
  match tokens.foldl Nesting.push Nesting.empty with
  | .broken => .error .unbalanced
  | nesting =>
    match last.finish with
    | .error what => .error (.unfinished what)
    | .ok final => (final.foldl Nesting.push nesting).close

/-- Whether a text holds at least one item and leaves nothing unfinished; an
unbalanced text is an error. -/
def isComplete (text : String) : Except ReadError Bool :=
  match parse text with
  | .ok items => .ok (!items.isEmpty)
  | .error (.unfinished _) => .ok false
  | .error .unbalanced => .error .unbalanced

/-- The message of an answer `(error "…")`: its second element, or the empty
text when there is none. Any other item is no error answer. -/
def errorMessage? : Item → Option Item
  | .list (head :: rest) =>
    if head.hasText "error" then some (rest.headD (.symbol "")) else none
  | _ => none

end Item

end SmtDialogue
