import SmtDialogue.Expr.Basic
import SmtDialogue.Number.Shortest
import SmtDialogue.Text.Quoted

/-!
# Operands

Where an expression is expected a caller may pass more than that: a literal, a
list of expressions nested to any depth, and by mistake a text, a fraction or
nothing at all. `Operand` is the type of all of these, and the type that
constructors of variable arrays give back. A mistaken operand is shown in the
message that refuses it, so operands have a display form. An integer with too
many digits has no written form, and neither has an operand with such a member.
-/

namespace SmtDialogue

/-- Anything that can be passed where expressions are expected. -/
inductive Operand where
  /-- An expression. -/
  | expr (e : Expr)
  /-- A truth value. -/
  | bool (b : Bool)
  /-- An integer. -/
  | int (n : Int)
  /-- A number with a fractional part or an exponent. -/
  | real (x : Binary64)
  /-- Nothing. -/
  | absent
  /-- A text. -/
  | text (s : String)
  /-- A list. -/
  | list (items : List Operand)
  /-- A fixed row of items. -/
  | tuple (items : List Operand)
  /-- Items under names. -/
  | record (fields : List (String × Operand))
deriving Repr, Inhabited

namespace Operand

/-- The name of the kind of an operand in messages. -/
def kindName : Operand → String
  | expr _ => "Expr"
  | bool _ => "bool"
  | int _ => "int"
  | real _ => "float"
  | absent => "NoneType"
  | text _ => "str"
  | list _ => "list"
  | tuple _ => "tuple"
  | record _ => "dict"

mutual

/-- The operand as a message shows it. -/
def display : Operand → String
  | expr e => "Expr(" ++ e.op.tag ++ ", " ++ Text.quoted e.name ++ ")"
  | bool b => (Value.bool b).text
  | int n => toString n
  | real x => x.text
  | absent => "None"
  | text s => Text.quoted s
  | list items => "[" ++ ", ".intercalate (displayAll items) ++ "]"
  | tuple items =>
    match displayAll items with
    | [one] => "(" ++ one ++ ",)"
    | all => "(" ++ ", ".intercalate all ++ ")"
  | record fields => "\x7b" ++ ", ".intercalate (displayFields fields) ++ "\x7d"

/-- The members of a list, each as a message shows it. -/
def displayAll : List Operand → List String
  | [] => []
  | item :: items => item.display :: displayAll items

/-- The fields of a record, each as a message shows it. -/
def displayFields : List (String × Operand) → List String
  | [] => []
  | (key, item) :: fields =>
    (Text.quoted key ++ ": " ++ item.display) :: displayFields fields

end

mutual

/-- Whether a message can show the operand: no integer in it is too long to be
written. -/
def isDisplayable : Operand → Bool
  | int n => (Value.int n).isWritable
  | list items => areDisplayable items
  | tuple items => areDisplayable items
  | record fields => haveDisplayable fields
  | expr _ | bool _ | real _ | absent | text _ => true

/-- Whether a message can show each member of a list. -/
def areDisplayable : List Operand → Bool
  | [] => true
  | item :: items => item.isDisplayable && areDisplayable items

/-- Whether a message can show each field of a record. -/
def haveDisplayable : List (String × Operand) → Bool
  | [] => true
  | (_, item) :: fields => item.isDisplayable && haveDisplayable fields

end

/-- Whether the operand is a non-empty text: only such a text names a
variable. -/
def isName : Operand → Bool
  | text s => !s.isEmpty
  | _ => false

/-- Whether a literal or a collection counts as true; expressions never do. -/
def truth? : Operand → Option Bool
  | expr _ => none
  | bool b => some b
  | int n => some (n != 0)
  | real x => some (!x.isZero)
  | absent => some false
  | text s => some (!s.isEmpty)
  | list items => some (!items.isEmpty)
  | tuple items => some (!items.isEmpty)
  | record fields => some (!fields.isEmpty)

/-- The members of a collection. Those of a text are its characters, those of a
record its names; an expression and a single literal have none. -/
def members? : Operand → Option (List Operand)
  | list items => some items
  | tuple items => some items
  | text s => some (s.toList.map fun c => text (String.singleton c))
  | record fields => some (fields.map fun field => text field.1)
  | expr _ | bool _ | int _ | real _ | absent => none

/-- The literal with a given value. -/
def ofValue : Value → Operand
  | .bool b => bool b
  | .int n => int n

end Operand

end SmtDialogue
