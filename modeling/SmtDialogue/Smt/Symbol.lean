import SmtDialogue.Smt.Error

/-!
# Symbols

A variable name is written as it is when it has the form of a simple symbol and
is no reserved word, and between bars otherwise. Between bars every character
stands for itself, but a bar would end the symbol and a backslash is not
allowed, so a name with either cannot be written at all.
-/

namespace SmtDialogue.Smt

/-- The punctuation that simple symbols may have. -/
def symbolMarks : List Char :=
  "~!@$%^&*_+=<>.?/-".toList

/-- Whether a simple symbol may start with a character. -/
def startsSymbol (c : Char) : Bool :=
  c.isAlpha || symbolMarks.contains c

/-- Whether a simple symbol may have a character after its first. -/
def continuesSymbol (c : Char) : Bool :=
  startsSymbol c || c.isDigit

/-- Words that no simple symbol may be. -/
def reservedWords : List String :=
  ["_", "!", "as", "let", "exists", "forall", "match", "par",
   "true", "false", "not", "and", "or", "xor", "ite", "distinct",
   "BINARY", "DECIMAL", "HEXADECIMAL", "NUMERAL", "STRING"]

/-- Whether a name has the form of a simple symbol. -/
def isSimple (name : String) : Bool :=
  match name.toList with
  | [] => false
  | c :: rest => startsSymbol c && rest.all continuesSymbol

/-- Whether a name is written without bars. -/
def isPlainName (name : String) : Bool :=
  isSimple name && !reservedWords.contains name

/-- Whether a name can be written at all. -/
def isWritable (name : String) : Bool :=
  isPlainName name || !(name.toList.contains '|' || name.toList.contains '\\')

/-- The written form of a writable name. -/
def symbolText (name : String) : String :=
  if isPlainName name then name else "|" ++ name ++ "|"

/-- The written form of a name, or the reason why there is none. -/
def symbol (name : String) : Except WriteError String :=
  if isWritable name then .ok (symbolText name) else .error (.unwritable name)

/-- The written form of a value; a negative integer is a negation. -/
def literalText : Value → String
  | .bool b => if b then "true" else "false"
  | .int n => if n < 0 then s!"(- {n.natAbs})" else toString n.natAbs

end SmtDialogue.Smt
