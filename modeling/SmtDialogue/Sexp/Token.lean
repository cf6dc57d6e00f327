import SmtDialogue.Text.Blank

/-!
# Tokens

Text is read one character at a time by a small machine. Its state says what
the machine is inside of: nothing, a comment, a bare atom, a quoted symbol, a
string literal, or the place just after a quote in a literal, where it is not
yet known whether the quote ends the literal or is the first half of a doubled
one. Each character moves the machine and completes at most two tokens.

Reading character by character makes the reader a left fold, so that reading a
text piece by piece is reading it whole: see `Scan.run_append`.
-/

namespace SmtDialogue

/-- A token of an S-expression text. -/
inductive Token where
  /-- An opening parenthesis. -/
  | opening
  /-- A closing parenthesis. -/
  | closing
  /-- An atom without quotes. -/
  | bare (text : String)
  /-- A quoted symbol, without its bars. -/
  | barred (text : String)
  /-- A string literal, without its quotes and with doubled quotes undone. -/
  | literal (text : String)
deriving DecidableEq, Repr

namespace Token

/-- The characters of a literal as they are written, each quote doubled. -/
def doubleQuotes : List Char → List Char
  | [] => []
  | c :: rest => if c == '"' then '"' :: '"' :: doubleQuotes rest else c :: doubleQuotes rest

/-- The token as it stands in the text. -/
def source : Token → String
  | opening => "("
  | closing => ")"
  | bare text => text
  | barred text => "|" ++ text ++ "|"
  | literal text => "\"" ++ String.ofList (doubleQuotes text.toList) ++ "\""

end Token

/-- What can be left unfinished when a text ends. -/
inductive Unfinished where
  /-- A quoted symbol without its second bar. -/
  | quotedSymbol
  /-- A string literal without its closing quote. -/
  | stringLiteral
  /-- A list without its closing parenthesis. -/
  | list
deriving DecidableEq, Repr

/-- What the scanner is inside of. Characters read so far are kept last one
first. -/
inductive Scan where
  /-- Between tokens. -/
  | between
  /-- In a comment, which a line feed ends. -/
  | comment
  /-- In a bare atom. -/
  | bare (read : List Char)
  /-- In a quoted symbol, after its first bar. -/
  | barred (read : List Char)
  /-- In a string literal, after its opening quote. -/
  | literal (read : List Char)
  /-- After a quote in a string literal. -/
  | quote (read : List Char)
deriving DecidableEq, Repr

namespace Scan

/-- The text of characters kept last one first. -/
def textOf (read : List Char) : String :=
  String.ofList read.reverse

/-- The scanner at a character where a token may start. -/
def enter (c : Char) : Scan × List Token :=
  if Text.isBlank c then (between, [])
  else if c == ';' then (comment, [])
  else if c == '(' then (between, [.opening])
  else if c == ')' then (between, [.closing])
  else if c == '|' then (barred [], [])
  else if c == '"' then (literal [], [])
  else (bare [c], [])

/-- Whether a character ends a bare atom. -/
def endsBare (c : Char) : Bool :=
  Text.isBlank c || c == '(' || c == ')' || c == ';' || c == '|' || c == '"'

/-- One character: the next state, and the tokens that it completes. -/
def step : Scan → Char → Scan × List Token
  | between, c => enter c
  | comment, c => (if c == '\n' then between else comment, [])
  | bare read, c =>
    if endsBare c then
      let (next, tokens) := enter c
      (next, .bare (textOf read) :: tokens)
    else (bare (c :: read), [])
  | barred read, c =>
    if c == '|' then (between, [.barred (textOf read)]) else (barred (c :: read), [])
  | literal read, c => (if c == '"' then quote read else literal (c :: read), [])
  | quote read, c =>
    if c == '"' then (literal ('"' :: read), [])
    else
      let (next, tokens) := enter c
      (next, .literal (textOf read) :: tokens)

/-- The end of the text: the last tokens, or what is left unfinished. -/
def finish : Scan → Except Unfinished (List Token)
  | between => .ok []
  | comment => .ok []
  | bare read => .ok [.bare (textOf read)]
  | barred _ => .error .quotedSymbol
  | literal _ => .error .stringLiteral
  | quote read => .ok [.literal (textOf read)]

/-- A run over characters: the last state, and the tokens completed on the
way. -/
def run : Scan → List Char → Scan × List Token
  | scan, [] => (scan, [])
  | scan, c :: cs =>
    let (next, tokens) := scan.step c
    let (last, more) := next.run cs
    (last, tokens ++ more)

/-- **Reading piece by piece is reading whole.** -/
theorem run_append (scan : Scan) (s t : List Char) :
    scan.run (s ++ t) =
      (((scan.run s).1.run t).1, (scan.run s).2 ++ ((scan.run s).1.run t).2) := by
  induction s generalizing scan with
  | nil => simp [run]
  | cons c s ih => simp [run, ih, List.append_assoc]

end Scan

/-- The tokens of a text, or what is left unfinished at its end. -/
def Token.scan (text : String) : Except Unfinished (List Token) :=
  let (last, tokens) := Scan.between.run text.toList
  last.finish.map (tokens ++ ·)

end SmtDialogue
