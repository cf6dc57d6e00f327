import SmtDialogue.Expr.Evaluate
import SmtDialogue.Solver.Fault
import SmtDialogue.Text.Digit

/-!
# Answers

Reading what a solver answers. The answer to a check is one of three words; the
answer to a request for values is one list of pairs of a name and a value. An
answer may report an error instead. A value is a truth value, a numeral, or the
negation of a numeral. A numeral that is too long is recognised as such and not
read.
-/

namespace SmtDialogue

/-- The status of a set of assertions. -/
inductive Status where
  /-- Satisfiable. -/
  | sat
  /-- Unsatisfiable. -/
  | unsat
  /-- Not decided. -/
  | unknown
deriving DecidableEq, Repr

namespace Status

/-- The word for a status. -/
def word : Status → String
  | sat => "sat"
  | unsat => "unsat"
  | unknown => "unknown"

/-- The status that a response names, blanks at its ends aside. -/
def ofResponse (response : String) : Except Fault Status :=
  match [sat, unsat, unknown].find? fun s => s.word == Text.trim response with
  | some status => .ok status
  | none => .error (.unexpectedStatus response)

end Status

/-- A model: names with their values, each name once. -/
abbrev Model := List (String × Value)

namespace Model

/-- The value of a name. -/
def valueOf? (m : Model) (name : String) : Option Value :=
  m.lookup name

/-- Sets the value of a name, at its place if it is there and else at the
end. -/
def set (m : Model) (name : String) (value : Value) : Model :=
  if m.any (·.1 == name) then
    m.map fun entry => if entry.1 == name then (name, value) else entry
  else m ++ [(name, value)]

/-- Sets the values of all names of another model. -/
def update (m other : Model) : Model :=
  other.foldl (fun m entry => m.set entry.1 entry.2) m

/-- A model as values to be stored. -/
def toAssignment (m : Model) : Expr.Assignment :=
  m.map fun (name, value) => (name, some value)

end Model

namespace Answer

/-- The numeral that an item holds, and whether it is negated. A numeral must be
a symbol, except under a negation. -/
def numeral? : Item → Option (Bool × String)
  | .symbol name => some (false, name)
  | .list [sign, magnitude] =>
    if sign.hasText "-" then magnitude.text?.map (true, ·) else none
  | _ => none

/-- The value that an item denotes. A truth value is recognised by its text. -/
def value (item : Item) : Except Fault Value :=
  if item.hasText "true" then .ok (.bool true)
  else if item.hasText "false" then .ok (.bool false)
  else
    match numeral? item with
    | none => .error (.unsupportedValue item)
    | some (negated, digits) =>
      match Text.numeral? digits with
      | none => .error (.unsupportedValue item)
      | some n =>
        if Text.longestNumeral < digits.length then .error (.numeralTooLong digits.length)
        else .ok (.int (if negated then -(n : Int) else n))

/-- The items of a response. -/
def items (response : String) : Except Fault (List Item) :=
  match Item.parse response with
  | .ok items => .ok items
  | .error e => .error (.ofReadError response e)

/-- The status that a response to a check gives. -/
def status (solver response : String) : Except Fault Status := do
  match ← items response with
  | [item] =>
    match item.errorMessage? with
    | some message => throw (.reported solver message response)
    | none => Status.ofResponse response
  | _ => Status.ofResponse response

/-- The name and the item of an entry. -/
def entry (response : String) : Item → Except Fault (String × Item)
  | .list [.symbol name, value] => .ok (name, value)
  | .list [.literal name, value] => .ok (name, value)
  | other => .error (.malformedEntry other response)

/-- The values of all entries, on top of those read before. -/
def entries (response : String) (found : Model) : List Item → Except Fault Model
  | [] => .ok found
  | item :: rest => do
    let (name, written) ← entry response item
    let v ← value written
    entries response (found.set name v) rest

/-- The values of some names that all have one. -/
def select (found : Model) (names : List String) : Model :=
  names.foldl (fun m name =>
    match found.valueOf? name with
    | some v => m.set name v
    | none => m) []

/-- The values that a response to a request gives for the requested names. -/
def values (solver response : String) (names : List String) : Except Fault Model := do
  match ← items response with
  | [.list pairs] =>
    match (Item.list pairs).errorMessage? with
    | some message => throw (.reported solver message response)
    | none =>
      let found ← entries response [] pairs
      let missing := names.filter fun name => (found.valueOf? name).isNone
      if missing.isEmpty then return select found names
      else throw (.missingValues missing response)
  | _ => throw (.malformedAnswer response)

end Answer

end SmtDialogue
