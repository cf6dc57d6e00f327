import SmtDialogue.Expr.Combine
import SmtDialogue.Smt.Command

/-!
# Scripts

A whole problem as one text that any solver can read from a file: all
declarations, then all assertions, and on request the check and the values of
all variables in the order of their first occurrence.
-/

namespace SmtDialogue.Smt

/-- What a script has besides the problem. -/
structure ScriptOptions where
  /-- The logic to set; none when empty. -/
  logic : String := ""
  /-- Whether the script asks for satisfiability. -/
  checkSat : Bool := true
  /-- Whether a script that asks for satisfiability also asks for values. -/
  getValues : Bool := true

/-- The declarations and assertions of several expressions, and the table of
declared variables after them, from a table on. -/
def collectAssertions : SortTable → List Expr →
    Except WriteError (List Command × List Command × SortTable)
  | declared, [] => .ok ([], [], declared)
  | declared, e :: es => do
    let new ← newDeclarations declared e
    let term ← Term.ofExpr e
    let (declarations, assertions, final) ← collectAssertions (declared ++ new) es
    return (declareAll new ++ declarations, .assert term :: assertions, final)

/-- The lines of the script of several expressions. -/
def scriptLines (options : ScriptOptions) (es : List Expr) : Except WriteError (List String) := do
  let (declarations, assertions, declared) ← collectAssertions [] es
  let logic := if options.logic.isEmpty then [] else [(Command.setLogic options.logic).text]
  let names := ((Expr.vars es).map Expr.name).filter declared.contains
  let request ← getValueOf names
  let values := if options.getValues && !names.isEmpty then [request.text] else []
  let check := if options.checkSat then Command.checkSat.text :: values else []
  return ["; generated by satisfiability", Command.produceModels.text] ++ logic ++ [""] ++
    declarations.map Command.text ++ [""] ++ assertions.map Command.text ++ check

/-- The script of several expressions. -/
def script (options : ScriptOptions) (es : List Expr) : Except WriteError String := do
  return "\n".intercalate (← scriptLines options es) ++ "\n"

end SmtDialogue.Smt
