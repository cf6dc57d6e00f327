import SmtDialogue.Solver.FileSystem

/-!
# Backends

Which solvers there are and how each is started. A name is that of a known
solver, of the in-process one, or a path to an executable; paths are brought
into a normal form, and an executable is looked up where its path says or, when
the normal form has no slash, among the executables of the search path.
-/

namespace SmtDialogue

/-- A solver and its command line. -/
structure Backend where
  /-- The name under which the solver is reported. -/
  name : String
  /-- The command line. -/
  argv : List String
deriving DecidableEq, Repr

/-- What the surroundings offer. -/
structure World where
  /-- The executables on the search path. -/
  executables : List String := []
  /-- The solver that the environment asks for; none when empty. -/
  preferred : String := ""
  /-- What paths lead to. -/
  files : FileSystem := .bare

/-! ## Resolution -/

namespace Backend

/-- The name of the in-process solver. -/
def inProcess : String := "z3-api"

/-- The solvers whose command lines are known. -/
def known : List Backend :=
  [⟨"z3", ["z3", "-smt2", "-in"]⟩,
   ⟨"cvc5", ["cvc5", "--lang=smt2", "--incremental", "--produce-models"]⟩]

/-- The names of all solvers that need no path. -/
def knownNames : List String :=
  known.map name ++ [inProcess]

/-- The solver of a name, with a given command line if there is one. -/
def resolve (solver : String) (command : List String) : Backend :=
  if !command.isEmpty then ⟨solver, command⟩
  else
    match known.find? (·.name == solver) with
    | some backend => backend
    | none => ⟨Path.baseName solver, [Path.normal solver]⟩

end Backend

namespace World

/-- Whether an executable can be run. One with a slash is looked up where it
says, any other on the search path, whose directories are no executables under
the names that they have for themselves and the one above. -/
def canRun (w : World) (exe : String) : Bool :=
  if Path.hasSlash exe then (w.files.find exe).any w.files.canRun
  else Path.isName exe && exe != ".." && w.executables.contains exe

/-- Whether a solver is available. -/
def isAvailable (w : World) (solver : String) : Bool :=
  solver == Backend.inProcess ||
    (Backend.resolve solver []).argv.head?.any w.canRun

/-- The solver to use when none is named. -/
def defaultSolver (w : World) : String :=
  if w.preferred.isEmpty then "z3" else w.preferred

/-- The solver that the environment asks for, if it is available, and else the
first available one of a list. -/
def pick (w : World) (candidates : List String) : Option String :=
  if !w.preferred.isEmpty && w.isAvailable w.preferred then some w.preferred
  else candidates.find? w.isAvailable

end World

end SmtDialogue
