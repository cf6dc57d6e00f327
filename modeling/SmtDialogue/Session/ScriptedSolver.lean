import SmtDialogue.Session.Basic

/-!
# Scripted solvers

A solver that follows a script: the answers to its questions are given in
advance, one after the other, and so is everything else that it does. A script
serves a process and an in-process solver alike.

Several solvers may share a script. Each answer then goes to the solver that
asks next, whichever it is, so that for each of them the answers that the others
have taken are gone.
-/

namespace SmtDialogue

/-- What a scripted solver does. -/
structure ScriptedSolver where
  /-- The reactions to the questions put to a process, in order. -/
  answers : Array Reaction := #[]
  /-- How many of the answers others have taken. -/
  answersGone : Nat := 0
  /-- What a process prints besides, by what a command starts with. -/
  noise : List (String × String) := []
  /-- A text whose commands a process refuses. -/
  refused : Option String := none
  /-- Whether a process goes on when it is asked to end. -/
  ignoresExit : Bool := false
  /-- Why no process can be started, if so. -/
  launchError : Option String := none
  /-- What an in-process solver says to its checks, in order. -/
  verdicts : Array Verdict := #[]
  /-- How many of the verdicts others have taken. -/
  verdictsGone : Nat := 0
  /-- The values of constants in the model of an in-process solver. -/
  values : List (String × ModelValue) := []
  /-- Texts whose assertions an in-process solver rejects, with the reasons. -/
  rejections : List (String × String) := []

namespace ScriptedSolver

/-- Whether a text occurs in a row of characters. -/
def occursIn (part : List Char) : List Char → Bool
  | [] => part.isEmpty
  | c :: cs => part.isPrefixOf (c :: cs) || occursIn part cs

/-- Whether a text occurs in a command. -/
def mentions (command part : String) : Bool :=
  occursIn part.toList command.toList

/-- What is printed besides the answer to a command. -/
def noiseFor (s : ScriptedSolver) (command : String) : String :=
  String.join ((s.noise.filter fun entry => Smt.startsWith command entry.1).map Prod.snd)

/-- The reaction to a command, by the commands before it. Each question takes the
next answer; when the answers are used up, the process ends. -/
def reaction (s : ScriptedSolver) (history : History) (command : String) : Reaction :=
  if command == "(exit)" then { ends := !s.ignoresExit }
  else if Smt.isQuestion command then
    s.answers.getD (s.answersGone + history.questions) { ends := true }
  else {}

/-- The behaviour of a scripted process. -/
def behaviour (s : ScriptedSolver) : Behaviour := fun history command =>
  if s.refused.any (mentions command) then .refused "write refused"
  else
    let r := s.reaction history command
    .taken { r with output := s.noiseFor command ++ r.output }

/-- The verdict on a check, by the calls before it. When the verdicts are used
up, nothing is decided. -/
def verdict (s : ScriptedSolver) (history : History) : Verdict :=
  s.verdicts.getD (s.verdictsGone + history.questions) (.unknown "incomplete")

/-- The value of a constant; one that the script does not name is zero or
false. -/
def valueFor (s : ScriptedSolver) (name : String) (sort : SmtSort) : ModelValue :=
  match s.values.lookup name with
  | some value => value
  | none =>
    match sort with
    | .int => .plain (.int 0)
    | .bool => .plain (.bool false)

/-- Why an assertion is rejected, if it is. -/
def rejectionFor (s : ScriptedSolver) (command : String) : Option String :=
  (s.rejections.find? fun entry => mentions command entry.1).map Prod.snd

/-- The behaviour of a scripted in-process solver. -/
def binding (s : ScriptedSolver) : Binding where
  verdict := s.verdict
  value := fun _ => s.valueFor
  rejection := fun _ => s.rejectionFor

/-- What a session finds under a script. The lines of a script arrive as they are
written there. -/
def host (s : ScriptedSolver) (world : World) : Host where
  world := world
  launchError := s.launchError
  behaviour := s.behaviour
  newlines := .asPrinted
  binding := s.binding

/-- A solver that follows a script from now on. -/
def direct (s : ScriptedSolver) : Channel → Channel
  | .process p => .process { p with behaviour := s.behaviour }
  | .inProcess b => .inProcess { b with binding := s.binding }

/-- A session whose solver follows a script from now on. -/
def directSession (s : ScriptedSolver) (session : Session) : Session :=
  { session with
    phase := match session.phase with
      | .running channel => .running (s.direct channel)
      | .failed channel => .failed (s.direct channel)
      | other => other }

end ScriptedSolver

/-- A script with what all solvers that follow it have taken of it. -/
structure SharedScript where
  /-- The script. -/
  script : ScriptedSolver := {}
  /-- How many answers have been taken. -/
  answersTaken : Nat := 0
  /-- How many verdicts have been taken. -/
  verdictsTaken : Nat := 0

namespace SharedScript

/-- The script after some more events at a solver that follows it. -/
def advance (s : SharedScript) (events : List Event) : SharedScript :=
  let checks := events.countP (· == .checked)
  { s with
    answersTaken := s.answersTaken + (events.countP Event.isQuestion - checks)
    verdictsTaken := s.verdictsTaken + checks }

/-- The script for one of the solvers, by what that one has seen. All questions
of a solver are of one kind, so they are what it has taken of its kind of
answers; the other kind is of no use to it. -/
def forSolver (s : SharedScript) (trace : History) : ScriptedSolver :=
  { s.script with
    answersGone := s.answersTaken - trace.questions
    verdictsGone := s.verdictsTaken - trace.questions }

end SharedScript

end SmtDialogue
