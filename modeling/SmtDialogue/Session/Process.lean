import SmtDialogue.Session.History
import SmtDialogue.Text.LineReader

/-!
# Solver processes

A process takes one command at a time and prints. How it behaves is given by a
function from the commands that it has taken before and the command at hand to
what it does with it: refuse it, or take it and print, end, or close its output.
Nothing else is known of a process, so whatever is shown for all behaviours holds
of every solver.

What it prints arrives in whole lines, whose ends may be changed on the way
(`Newlines`), and they wait in a queue until they are read. The end of its output
is a mark in the same queue, behind an unfinished last line if there is one. An
answer is read line by line until the lines read are complete.

What a process prints at once is in the queue before its answer is looked for.
What it prints later comes while a reader waits, and so a pause in the queue is
before it. A reader whose deadline has passed from the start does not wait. Nor
does one whose deadline is too far away for any wait: it fails at the first pause
without ending the process, and what comes after the pause is left for the next
reading.

What does not come before the deadline might as well never come, since the
process is killed then. A question for which nothing more comes has therefore run
out of time; without a deadline it would wait for ever, which counts as the same.
-/

namespace SmtDialogue

/-- What a process does with a command that it takes. -/
structure Reaction where
  /-- What it prints at once. -/
  output : String := ""
  /-- What it prints later on, each piece while a reader waits. -/
  later : List String := []
  /-- What it prints on its error channel. -/
  errors : String := ""
  /-- Whether it ends. -/
  ends : Bool := false
  /-- Whether it closes its output, and goes on. -/
  closesOutput : Bool := false
deriving DecidableEq, Repr

/-- The text that is printed in a reaction. -/
def Reaction.printed (r : Reaction) : String :=
  r.output ++ String.join r.later

/-- Whether all that is printed in a reaction comes as long as a reader waits for
it. -/
def Reaction.InTime (deadline : Option Seconds) (r : Reaction) : Prop :=
  r.later = [] ∨ deadline.all Seconds.allowsWait = true

/-- What becomes of a command. -/
inductive Reception where
  /-- The process does not take it. -/
  | refused (reason : String)
  /-- The process takes it. -/
  | taken (reaction : Reaction)
deriving DecidableEq, Repr

/-- What a process does, by the commands that it has taken and the command at
hand. -/
abbrev Behaviour := History → String → Reception

/-- What waits to be read of the output of a process. -/
inductive Chunk where
  /-- A line, with its line feed unless it is the unfinished last one. -/
  | line (text : String)
  /-- A pause: what is behind it comes while a reader waits. -/
  | pause
  /-- The end of the output. -/
  | ended
deriving DecidableEq, Repr

/-- A solver process. -/
structure Process where
  /-- The name of the solver, for messages. -/
  solver : String
  /-- How it behaves. -/
  behaviour : Behaviour
  /-- How the ends of the lines that it prints arrive. -/
  newlines : Newlines := .universal
  /-- The commands that it has taken. -/
  history : History := .empty
  /-- Whether it is running. -/
  alive : Bool := true
  /-- Whether its output is open. -/
  outputOpen : Bool := true
  /-- What waits to be read. -/
  queue : List Chunk := []
  /-- The reader of its output. -/
  reader : LineReader := {}
  /-- The latest lines of its error channel, oldest first. -/
  errorLines : List String := []
  /-- The reader of its error channel. -/
  errorReader : LineReader := {}

namespace Process

/-- The number of lines of the error channel that are kept. -/
def keptErrorLines : Nat := 20

/-- The reason for which an ended process takes no input. -/
def brokenPipe : String := "[Errno 32] Broken pipe"

/-! ## What a process prints -/

/-- More output. -/
def print (p : Process) (text : String) : Process :=
  if p.outputOpen then
    let (full, reader) := p.reader.feed p.newlines text
    { p with queue := p.queue ++ full.map .line, reader }
  else p

/-- A pause before more output. -/
def pause (p : Process) : Process :=
  if p.outputOpen then { p with queue := p.queue ++ [.pause] } else p

/-- More output in pieces, each after a pause. -/
def printLater (p : Process) (pieces : List String) : Process :=
  pieces.foldl (fun p piece => p.pause.print piece) p

/-- The end of the output: the begun line arrives as it is, then the mark. -/
def closeOutput (p : Process) : Process :=
  if p.outputOpen then
    { p with
      queue := p.queue ++ p.reader.close.map .line ++ [.ended]
      reader := {}
      outputOpen := false }
  else p

/-- More lines of the error channel; of all of them the latest are kept. -/
def keepErrors (p : Process) (lines : List String) : Process :=
  let all := p.errorLines ++ lines
  { p with errorLines := all.drop (all.length - keptErrorLines) }

/-- More text on the error channel. -/
def printError (p : Process) (text : String) : Process :=
  let (full, errorReader) := p.errorReader.feed p.newlines text
  { p.keepErrors full with errorReader }

/-- The end of the process: both channels close. -/
def finish (p : Process) : Process :=
  let p := { p.keepErrors p.errorReader.close with errorReader := {} }
  { p.closeOutput with alive := false }

/-- All that is printed in a reaction. -/
def printAll (p : Process) (r : Reaction) : Process :=
  ((p.printError r.errors).print r.output).printLater r.later

/-- What happens to a process that reacts to a command. -/
def react (p : Process) (r : Reaction) : Process :=
  let p := p.printAll r
  if r.ends then p.finish else if r.closesOutput then p.closeOutput else p

/-! ## Writing and reading -/

/-- Writes a command. An ended process takes none. -/
def send (command : String) (p : Process) : Reply Process Unit :=
  let refuse (reason : String) : Reply Process Unit :=
    { outcome := .error (.inputRefused p.solver reason), state := p }
  if p.alive then
    match p.behaviour p.history command with
    | .refused reason => refuse reason
    | .taken reaction =>
      { outcome := .ok ()
        state := { p with history := p.history.add (.written command) }.react reaction
        events := [.written command] }
  else refuse brokenPipe

/-- Kills the process, unless it has ended by itself. -/
def kill (p : Process) : Process × List Event :=
  if p.alive then (p.finish, [.killed]) else (p, [])

/-- What comes of gathering lines for an answer. -/
inductive Gathered where
  /-- A complete answer. -/
  | answer (text : String)
  /-- Lines that no further line can complete. -/
  | broken (error : ReadError) (text : String)
  /-- The end of the output after some lines. -/
  | ended (text : String)
  /-- No more lines after some. -/
  | silent (text : String)
deriving DecidableEq, Repr

/-- Takes lines from a queue, on top of those read, until they are a complete
answer; `waits` is whether pauses are waited for. -/
def gather (waits : Bool) (read : String) : List Chunk → Gathered × List Chunk
  | [] => (.silent read, [])
  | .ended :: rest => (.ended read, rest)
  | .pause :: rest => if waits then gather waits read rest else (.silent read, rest)
  | .line text :: rest =>
    match Item.isComplete (read ++ text) with
    | .ok true => (.answer (read ++ text), rest)
    | .ok false => gather waits (read ++ text) rest
    | .error e => (.broken e (read ++ text), rest)

/-- The kept lines of the error channel, for the message that the process has
gone. -/
def errorDetail (p : Process) : String :=
  "; ".intercalate (p.errorLines.map Text.trim)

/-- What becomes of a process that has run out of lines before its answer is
complete. It is killed at the deadline; a deadline that is too far away to be
waited for is an error, and the process goes on. -/
def expire (deadline : Option Seconds) (p : Process) : Reply Process String :=
  match deadline.filter (!·.canBeWaited) with
  | some d => { outcome := .error (.deadlineUnusable d), state := p }
  | none =>
    let (p, events) := p.kill
    { outcome := .error (.timeout p.solver deadline), state := p, events }

/-- Reads one answer. A process that does not give one is killed. Without a
deadline that can be put on the clock nothing is read. -/
def read (deadline : Option Seconds) (p : Process) : Reply Process String :=
  match deadline.filter (!·.isOnClock) with
  | some d => { outcome := .error (.deadlineUnusable d), state := p }
  | none =>
    let (gathered, rest) := gather (deadline.all Seconds.allowsWait) "" p.queue
    let p := { p with queue := rest }
    match gathered with
    | .answer text => { outcome := .ok text, state := p }
    | .broken e text => { outcome := .error (.ofReadError text e), state := p }
    | .ended text => { outcome := .error (.exited p.solver p.errorDetail text), state := p }
    | .silent _ => p.expire deadline

/-- Writes a command and reads the answer. -/
def ask (deadline : Option Seconds) (command : String) (p : Process) : Reply Process String :=
  (p.send command).andThen fun _ p => p.read deadline

/-- Ends the process: by asking it to when that is wanted and it is still
running, and by killing it when it has not ended then. -/
def stop (graceful : Bool) (p : Process) : Process × List Event :=
  let asked := if graceful && p.alive then p.send "(exit)" else { outcome := .ok (), state := p }
  let (p, events) := asked.state.kill
  (p, asked.events ++ events)

/-! ## Laws -/

/-- An ended process is not running. -/
@[simp] theorem alive_finish (p : Process) : p.finish.alive = false := rfl

/-- After a kill the process has ended. -/
@[simp] theorem alive_kill (p : Process) : p.kill.1.alive = false := by
  unfold kill
  split
  · exact alive_finish _
  · next h => simpa using h

end Process

end SmtDialogue
