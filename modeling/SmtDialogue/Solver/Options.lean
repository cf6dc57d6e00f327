import SmtDialogue.Number.Shortest

/-!
# Options of a session

How a solver is started and how long it may take to answer. A deadline is kept
as it was given, whole or with a fraction, because messages repeat it.
-/

namespace SmtDialogue

/-- A length of time in seconds. -/
inductive Seconds where
  /-- A whole number. -/
  | whole (n : Int)
  /-- A number with a fraction. -/
  | fraction (x : Binary64)
deriving DecidableEq, Repr

namespace Seconds

/-- The length as text. -/
def text : Seconds → String
  | whole n => toString n
  | fraction x => x.text

/-- The length in milliseconds, cut to an integer; none when it is infinite or
no number, also by the multiplication. -/
def milliseconds? : Seconds → Option Int
  | whole n => some (n * 1000)
  | fraction x => (x.scale 1000).truncate?

/-- The length as a double-precision number. -/
def toBinary64 : Seconds → Binary64
  | whole n => .ofInt n
  | fraction x => x

/-- Whether the length is a number. -/
def isNumber (d : Seconds) : Bool :=
  d.toBinary64 != .nan

/-- Whether a moment at this distance can be named on a clock that counts in
double precision: a whole number must not be too large for that. -/
def isOnClock : Seconds → Bool
  | whole n => (Binary64.ofInt n).isFinite
  | fraction _ => true

/-- The longest time that can be waited for at once: as many seconds as there
are whole ones in `2^63` nanoseconds. -/
def longestWait : Nat := 9223372036

/-- Whether the length can be waited for. -/
def canBeWaited (d : Seconds) : Bool :=
  !d.toBinary64.exceeds longestWait

/-- Whether anything can come while it is waited: the length is positive, and can
be waited for. -/
def allowsWait (d : Seconds) : Bool :=
  d.toBinary64.exceeds 0 && d.canBeWaited

end Seconds

/-- The options of a session. -/
structure SessionOptions where
  /-- A command line in place of the solver's own; none when empty. -/
  command : List String := []
  /-- Arguments appended to the command line. -/
  extraArgs : List String := []
  /-- The deadline of each question, without which the session waits. -/
  deadline : Option Seconds := none
  /-- The logic to set at the start; none when empty. -/
  logic : String := ""
deriving DecidableEq, Repr

end SmtDialogue
