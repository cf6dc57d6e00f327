import SmtDialogue.Session.Event
import SmtDialogue.Smt.Command

/-!
# Histories

What a solver has seen so far. How a solver goes on may depend on all of it, and
for most solvers depends on how many questions they have been asked, so a
history keeps that number beside the events. The events are kept latest first,
since they are added one by one; `toList` gives them in the order in which they
have happened, and every operation says what it does to that list.
-/

namespace SmtDialogue

/-- Whether an event asks the solver for an answer. -/
def Event.isQuestion : Event → Bool
  | .written command => Smt.isQuestion command
  | .checked => true
  | _ => false

/-- What a solver has seen. -/
structure History where
  /-- The events, latest first. -/
  latestFirst : List Event := []
  /-- The number of questions among them. -/
  questions : Nat := 0
  /-- The number is that of the questions among the events. -/
  questions_eq : questions = latestFirst.countP Event.isQuestion := by rfl

namespace History

/-- Nothing has been seen. -/
def empty : History := {}

/-- The events, oldest first. -/
def toList (h : History) : List Event :=
  h.latestFirst.reverse

/-- One more event. -/
def add (h : History) (e : Event) : History where
  latestFirst := e :: h.latestFirst
  questions := if e.isQuestion then h.questions + 1 else h.questions
  questions_eq := by
    rw [List.countP_cons, ← h.questions_eq]
    split <;> rfl

/-- Some more events, oldest first. -/
def addAll (h : History) (es : List Event) : History :=
  es.foldl add h

/-- What has been added to an earlier history, oldest first. -/
def since (h earlier : History) : List Event :=
  (h.latestFirst.take (h.latestFirst.length - earlier.latestFirst.length)).reverse

@[simp] theorem toList_add (h : History) (e : Event) : (h.add e).toList = h.toList ++ [e] := by
  simp [toList, add]

@[simp] theorem addAll_nil (h : History) : h.addAll [] = h := rfl

@[simp] theorem addAll_cons (h : History) (e : Event) (es : List Event) :
    h.addAll (e :: es) = (h.add e).addAll es := rfl

@[simp] theorem toList_addAll (h : History) (es : List Event) :
    (h.addAll es).toList = h.toList ++ es := by
  induction es generalizing h with
  | nil => simp
  | cons e es ih => simp [ih]

/-- What has been added since a history is what was added to it. -/
theorem since_addAll (h : History) (es : List Event) : (h.addAll es).since h = es := by
  have all : (h.addAll es).latestFirst = es.reverse ++ h.latestFirst := by
    rw [← List.reverse_inj, ← toList, toList_addAll, toList]
    simp
  simp [since, all]

end History

end SmtDialogue
