import SmtDialogue.Text.LineBreak

/-!
# Lines as they arrive

A text that comes in pieces is handed on in lines, each with its line feed. On
the way, a carriage return becomes a line feed, and so does a carriage return
with a line feed after it, unless line ends are handed on as they have been
printed (`Newlines`).

After a piece, the reader remembers two things: the line that has been begun,
and whether the piece has ended with a carriage return. Such a carriage return is
held back, as a line feed may still come that belongs to it. Where a text is cut
into pieces is therefore of no account (`LineReader.feed_append`).
-/

namespace SmtDialogue

/-! ## The ends of lines -/

namespace Text

/-- What arrives with a character: a carriage return that has been held back is a
line feed by itself, unless the character is the line feed that belongs to it,
and a new one is held back. -/
def arriving (held : Bool) (c : Char) : List Char :=
  if c = '\n' then ['\n']
  else (if held then ['\n'] else []) ++ if c = '\r' then [] else [c]

/-- What arrives of some characters, and whether a carriage return is held back
then. -/
def arrivals (held : Bool) : List Char → List Char × Bool
  | [] => ([], held)
  | c :: cs =>
    let (later, still) := arrivals (c == '\r') cs
    (arriving held c ++ later, still)

/-- Characters may come in pieces. -/
theorem arrivals_append (held : Bool) (cs ds : List Char) :
    arrivals held (cs ++ ds) =
      ((arrivals held cs).1 ++ (arrivals (arrivals held cs).2 ds).1,
        (arrivals (arrivals held cs).2 ds).2) := by
  induction cs generalizing held with
  | nil => rfl
  | cons c cs ih => simp only [List.cons_append, arrivals, ih, List.append_assoc]

/-- Without a carriage return, characters arrive as they are. -/
theorem arrivals_of_not_mem {cs : List Char} (none : '\r' ∉ cs) :
    arrivals false cs = (cs, false) := by
  induction cs with
  | nil => rfl
  | cons c cs ih =>
    have other : c ≠ '\r' := fun same => none (same ▸ List.mem_cons_self)
    have others : '\r' ∉ cs := fun here => none (List.mem_cons_of_mem c here)
    have first : arriving false c = [c] := by
      by_cases feed : c = '\n'
      · rw [arriving, if_pos feed, feed]
      · rw [arriving, if_neg feed, if_neg Bool.false_ne_true, if_neg other, List.nil_append]
    rw [arrivals, beq_eq_false_iff_ne.2 other, ih others, first]
    rfl

end Text

/-- How the ends of lines arrive. -/
inductive Newlines where
  /-- Carriage returns arrive as line feeds. -/
  | universal
  /-- All characters arrive as they have been printed. -/
  | asPrinted
deriving DecidableEq, Repr

namespace Newlines

/-- What arrives of some characters, and whether a carriage return is held back
then. -/
def read (newlines : Newlines) (held : Bool) (cs : List Char) : List Char × Bool :=
  match newlines with
  | universal => Text.arrivals held cs
  | asPrinted => (cs, held)

theorem read_append (newlines : Newlines) (held : Bool) (cs ds : List Char) :
    newlines.read held (cs ++ ds) =
      ((newlines.read held cs).1 ++ (newlines.read (newlines.read held cs).2 ds).1,
        (newlines.read (newlines.read held cs).2 ds).2) := by
  cases newlines with
  | universal => exact Text.arrivals_append held cs ds
  | asPrinted => rfl

/-- **What is printed arrives as a text**, and nothing of it is held back. -/
def Delivers (newlines : Newlines) (printed text : String) : Prop :=
  newlines.read false printed.toList = (text.toList, false)

instance (newlines : Newlines) (printed text : String) :
    Decidable (newlines.Delivers printed text) :=
  inferInstanceAs (Decidable (_ = _))

/-- A text without a carriage return arrives as it is. -/
theorem delivers_of_not_mem (newlines : Newlines) {text : String} (none : '\r' ∉ text.toList) :
    newlines.Delivers text text := by
  cases newlines with
  | universal => exact Text.arrivals_of_not_mem none
  | asPrinted => rfl

/-- What is printed arrives in one way. -/
theorem Delivers.unique {newlines : Newlines} {printed text text' : String}
    (h : newlines.Delivers printed text) (h' : newlines.Delivers printed text') : text = text' :=
  String.toList_inj.1 (congrArg Prod.fst (h.symm.trans h'))

end Newlines

/-! ## Readers of lines -/

/-- A reader of lines, between two pieces. -/
structure LineReader where
  /-- What has arrived of the line that has been begun. -/
  begun : List Char := []
  /-- Whether a carriage return is held back. -/
  held : Bool := false
deriving DecidableEq, Repr

namespace LineReader

/-- The lines that a piece ends, and the reader after it. -/
def feed (newlines : Newlines) (reader : LineReader) (piece : String) :
    List String × LineReader :=
  let (arrived, held) := newlines.read reader.held piece.toList
  let (full, begun) := Text.cutFeeds reader.begun.reverse arrived
  (full.map String.ofList, { begun, held })

/-- The last line when nothing more comes, if one has been begun. A carriage
return that is held back ends it. -/
def close (reader : LineReader) : List String :=
  let last := reader.begun ++ if reader.held then ['\n'] else []
  if last.isEmpty then [] else [String.ofList last]

/-- **A text may come in pieces.** -/
theorem feed_append (newlines : Newlines) (reader : LineReader) (piece more : String) :
    reader.feed newlines (piece ++ more) =
      ((reader.feed newlines piece).1 ++ ((reader.feed newlines piece).2.feed newlines more).1,
        ((reader.feed newlines piece).2.feed newlines more).2) := by
  simp only [feed, String.toList_append, Newlines.read_append, Text.cutFeeds_of_append,
    List.map_append]

/-- Nothing ends no line. -/
theorem feed_empty (newlines : Newlines) (reader : LineReader) :
    reader.feed newlines "" = ([], reader) := by
  have silence : newlines.read reader.held "".toList = ([], reader.held) := by
    cases newlines <;> rfl
  rw [feed, silence]
  simp [Text.cutFeeds]

/-- Whole lines that are delivered to a reader are handed on as they are. -/
theorem feed_of_delivers {newlines : Newlines} {printed text : String}
    (delivers : newlines.Delivers printed text) (ended : (Text.splitFeeds text).2 = "") :
    ({} : LineReader).feed newlines printed = ((Text.splitFeeds text).1, {}) := by
  have last : (Text.cutFeeds [] text.toList).2 = [] := String.ofList_eq_empty_iff.1 ended
  unfold feed
  rw [show newlines.read _ printed.toList = _ from delivers]
  show (_, LineReader.mk (Text.cutFeeds [] text.toList).2 false) = _
  rw [last]
  rfl

end LineReader

end SmtDialogue
