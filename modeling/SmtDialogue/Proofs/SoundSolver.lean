import SmtDialogue.Proofs.Answers
import SmtDialogue.Proofs.Dialogue

/-!
# Sound solvers

What is asked of a solver so that its answers can be relied on. It says
*satisfiable* only of assertions that have a model, and then gives the values of
one model until it takes another command than a request for values; it says
*unsatisfiable* only of assertions that have none. It may leave a question open
or report an error at any time, refuse commands and end. The assertions are those
of the replay of all that the solver has heard, with the standard meaning.

A process has to answer in turn, besides: it prints nothing but answers to
questions, and each answer, as it arrives, is complete with its last line and not
before (`WholeAnswer`). It may take its time for that, unless the deadline is one
that cannot be waited for at all: then a late answer would be left for the next
question. So nothing is left in the queue between two questions (`Process.Clean`),
and an answer is the answer to the question that has been asked.
-/

namespace SmtDialogue

open Smt

open Smt.Scopes (replay replayCalls)

/-- **One whole answer**: lines that are complete with the last one, and not
before. -/
structure WholeAnswer (text : String) : Prop where
  /-- The last line has its line feed. -/
  ended : (Text.splitFeeds text).2 = ""
  /-- The lines are complete. -/
  complete : Item.isComplete text = .ok true
  /-- Fewer lines are not. -/
  sooner : ∀ front back, (Text.splitFeeds text).1 = front ++ back → back ≠ [] →
    Item.isComplete (String.join front) = .ok false

/-- Whether a text is one item that reports an error. -/
def ReportsError (text : String) : Prop :=
  ∃ item, Item.parse text = .ok [item] ∧ item.errorMessage?.isSome = true

/-- What a process has heard when it has been asked for some values on top of
what it had heard before. -/
def History.asking (h : History) (asked : List (List String)) : History :=
  h.addAll (asked.map fun names => .written (Command.getValue names).text)

variable (newlines : Newlines)

/-- **A process has a valuation in mind**: as long as it is only asked for the
values of known constants, it gives those of the valuation, if it gives any. -/
def Behaviour.HasInMind (b : Behaviour) (h : History) (known : List String) (ρ : Valuation) :
    Prop :=
  ∀ asked names r text, (∀ ns ∈ asked, ∀ x ∈ ns, x ∈ known) → (∀ x ∈ names, x ∈ known) →
    b (h.asking asked) (Command.getValue names).text = .taken r →
      newlines.Delivers r.printed text → text ≠ "" →
        Item.parse text = .ok [.list (Answer.pairs ρ names)] ∨ ReportsError text

theorem Behaviour.HasInMind.of_eq {h : History} {known : List String} {ρ : Valuation}
    {p q : Process} (mind : p.behaviour.HasInMind p.newlines h known ρ)
    (behaves : q.behaviour = p.behaviour) (arrives : q.newlines = p.newlines) :
    q.behaviour.HasInMind q.newlines h known ρ := by
  rw [behaves, arrives]
  exact mind

/-- **A sound process**, for questions with a deadline. -/
structure Behaviour.Sound (deadline : Option Seconds) (b : Behaviour) : Prop where
  /-- It prints nothing but answers. -/
  silent : ∀ {h command r}, b h command = .taken r → isQuestion command = false → r.printed = ""
  /-- It prints them at once if the deadline cannot be waited for. -/
  timely : ∀ {h command r}, b h command = .taken r →
    r.later = [] ∨ deadline.all Seconds.canBeWaited = true
  /-- What it prints arrives as one answer. -/
  whole : ∀ {h command r}, b h command = .taken r → r.printed ≠ "" →
    ∃ text, newlines.Delivers r.printed text ∧ WholeAnswer text
  /-- It says *satisfiable* of what has a model, and gives the values of one. -/
  sat : ∀ {h scopes r text}, replay h.commands = some scopes →
    b h Command.checkSat.text = .taken r → newlines.Delivers r.printed text →
      Text.trim text = Status.sat.word → ∃ ρ, scopes.Models ρ ∧
        b.HasInMind newlines (h.add (.written Command.checkSat.text)) scopes.live.names ρ
  /-- It says *unsatisfiable* of what has no model. -/
  unsat : ∀ {h scopes r text}, replay h.commands = some scopes →
    b h Command.checkSat.text = .taken r → newlines.Delivers r.printed text →
      Text.trim text = Status.unsat.word → ∀ ρ, ¬ scopes.Models ρ

theorem Behaviour.Sound.of_eq {deadline : Option Seconds} {p q : Process}
    (sound : p.behaviour.Sound p.newlines deadline) (behaves : q.behaviour = p.behaviour)
    (arrives : q.newlines = p.newlines) : q.behaviour.Sound q.newlines deadline := by
  rw [behaves, arrives]
  exact sound

/-- **A sound in-process solver.** -/
structure Binding.Sound (b : Binding) : Prop where
  /-- It says *satisfiable* of what has a model, and has the values of one. -/
  sat : ∀ {h scopes}, replayCalls h.toList = some scopes → b.verdict h = .sat →
    ∃ ρ, scopes.Models ρ ∧ ∀ x sort, scopes.live.sortOf? x = some sort →
      b.value (h.add .checked) x sort = .plain (ρ x)
  /-- It says *unsatisfiable* of what has no model. -/
  unsat : ∀ {h scopes}, replayCalls h.toList = some scopes → b.verdict h = .unsat →
    ∀ ρ, ¬ scopes.Models ρ

/-- **A host with sound solvers**, for questions with a deadline. -/
structure Host.Sound (deadline : Option Seconds) (host : Host) : Prop where
  /-- Its processes are sound. -/
  behaviour : host.behaviour.Sound host.newlines deadline
  /-- Its in-process solvers are sound. -/
  binding : host.binding.Sound

/-! ## Answers in turn -/

/-- The line of a chunk, if it is one. -/
def Chunk.line? : Chunk → Option String
  | line text => some text
  | pause | ended => none

/-- **Lines that wait to be read**, with pauses between them if there may be
any. -/
structure Carries (pauses : Bool) (lines : List String) (chunks : List Chunk) : Prop where
  /-- The lines are these. -/
  lines : chunks.filterMap Chunk.line? = lines
  /-- The output does not end with them. -/
  lasting : .ended ∉ chunks
  /-- There is a pause only if there may be one. -/
  paused : .pause ∈ chunks → pauses = true

namespace Carries

variable {pauses : Bool} {lines more : List String} {chunks others : List Chunk}

theorem nil : Carries pauses [] [] := ⟨rfl, List.not_mem_nil, nofun⟩

theorem ofLines (lines : List String) : Carries pauses lines (lines.map .line) where
  lines := by simp [List.filterMap_map, Function.comp_def, Chunk.line?]
  lasting := by simp
  paused := by simp

theorem append (h : Carries pauses lines chunks) (h' : Carries pauses more others) :
    Carries pauses (lines ++ more) (chunks ++ others) where
  lines := by rw [List.filterMap_append, h.lines, h'.lines]
  lasting := by simp [h.lasting, h'.lasting]
  paused here := (List.mem_append.1 here).elim h.paused h'.paused

/-- A pause is no line. -/
theorem pause (h : Carries true lines chunks) : Carries true lines (.pause :: chunks) where
  lines := by rw [← h.lines]; rfl
  lasting := by simp [h.lasting]
  paused _ := rfl

/-- What comes first may be taken off. -/
theorem of_cons {chunk : Chunk} (h : Carries pauses lines (chunk :: chunks)) :
    Carries pauses (chunks.filterMap Chunk.line?) chunks :=
  ⟨rfl, fun here => h.lasting (List.mem_cons_of_mem _ here),
    fun here => h.paused (List.mem_cons_of_mem _ here)⟩

end Carries

namespace Process

variable {p : Process} {deadline : Option Seconds} {command : String} {pauses : Bool}

/-- **What waits to be read** of a process: some lines, with pauses between them if
there may be any, and then at most the end of its output. -/
structure Holding (pauses : Bool) (lines : List String) (p : Process) : Prop where
  /-- The lines come first in the queue. -/
  queue : ∃ chunks ended, Carries pauses lines chunks ∧ (∀ c ∈ ended, c = .ended) ∧
    (p.outputOpen = true → ended = []) ∧ p.queue = chunks ++ ended
  /-- No line has been begun. -/
  idle : p.outputOpen = true → p.reader = {}

/-- **No answer waits to be read** of a process that takes commands. Without a
deadline that can be put on the clock nothing is read in any case. -/
def Clean (deadline : Option Seconds) (p : Process) : Prop :=
  deadline.filter (!·.isOnClock) = none → p.alive = true →
    p.Holding (deadline.all Seconds.canBeWaited) []

variable {lines : List String}

/-- Nothing waits to be read of a new process. -/
theorem Holding.nil (queue : p.queue = []) (idle : p.reader = {}) : p.Holding pauses [] :=
  ⟨⟨[], [], .nil, nofun, fun _ => rfl, queue⟩, fun _ => idle⟩

theorem Holding.closeOutput (h : p.Holding pauses lines) : p.closeOutput.Holding pauses lines := by
  unfold Process.closeOutput
  cases isOpen : p.outputOpen with
  | false => exact h
  | true =>
    obtain ⟨chunks, ended, carries, marks, none, queue⟩ := h.queue
    refine ⟨⟨chunks, [.ended], carries, by simp, nofun, ?_⟩, nofun⟩
    rw [if_pos rfl, queue, none isOpen, h.idle isOpen]
    simp [LineReader.close]

theorem Holding.finish (h : p.Holding pauses lines) : p.finish.Holding pauses lines :=
  have closed := Holding.closeOutput
    (p := { p.keepErrors p.errorReader.close with errorReader := {} }) ⟨h.queue, h.idle⟩
  ⟨closed.queue, closed.idle⟩

theorem Holding.hearing (h : p.Holding pauses lines) (command : String) :
    (p.hearing command).Holding pauses lines :=
  ⟨h.queue, h.idle⟩

/-- **What is printed in pieces arrives as one text**, with the pauses between the
pieces. -/
theorem printLater_of_open (isOpen : p.outputOpen = true) {pieces : List String}
    (timely : pieces = [] ∨ pauses = true) : ∃ chunks,
      Carries pauses (p.reader.feed p.newlines (String.join pieces)).1 chunks ∧
      p.printLater pieces = { p with
        queue := p.queue ++ chunks
        reader := (p.reader.feed p.newlines (String.join pieces)).2 } := by
  induction pieces generalizing p with
  | nil =>
    refine ⟨[], ?_, ?_⟩
    · rw [String.join_nil, LineReader.feed_empty]
      exact .nil
    · rw [String.join_nil, LineReader.feed_empty, List.append_nil]
      rfl
  | cons piece pieces ih =>
    obtain rfl : pauses = true := timely.resolve_left (List.cons_ne_nil _ _)
    have printed : p.pause.print piece = { p with
        queue := p.queue ++ ([.pause] ++ (p.reader.feed p.newlines piece).1.map .line)
        reader := (p.reader.feed p.newlines piece).2 } := by
      unfold Process.pause Process.print
      simp [isOpen]
    obtain ⟨chunks, carries, rest⟩ := ih (p := p.pause.print piece) (by rw [printed]; exact isOpen)
      (.inr rfl)
    rw [printed] at carries rest
    refine ⟨[.pause] ++ (p.reader.feed p.newlines piece).1.map .line ++ chunks, ?_, ?_⟩
    · rw [String.join_cons, LineReader.feed_append]
      exact (Carries.ofLines _).pause.append carries
    · rw [String.join_cons, LineReader.feed_append]
      show (p.pause.print piece).printLater pieces = _
      rw [printed, rest]
      simp

/-- After the output has been closed nothing that is printed arrives. -/
theorem printLater_of_closed (closed : p.outputOpen = false) (pieces : List String) :
    p.printLater pieces = p := by
  induction pieces with
  | nil => rfl
  | cons piece pieces ih =>
    have same : p.pause.print piece = p := by
      unfold Process.pause Process.print
      simp [closed]
    show (p.pause.print piece).printLater pieces = p
    rw [same, ih]

/-- **What is printed waits to be read** after what waits already, unless the output
has been closed. -/
theorem Holding.printAll (h : p.Holding pauses lines) {r : Reaction} {text : String}
    (delivers : p.newlines.Delivers r.printed text) (ended : (Text.splitFeeds text).2 = "")
    (timely : r.later = [] ∨ pauses = true) : (p.printAll r).Holding pauses
      (lines ++ if p.outputOpen then (Text.splitFeeds text).1 else []) := by
  have quiet : (p.printError r.errors).Holding pauses lines := ⟨h.queue, h.idle⟩
  cases isOpen : p.outputOpen with
  | false =>
    have still : (p.printError r.errors).outputOpen = false := isOpen
    have same : (p.printError r.errors).print r.output = p.printError r.errors := by
      unfold Process.print
      simp [still]
    rw [Process.printAll, same, printLater_of_closed still]
    simpa using quiet
  | true =>
    have printed : (p.printError r.errors).print r.output =
        { p.printError r.errors with
          queue := p.queue ++ (p.reader.feed p.newlines r.output).1.map .line
          reader := (p.reader.feed p.newlines r.output).2 } := if_pos isOpen
    obtain ⟨later, carries, rest⟩ :=
      printLater_of_open (p := (p.printError r.errors).print r.output)
        (by rw [printed]; exact isOpen) timely
    rw [printed] at carries
    have fed := LineReader.feed_of_delivers delivers ended
    rw [Reaction.printed, LineReader.feed_append, ← h.idle isOpen] at fed
    obtain ⟨chunks, marks, waiting, -, none, queue⟩ := h.queue
    rw [Process.printAll, rest, printed]
    refine ⟨⟨chunks ++ ((p.reader.feed p.newlines r.output).1.map .line ++ later), [], ?_, nofun,
      fun _ => rfl, ?_⟩, fun _ => (congrArg Prod.snd fed).trans (h.idle isOpen)⟩
    · rw [if_pos rfl, ← congrArg Prod.fst fed]
      exact waiting.append ((Carries.ofLines _).append carries)
    · show p.queue ++ _ ++ later = _
      rw [queue, none isOpen]
      simp

theorem Holding.react (h : p.Holding pauses lines) {r : Reaction} {text : String}
    (delivers : p.newlines.Delivers r.printed text) (ended : (Text.splitFeeds text).2 = "")
    (timely : r.later = [] ∨ pauses = true) : (p.react r).Holding pauses
      (lines ++ if p.outputOpen then (Text.splitFeeds text).1 else []) := by
  have printed := h.printAll delivers ended timely
  unfold Process.react
  dsimp only
  by_cases ends : r.ends = true
  · rw [if_pos ends]
    exact printed.finish
  · rw [if_neg ends]
    by_cases closes : r.closesOutput = true
    · rw [if_pos closes]
      exact printed.closeOutput
    · rw [if_neg closes]
      exact printed

/-- A reaction in which nothing is printed leaves what waits as it is. -/
theorem Holding.react_mute (h : p.Holding pauses lines) {r : Reaction} (mute : r.printed = "")
    (timely : r.later = [] ∨ pauses = true) : (p.react r).Holding pauses lines := by
  have delivers : p.newlines.Delivers r.printed "" := by
    rw [mute]
    exact p.newlines.delivers_of_not_mem List.not_mem_nil
  have printed := h.react delivers rfl timely
  rwa [show (Text.splitFeeds "").1 = [] from rfl, ite_self, List.append_nil] at printed

/-- The lines of a text make up the text, when the last one is ended. -/
theorem join_splitFeeds {text : String} (ended : (Text.splitFeeds text).2 = "") :
    String.join (Text.splitFeeds text).1 = text := by
  have all := Text.cutFeeds_append [] text.toList
  have none : (Text.cutFeeds [] text.toList).2 = [] := by
    rw [← String.toList_ofList (l := (Text.cutFeeds [] text.toList).2)]
    exact congrArg String.toList ended
  rw [none, List.append_nil] at all
  rw [← String.toList_inj, String.toList_join]
  simpa [Text.splitFeeds, List.map_map, Function.comp_def, List.flatMap_def] using all

/-- **An answer is read from its lines**, and no more, unless there is a pause in it
that is not waited for. -/
theorem gather_of_carries (waits : Bool) (read : String) {more : List String}
    {chunks : List Chunk} (carries : Carries pauses (lines ++ more) chunks) (some : lines ≠ [])
    (sooner : ∀ front back, lines = front ++ back → front ≠ [] → back ≠ [] →
      Item.isComplete (read ++ String.join front) = .ok false)
    (complete : Item.isComplete (read ++ String.join lines) = .ok true) (rest : List Chunk) :
    (∃ left, Carries pauses more left ∧
      gather waits read (chunks ++ rest) = (.answer (read ++ String.join lines), left ++ rest)) ∨
    (pauses = true ∧ waits = false) ∧
      ∃ text left, gather waits read (chunks ++ rest) = (.silent text, left) := by
  induction chunks generalizing read lines with
  | nil => exact absurd (List.append_eq_nil_iff.1 carries.lines.symm).1 some
  | cons chunk chunks ih =>
    cases chunk with
    | ended => exact absurd List.mem_cons_self carries.lasting
    | pause =>
      have others : Carries pauses (lines ++ more) chunks := carries.lines ▸ carries.of_cons
      cases waits with
      | true => exact ih read others some sooner complete
      | false => exact .inr ⟨⟨carries.paused List.mem_cons_self, rfl⟩, read, chunks ++ rest, rfl⟩
    | line text =>
      obtain ⟨line, lines, rfl⟩ := List.exists_cons_of_ne_nil some
      obtain ⟨rfl, split⟩ := List.cons.inj carries.lines
      have others : Carries pauses (lines ++ more) chunks := by
        have rest := carries.of_cons
        rwa [show chunks.filterMap Chunk.line? = lines ++ more from split] at rest
      rw [String.join_cons, ← String.append_assoc] at complete ⊢
      rw [List.cons_append, gather]
      by_cases last : lines = []
      · subst last
        have same : read ++ text ++ String.join [] = read ++ text := by simp
        rw [same] at complete ⊢
        rw [complete]
        exact .inl ⟨chunks, others, rfl⟩
      · have first := sooner [text] lines rfl (by simp) last
        rw [String.join_cons, String.join_nil, String.append_empty] at first
        rw [first]
        refine ih (read ++ text) others last (fun front back split some more => ?_) complete
        have earlier := sooner (text :: front) back (by rw [split]; rfl) (by simp) more
        rwa [String.join_cons, ← String.append_assoc] at earlier

/-- Where no line waits, no answer is read. -/
theorem gather_of_carries_nil (waits : Bool) {chunks ended : List Chunk}
    (carries : Carries pauses [] chunks) (marks : ∀ c ∈ ended, c = .ended) :
    ∃ gathered left later, gather waits "" (chunks ++ ended) = (gathered, left ++ later) ∧
      (gathered = .silent "" ∨ gathered = .ended "") ∧ Carries pauses [] left ∧
      later <:+ ended := by
  induction chunks with
  | nil =>
    cases ended with
    | nil => exact ⟨_, [], [], rfl, .inl rfl, .nil, List.suffix_rfl⟩
    | cons mark ended =>
      rw [marks mark List.mem_cons_self]
      exact ⟨_, [], ended, rfl, .inr rfl, .nil, List.suffix_cons _ _⟩
  | cons chunk chunks ih =>
    cases chunk with
    | ended => exact absurd List.mem_cons_self carries.lasting
    | line text => cases carries.lines
    | pause =>
      have others : Carries pauses [] chunks := carries.lines ▸ carries.of_cons
      cases waits with
      | true => exact ih others
      | false => exact ⟨_, chunks, ended, rfl, .inl rfl, others, List.suffix_rfl⟩

/-- Whatever is read of a process without an answer leaves no answer behind. -/
theorem Holding.expire (h : p.Holding pauses []) (deadline : Option Seconds) :
    (p.expire deadline).state.Holding pauses [] ∧
      ∃ fault, (p.expire deadline).outcome = .error fault := by
  unfold Process.expire
  split
  · exact ⟨h, _, rfl⟩
  · refine ⟨?_, _, rfl⟩
    show p.kill.1.Holding pauses []
    unfold kill
    split
    · exact h.finish
    · exact h

/-- Reading where nothing waits gives no answer. -/
theorem Holding.read_nil (h : p.Holding pauses [])
    (onClock : deadline.filter (!·.isOnClock) = none) :
    (p.read deadline).state.Holding pauses [] ∧
      ∃ fault, (p.read deadline).outcome = .error fault := by
  obtain ⟨chunks, ended, carries, marks, closed, queue⟩ := h.queue
  obtain ⟨gathered, left, later, gathering, found, nothing, suffix⟩ :=
    gather_of_carries_nil (deadline.all Seconds.allowsWait) carries marks
  have still : ({ p with queue := left ++ later } : Process).Holding pauses [] := by
    refine ⟨⟨left, later, nothing, fun c hc => marks c (suffix.subset hc), fun isOpen => ?_, rfl⟩,
      h.idle⟩
    rw [closed isOpen] at suffix
    exact List.suffix_nil.1 suffix
  unfold Process.read
  rw [onClock, queue, gathering]
  rcases found with rfl | rfl
  · exact still.expire deadline
  · exact ⟨still, _, rfl⟩

/-- **Reading where an answer waits gives this answer**, and leaves what comes after
it, unless there is a pause in it that is not waited for. -/
theorem Holding.read_answer {text : String} (whole : WholeAnswer text)
    (h : p.Holding pauses ((Text.splitFeeds text).1 ++ lines))
    (onClock : deadline.filter (!·.isOnClock) = none) :
    ((p.read deadline).state.Holding pauses lines ∧ (p.read deadline).outcome = .ok text) ∨
      (pauses = true ∧ deadline.all Seconds.allowsWait = false) ∧
        ∃ rest, p.read deadline = ({ p with queue := rest } : Process).expire deadline := by
  obtain ⟨chunks, ended, carries, marks, closed, queue⟩ := h.queue
  have joined := join_splitFeeds whole.ended
  have some : (Text.splitFeeds text).1 ≠ [] := by
    intro none
    rw [none] at joined
    have complete := whole.complete
    rw [← joined] at complete
    cases complete
  have gathering := gather_of_carries (deadline.all Seconds.allowsWait) ""
    carries some
    (fun front back split _ more => by
      rw [String.empty_append]
      exact whole.sooner front back split more)
    (by rw [String.empty_append, joined]; exact whole.complete) ended
  rw [String.empty_append, joined, ← queue] at gathering
  unfold Process.read
  rw [onClock]
  rcases gathering with ⟨left, nothing, gathered⟩ | ⟨impatient, _, rest, gathered⟩
  · rw [gathered]
    exact .inl ⟨⟨⟨left, ended, nothing, marks, closed, rfl⟩, h.idle⟩, rfl⟩
  · rw [gathered]
    exact .inr ⟨impatient, rest, rfl⟩

/-- A process that is killed at a deadline is not running. -/
theorem expire_of_canBeWaited (p : Process) (wait : deadline.all Seconds.canBeWaited = true) :
    (p.expire deadline).state.alive = false ∧
      ∃ fault, (p.expire deadline).outcome = .error fault := by
  have kept : deadline.filter (!·.canBeWaited) = none := by
    cases deadline with
    | none => rfl
    | some d => simp_all [Option.filter]
  unfold Process.expire
  rw [kept]
  exact ⟨p.alive_kill, _, rfl⟩

/-- Reading after a reaction that prints at most one answer gives this answer, if
any. -/
theorem Holding.read_react (h : p.Holding (deadline.all Seconds.canBeWaited) []) {r : Reaction}
    (whole : r.printed ≠ "" → ∃ text, p.newlines.Delivers r.printed text ∧ WholeAnswer text)
    (timely : r.later = [] ∨ deadline.all Seconds.canBeWaited = true)
    (onClock : deadline.filter (!·.isOnClock) = none) :
    (((p.react r).read deadline).state.alive = true →
      ((p.react r).read deadline).state.Holding (deadline.all Seconds.canBeWaited) []) ∧
      ∀ response, ((p.react r).read deadline).outcome = .ok response →
        p.newlines.Delivers r.printed response ∧ response ≠ "" := by
  by_cases mute : r.printed = ""
  · obtain ⟨next, fault, failed⟩ := (h.react_mute mute timely).read_nil onClock
    exact ⟨fun _ => next, fun _ ok => nomatch failed.symm.trans ok⟩
  · obtain ⟨text, delivers, answer⟩ := whole mute
    have holding := h.react delivers answer.ended timely
    cases isOpen : p.outputOpen with
    | false =>
      rw [isOpen] at holding
      obtain ⟨next, fault, failed⟩ := holding.read_nil onClock
      exact ⟨fun _ => next, fun _ ok => nomatch failed.symm.trans ok⟩
    | true =>
      rw [isOpen, if_pos rfl, List.nil_append, ← List.append_nil (Text.splitFeeds text).1]
        at holding
      rcases holding.read_answer answer onClock with ⟨next, answered⟩ | ⟨⟨wait, -⟩, rest, late⟩
      · refine ⟨fun _ => next, fun response ok => ?_⟩
        obtain rfl := Except.ok.inj (ok.symm.trans answered)
        refine ⟨delivers, ?_⟩
        rintro rfl
        cases answer.complete
      · rw [late]
        obtain ⟨dead, fault, failed⟩ := expire_of_canBeWaited { p.react r with queue := rest } wait
        exact ⟨fun alive => (nomatch dead.symm.trans alive),
          fun _ ok => nomatch failed.symm.trans ok⟩

/-- **A question to a sound process** of which no answer waits to be read: an
answer that comes is what the process has printed to this question, and no
answer waits to be read after it. -/
theorem ask_of_clean (sound : p.behaviour.Sound p.newlines deadline) (clean : p.Clean deadline)
    (command : String) :
    ((p.ask deadline command).state.behaviour = p.behaviour ∧
      (p.ask deadline command).state.newlines = p.newlines ∧
      (p.ask deadline command).state.Clean deadline) ∧
    ∀ response, (p.ask deadline command).outcome = .ok response →
      ∃ r, p.behaviour p.history command = .taken r ∧ p.newlines.Delivers r.printed response ∧
        response ≠ "" ∧
        (p.ask deadline command).state.history = p.history.add (.written command) := by
  rcases p.ask_eq deadline command with ⟨reason, h⟩ | ⟨r, takes, h⟩
  · rw [h]
    exact ⟨⟨rfl, rfl, clean⟩, nofun⟩
  · rw [h]
    have reading (onClock : deadline.filter (!·.isOnClock) = none) :=
      Holding.read_react ((clean onClock takes.alive).hearing command) (sound.whole takes.taken)
        (sound.timely takes.taken) onClock
    have persists := ((p.hearing command).persists_react r).trans
      (((p.hearing command).react r).persists_read deadline).1
    refine ⟨⟨persists.behaviour, persists.newlines, fun onClock => (reading onClock).1⟩,
      fun response answered => ?_⟩
    have ok : (((p.hearing command).react r).read deadline).outcome = .ok response := answered
    have onClock : deadline.filter (!·.isOnClock) = none := by
      unfold Process.read at ok
      split at ok
      · cases ok
      · assumption
    obtain ⟨delivers, some⟩ := (reading onClock).2 response ok
    exact ⟨r, takes.taken, delivers, some, persists.history⟩

/-- A sound process says nothing to a command that is no question. -/
theorem send_of_clean (sound : p.behaviour.Sound p.newlines deadline) (clean : p.Clean deadline)
    (statement : isQuestion command = false) :
    (p.send command).state.behaviour = p.behaviour ∧
      (p.send command).state.newlines = p.newlines ∧ (p.send command).state.Clean deadline := by
  rcases p.send_cases command with ⟨reason, h⟩ | ⟨r, takes, h⟩
  · rw [h]
    exact ⟨rfl, rfl, clean⟩
  · rw [h]
    have persists := (p.hearing command).persists_react r
    exact ⟨persists.behaviour, persists.newlines, fun onClock _ =>
      ((clean onClock takes.alive).hearing command).react_mute
        (sound.silent takes.taken statement) (sound.timely takes.taken)⟩

end Process

namespace InProcess

variable {b : InProcess}

theorem binding_setDeadline (b : InProcess) : b.setDeadline.state.binding = b.binding := by
  unfold setDeadline
  split
  · rfl
  · split <;> rfl

/-- An in-process solver behaves as it does whatever it is told. -/
theorem binding_send (b : InProcess) (command : String) :
    (b.send command).state.binding = b.binding := by
  unfold send
  split
  · unfold declare
    split <;> rfl
  split
  · split <;> rfl
  split
  · rfl
  split
  · rfl
  split
  · rw [Reply.andThen_of_ok rfl]
    exact binding_setDeadline _
  · rfl

theorem binding_check (b : InProcess) : b.check.state.binding = b.binding := by
  unfold check
  rw [Reply.andThen_of_ok rfl]
  dsimp only
  cases b.binding.verdict b.history with
  | sat | unsat => rfl
  | unknown reason =>
    dsimp only
    split <;> rfl

theorem binding_start (binding : Binding) (deadline : Option Seconds) :
    (start binding deadline).state.binding = binding := by
  unfold start
  rw [Reply.andThen_of_ok rfl]
  exact binding_setDeadline _

end InProcess

namespace Channel

/-- **A sound solver** at the other end, of which no answer waits to be read. -/
def Sound (deadline : Option Seconds) (_ : History) : Channel → Prop
  | process p => p.behaviour.Sound p.newlines deadline ∧ p.Clean deadline
  | inProcess b => b.binding.Sound

variable {deadline : Option Seconds} {h : History} {c : Channel} {scopes : Scopes}

/-- A sound solver stays one through the exchanges of a session. -/
theorem stable_sound (deadline : Option Seconds) : Channel.Stable deadline (Sound deadline) where
  send := by
    rintro h (p | b) text statement sound
    · obtain ⟨behaves, arrives, clean⟩ := Process.send_of_clean sound.1 sound.2 statement
      exact ⟨sound.1.of_eq behaves arrives, clean⟩
    · exact (show (b.send text).state.binding.Sound from b.binding_send text ▸ sound)
  status := by
    rintro h (p | b) sound
    · obtain ⟨⟨behaves, arrives, clean⟩, -⟩ :=
        Process.ask_of_clean sound.1 sound.2 Command.checkSat.text
      exact ⟨sound.1.of_eq behaves arrives, clean⟩
    · exact (show b.check.state.binding.Sound from b.binding_check ▸ sound)
  values := by
    rintro h (p | b) sorts names sound
    · obtain ⟨⟨behaves, arrives, clean⟩, -⟩ :=
        Process.ask_of_clean sound.1 sound.2 (Command.getValue names).text
      exact ⟨sound.1.of_eq behaves arrives, clean⟩
    · exact sound

/-! ## What answers say -/

/-- **A solver has a valuation in mind**, of which it gives the values of live
constants. -/
def HasInMind (live : SortTable) (ρ : Valuation) : Channel → Prop
  | process p => ∃ h asked, p.history = h.asking asked ∧ (∀ ns ∈ asked, ∀ x ∈ ns, x ∈ live.names) ∧
      p.behaviour.HasInMind p.newlines h live.names ρ
  | inProcess b => ∀ x sort, live.sortOf? x = some sort →
      b.binding.value b.history x sort = .plain (ρ x)

/-- **The answer of a sound solver to a check** is true of what it has heard, and
when it is that there is a model, the solver has one in mind. -/
theorem askStatus_of_sound (sound : c.Sound deadline h) (heard : c.Heard scopes [])
    {response : String} (answered : (c.askStatus deadline).outcome = .ok response) :
    (Text.trim response = Status.sat.word →
      ∃ ρ, scopes.Models ρ ∧ (c.askStatus deadline).state.HasInMind scopes.live ρ) ∧
    (Text.trim response = Status.unsat.word → ∀ ρ, ¬ scopes.Models ρ) := by
  cases c with
  | process p =>
    obtain ⟨⟨behaves, arrives, -⟩, answers⟩ :=
      Process.ask_of_clean sound.1 sound.2 Command.checkSat.text
    obtain ⟨r, taken, delivers, -, after⟩ := answers response answered
    have replayed : replay p.history.commands = some scopes := by
      rw [← scopes.declaring_nil]
      exact heard
    refine ⟨fun sat => ?_, sound.1.unsat replayed taken delivers⟩
    obtain ⟨ρ, models, mind⟩ := sound.1.sat replayed taken delivers sat
    exact ⟨ρ, models, _, [], after, nofun, mind.of_eq behaves arrives⟩
  | inProcess b =>
    have asked : (inProcess b).askStatus deadline = b.check.mapState inProcess := rfl
    rw [asked] at answered ⊢
    unfold InProcess.check at answered ⊢
    rw [Reply.andThen_of_ok rfl] at answered ⊢
    dsimp only at answered ⊢
    cases verdict : b.binding.verdict b.history with
    | sat =>
      rw [verdict] at answered
      cases answered
      refine ⟨fun _ => ?_, fun other => absurd other (by decide)⟩
      obtain ⟨ρ, models, values⟩ := sound.sat heard.replayed verdict
      exact ⟨ρ, models, values⟩
    | unsat =>
      rw [verdict] at answered
      cases answered
      exact ⟨fun other => absurd other (by decide), fun _ => sound.unsat heard.replayed verdict⟩
    | unknown reason =>
      rw [verdict] at answered
      dsimp only at answered
      split at answered
      · cases answered
      · cases answered
        exact ⟨fun other => absurd other (by decide), fun other => absurd other (by decide)⟩

/-- The answer of an in-process solver is written as that of a process. -/
theorem text_pairsForm {b : InProcess} {ρ : Valuation} {sorts : SortTable} {names : List String}
    (mind : ∀ x ∈ names,
      b.binding.value b.history x ((sorts.sortOf? x).getD .bool) = .plain (ρ x)) :
    (Answer.pairsForm ρ names).text = b.valuesText sorts names := by
  rw [Answer.pairsForm, Form.text_list, InProcess.valuesText, List.map_map]
  congr 3
  refine List.map_congr_left fun x hx => ?_
  show (Form.list [nameForm x, literalForm (ρ x)]).text = b.entryText sorts x
  rw [Form.text_list, InProcess.entryText, mind x hx]
  simp [ModelValue.text, text_nameForm, text_literalForm, String.append_assoc, toString]

/-- It reads as the pairs of the constants with their values. -/
theorem valuesText_eq {b : InProcess} {ρ : Valuation} {live : SortTable}
    (mind : ∀ x sort, live.sortOf? x = some sort → b.binding.value b.history x sort = .plain (ρ x))
    {names : List String} (known : ∀ x ∈ names, x ∈ live.names)
    (writable : ∀ x ∈ names, isWritable x = true) :
    Item.parse (b.valuesText live names) = .ok [.list (Answer.pairs ρ names)] := by
  rw [← text_pairsForm, Item.parse_text (Answer.writable_pairsForm ρ writable),
    Answer.item_pairsForm]
  intro x hx
  obtain ⟨sort, found⟩ := SortTable.exists_sortOf? (known x hx)
  rw [found, Option.getD_some, mind x sort found]

/-- **The answer of a sound solver to a request for values** is about the
valuation that it has in mind, and stays so. -/
theorem askValues_of_sound (sound : c.Sound deadline h) {live : SortTable} {ρ : Valuation}
    (mind : c.HasInMind live ρ) {names : List String} (known : ∀ x ∈ names, x ∈ live.names)
    (writable : ∀ x ∈ names, isWritable x = true) {response : String}
    (answered : (c.askValues deadline live names).outcome = .ok response) :
    (c.askValues deadline live names).state.HasInMind live ρ ∧
      (Item.parse response = .ok [.list (Answer.pairs ρ names)] ∨ ReportsError response) := by
  cases c with
  | process p =>
    obtain ⟨⟨behaves, arrives, -⟩, answers⟩ :=
      Process.ask_of_clean sound.1 sound.2 (Command.getValue names).text
    obtain ⟨r, taken, delivers, some, after⟩ := answers response answered
    obtain ⟨start, asked, heard, before, mind⟩ := mind
    rw [heard] at taken
    refine ⟨⟨start, asked ++ [names], ?_, ?_, mind.of_eq behaves arrives⟩,
      mind asked names r response before known taken delivers some⟩
    · rw [after, heard]
      simp [History.asking, History.addAll]
    · exact List.forall_mem_append.2 ⟨before, List.forall_mem_singleton.2 known⟩
  | inProcess b =>
    cases answered
    exact ⟨mind, .inl (valuesText_eq mind known writable)⟩

end Channel

end SmtDialogue
