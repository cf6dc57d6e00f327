import SmtDialogue.Proofs.Pairing

/-!
# The end of the output

The output of a process ends with a mark, which is put once, when the process ends or
closes its output. It waits in the queue behind the lines that have been printed, and
whoever reads up to it takes it off (`Process.EndUnread.ask`). After that the queue is
empty for good, and another reading would wait for ever.

Turns in which no answer is the end of the output leave the mark where it is
(`Process.EndUnread.through`). A process that is asked to end has ended by itself after
this turn, or is killed (`Process.stop_spec`).
-/

namespace SmtDialogue

namespace Process

/-! ## The mark -/

/-- Whether the end of the output has not been read: its mark is still in the queue if
the output has been closed. -/
def EndUnread (p : Process) : Prop :=
  p.queue.count .ended = if p.outputOpen then 0 else 1

/-- Whether the end of the output has been read: the output has been closed and its mark
is not in the queue any more. -/
def EndRead (p : Process) : Prop :=
  p.outputOpen = false ∧ .ended ∉ p.queue

variable {p : Process} {deadline : Option Seconds} {command : String}

theorem EndUnread.not_endRead (h : p.EndUnread) : ¬ p.EndRead := by
  rintro ⟨closed, taken⟩
  rw [EndUnread, closed, List.count_eq_zero_of_not_mem taken] at h
  cases h

/-- Lines are no marks. -/
theorem count_lines (lines : List String) : (lines.map Chunk.line).count .ended = 0 :=
  List.count_eq_zero_of_not_mem (by simp)

theorem EndUnread.print (h : p.EndUnread) (text : String) : (p.print text).EndUnread := by
  unfold Process.print
  split
  · next isOpen =>
    unfold EndUnread at h ⊢
    dsimp only
    rw [List.count_append, count_lines, Nat.add_zero, h]
  · exact h

/-- A pause is no mark. -/
theorem EndUnread.pause (h : p.EndUnread) : p.pause.EndUnread := by
  unfold Process.pause
  split
  · next isOpen =>
    unfold EndUnread at h ⊢
    dsimp only
    rw [List.count_append, h]
    rfl
  · exact h

theorem EndUnread.printLater (h : p.EndUnread) (pieces : List String) :
    (p.printLater pieces).EndUnread := by
  induction pieces generalizing p with
  | nil => exact h
  | cons piece pieces ih => exact ih (h.pause.print piece)

/-- The mark is put when the output is closed, and not again. -/
theorem EndUnread.closeOutput (h : p.EndUnread) : p.closeOutput.EndUnread := by
  unfold Process.closeOutput
  split
  · next isOpen =>
    have none : p.queue.count .ended = 0 := by rw [h, if_pos isOpen]
    unfold EndUnread
    dsimp only
    rw [List.count_append, List.count_append, none, count_lines]
    rfl
  · exact h

theorem EndUnread.finish (h : p.EndUnread) : p.finish.EndUnread :=
  EndUnread.closeOutput (p := { p.keepErrors _ with errorReader := {} }) h

theorem EndUnread.react (h : p.EndUnread) (r : Reaction) : (p.react r).EndUnread := by
  have printed : (p.printAll r).EndUnread :=
    (EndUnread.print (p := p.printError r.errors) h r.output).printLater r.later
  unfold Process.react
  split
  · exact printed.finish
  · split
    · exact printed.closeOutput
    · exact printed

theorem EndUnread.kill (h : p.EndUnread) : p.kill.1.EndUnread := by
  unfold Process.kill
  split
  · exact h.finish
  · exact h

theorem EndUnread.send (h : p.EndUnread) (command : String) :
    (p.send command).state.EndUnread := by
  rcases p.send_cases command with ⟨reason, same⟩ | ⟨r, -, same⟩
  · rw [same]
    exact h
  · rw [same]
    exact EndUnread.react (p := p.hearing command) h r

/-- The marks that have been taken off the queue with the lines of an answer. -/
def Gathered.marks : Gathered → Nat
  | ended _ => 1
  | _ => 0

theorem count_gather (waits : Bool) (read : String) (chunks : List Chunk) :
    chunks.count .ended =
      (gather waits read chunks).2.count .ended + (gather waits read chunks).1.marks := by
  induction chunks generalizing read with
  | nil => rfl
  | cons chunk rest ih =>
    cases chunk with
    | ended => exact List.count_cons_self
    | pause =>
      have skip : (Chunk.pause :: rest).count .ended = rest.count .ended :=
        List.count_cons_of_ne (by nofun)
      rw [skip]
      cases waits with
      | true => exact ih read
      | false => rfl
    | line text =>
      have skip : (Chunk.line text :: rest).count .ended = rest.count .ended :=
        List.count_cons_of_ne (by nofun)
      rw [skip, gather]
      cases Item.isComplete (read ++ text) with
      | error e => rfl
      | ok complete =>
        cases complete with
        | true => rfl
        | false => exact ih _

/-- **Reading takes the mark** exactly when the answer is the end of the output. -/
theorem EndUnread.read (h : p.EndUnread) (deadline : Option Seconds) :
    (∃ solver detail text,
        (p.read deadline).outcome = .error (.exited solver detail text)) ∧
        (p.read deadline).state.EndRead ∨
      (∀ solver detail text,
        (p.read deadline).outcome ≠ .error (.exited solver detail text)) ∧
        (p.read deadline).state.EndUnread := by
  unfold Process.read
  split
  · exact .inr ⟨nofun, h⟩
  · have taken := count_gather (deadline.all Seconds.allowsWait) "" p.queue
    rw [h] at taken
    generalize gather _ "" p.queue = outcome at taken ⊢
    obtain ⟨gathered, rest⟩ := outcome
    dsimp only at taken ⊢
    cases gathered with
    | answer text => exact .inr ⟨nofun, taken.symm⟩
    | broken e text =>
      refine .inr ⟨fun _ _ _ same => ?_, taken.symm⟩
      cases e <;> cases same
    | ended text =>
      refine .inl ⟨⟨_, _, _, rfl⟩, ?_⟩
      -- at most one mark was in the queue, and only a closed output puts one
      have closed : p.outputOpen = false := Bool.eq_false_iff.2 fun isOpen => by
        rw [if_pos isOpen] at taken
        cases taken
      rw [closed] at taken
      exact ⟨closed, List.count_eq_zero.1 (Nat.succ.inj taken).symm⟩
    | silent text =>
      have unread : ({ p with queue := rest } : Process).EndUnread := taken.symm
      dsimp only
      unfold expire
      split
      · exact .inr ⟨nofun, unread⟩
      · exact .inr ⟨nofun, unread.kill⟩

/-- **A question takes the mark** exactly when its answer is the end of the output. -/
theorem EndUnread.ask (h : p.EndUnread) (deadline : Option Seconds) (command : String) :
    Question.FindsEnd deadline ⟨p, command⟩ ∧ (p.ask deadline command).state.EndRead ∨
      ¬ Question.FindsEnd deadline ⟨p, command⟩ ∧ (p.ask deadline command).state.EndUnread := by
  unfold Question.FindsEnd
  rcases p.ask_eq deadline command with ⟨reason, same⟩ | ⟨r, -, same⟩
  · rw [same]
    exact .inr ⟨nofun, h⟩
  · rw [same]
    have heard : ((p.hearing command).react r).EndUnread :=
      EndUnread.react (p := p.hearing command) h r
    refine (heard.read deadline).imp id fun ⟨other, unread⟩ => ⟨?_, unread⟩
    rintro ⟨solver, detail, text, ended⟩
    exact other solver detail text ended

/-- The mark stays in the queue through turns in which the output lasts. -/
theorem EndUnread.through (h : p.EndUnread) {turns : List Turn} (lasts : p.Lasts deadline turns) :
    (p.through deadline turns).EndUnread := by
  induction turns generalizing p with
  | nil => exact h
  | cons turn turns ih =>
    cases turn with
    | said command => exact ih (h.send command) lasts
    | asked command =>
      obtain ⟨first, rest⟩ := List.forall_mem_cons.1 lasts
      exact ih ((h.ask deadline command).resolve_left fun ⟨ended, _⟩ => first ended).2 rest

/-- **No turn is taken with a process whose output has ended and been read**, if the end
can be read in the last turn only. -/
theorem EndUnread.before_turn (h : p.EndUnread) {turns : List Turn}
    (lasts : p.Lasts deadline turns.dropLast) {early late : List Turn} {turn : Turn}
    (split : turns = early ++ turn :: late) : (p.through deadline early).EndUnread := by
  refine h.through (lasts.of_part deadline ?_)
  rw [split, List.dropLast_append_of_ne_nil (List.cons_ne_nil turn late)]
  exact List.prefix_append _ _

/-! ## The end of a process -/

/-- Asking a process to end is a turn with it, if it takes the word, and after that it
has ended by itself or is killed. -/
theorem stop_spec (deadline : Option Seconds) (p : Process) (graceful : Bool) :
    startsOf (p.stop graceful).2 = [] ∧
      ((p.through deadline ((commandsOf (p.stop graceful).2).map .said)).alive = true →
        (p.stop graceful).2.getLast? = some .killed) := by
  have asked : ∃ reply : Reply Process Unit, p.Replies deadline .said reply ∧
      (p.stop graceful).2 = reply.events ++ reply.state.kill.2 := by
    unfold stop
    split
    · exact ⟨_, p.replies_send deadline "(exit)", rfl⟩
    · exact ⟨{ outcome := .ok (), state := p },
        ⟨rfl, rfl, rfl, fun _ => List.forall_mem_nil _⟩, rfl⟩
  obtain ⟨reply, replies, events⟩ := asked
  have said : commandsOf (p.stop graceful).2 = commandsOf reply.events := by
    rw [events, commandsOf_append]
    show _ ++ List.filterMap _ _ = _
    rw [commands_kill, List.append_nil]
  constructor
  · rw [events, startsOf_append, replies.starts, events_kill]
    split <;> rfl
  · rw [said, ← replies.state, events, events_kill]
    intro alive
    rw [if_pos alive, List.getLast?_concat]

end Process

end SmtDialogue
