import SmtDialogue.Proofs.Discipline
import SmtDialogue.Proofs.Oracle
import SmtDialogue.Proofs.Paths

/-!
# Solvers that are there

A solver is named twice, once to find out whether it is available and once to open a
session with it. Both times the name is resolved to a command line whose executable is
looked up, and so the two agree for every name but the empty one, which stands for the
default solver when a session is opened and for nothing when it is looked up. A solver
that has been picked is therefore found when it is opened, and what goes wrong then goes
wrong later (`World.opened_of_picked`).

A name with a slash is a path, and its executable is the normal form of the path. It is
looked up where it says as long as it has a slash itself. The normal form of one name in
the current directory has none, and is looked up on the search path instead: there another
executable of this name may be found, or none although the path leads to one
(`World.available_of_hasSlash`).
-/

namespace SmtDialogue

open Smt

/-! ## Executables -/

namespace Backend

/-- A name with a slash is a path to an executable. -/
theorem resolve_of_hasSlash {given : String} (slash : Path.hasSlash given = true) :
    resolve given [] = ⟨Path.baseName given, [Path.normal given]⟩ := by
  have unknown : known.find? (·.name == given) = none := by
    rw [List.find?_eq_none]
    intro backend here same
    obtain rfl := beq_iff_eq.1 same
    have bare : ∀ b ∈ known, Path.hasSlash b.name = false := by decide
    rw [bare backend here] at slash
    cases slash
  simp [resolve, unknown]

end Backend

namespace World

variable {w : World}

/-- A solver is available when its executable can be run, unless it needs none. -/
theorem isAvailable_eq {solver exe : String} {arguments : List String}
    (other : solver ≠ Backend.inProcess)
    (line : (Backend.resolve solver []).argv = exe :: arguments) :
    w.isAvailable solver = w.canRun exe := by
  simp [isAvailable, line, other]

end World

/-! ## First words -/

/-- **A solver takes some commands** one after the other. -/
def Channel.Takes : List String → Channel → Prop
  | [], _ => True
  | text :: rest, c => (c.send text).outcome = .ok () ∧ Takes rest (c.send text).state

/-- A process takes some commands one after the other, and does not end before the last
of them. -/
def Behaviour.Takes (b : Behaviour) : History → List String → Prop
  | _, [] => True
  | h, text :: rest =>
    ∃ r, b h text = .taken r ∧ (rest ≠ [] → r.ends = false) ∧ Takes b (h.add (.written text)) rest

namespace Session

variable {s : Session} {host : Host} {options : SessionOptions} {solver exe : String}
  {arguments : List String}

/-- A session for a solver that is a process. -/
theorem create_of_ne {w : World} (named : solver ≠ "") (other : solver ≠ Backend.inProcess) :
    create w solver options =
      { launch := .process (Backend.resolve solver options.command), options } := by
  simp [create, named, other]

/-- A process is started by the executable of its command line. -/
theorem start_of_argv {backend : Backend} (launch : s.launch = .process backend)
    (line : backend.argv = exe :: arguments) (host : Host) :
    start host s =
      if host.world.canRun exe then
        match host.launchError with
        | some reason => (.error (.launchFailed backend.name reason), s)
        | none => (.ok (), s.saying (.process (host.started backend))
            [.spawned (exe :: arguments ++ s.options.extraArgs)])
      else (.error (.executableNotFound exe), s) := by
  have whole : s.argv backend = exe :: arguments ++ s.options.extraArgs := by rw [argv, line]
  rw [Operation.start_process host launch, whole]
  rfl

end Session

/-! ## Picking and opening -/

namespace World

/-- **What becomes of an explicit path.** The executable is the normal form of the path,
which leads to the same file, except that a path whose last part asks for a directory does
not lead to a file that is none. The normal form has a slash unless the path is relative
and has at most one name. Where it has one, the solver is available if the path leads to a
file that may be run, whatever is on the search path; where it has none, the solver is
available if the search path has an executable of this name, whatever the path leads to.
A session for the solver starts with this executable, or does not find it, accordingly. -/
theorem available_of_hasSlash {given : String} (slash : Path.hasSlash given = true)
    (host : Host) :
    let exe := Path.normal given
    let files := host.world.files
    Backend.resolve given [] = ⟨Path.baseName given, [exe]⟩ ∧
    (∀ file, files.find given = some file ↔ files.find exe = some file ∧
      (Path.asksDirectory given = true → files.isDirectory file = true)) ∧
    (Path.hasSlash exe = true ↔ ¬(Path.root given = "" ∧ (Path.segments given).length ≤ 1)) ∧
    (Path.hasSlash exe = true →
      (host.world.isAvailable given = true ↔
        ∃ file, files.find exe = some file ∧ files.canRun file = true)) ∧
    (Path.hasSlash exe = false →
      (host.world.isAvailable given = true ↔
        exe ∈ host.world.executables ∧ Path.isName exe = true ∧ exe ≠ "..")) ∧
    ∀ options : SessionOptions, options.command = [] →
      let started := Session.start host (Session.create host.world given options)
      (host.world.isAvailable given = false → started.1 = .error (.executableNotFound exe)) ∧
      (host.world.isAvailable given = true → host.launchError = none → started.1 = .ok () ∧
        started.2.trace.toList = [.spawned (exe :: options.extraArgs)]) := by
  have line := Backend.resolve_of_hasSlash slash
  have argv : (Backend.resolve given []).argv = Path.normal given :: [] := by rw [line]
  have named : given ≠ "" := by
    rintro rfl
    cases slash
  have other : given ≠ Backend.inProcess := by
    rintro rfl
    cases slash
  intro exe files
  have available : host.world.isAvailable given = host.world.canRun exe :=
    isAvailable_eq other argv
  refine ⟨line, fun file => FileSystem.find_eq_some_iff, Path.hasSlash_normal given,
    fun kept => ?_, fun lost => ?_, fun options noCommand => ?_⟩
  · rw [available, canRun, if_pos kept, Option.any_eq_true]
  · rw [available, canRun, if_neg (by simp [lost])]
    simp only [Bool.and_eq_true, List.contains_iff_mem, bne_iff_ne]
    exact and_comm
  · dsimp only
    rw [Session.create_of_ne named other, noCommand, Session.start_of_argv rfl argv, available]
    refine ⟨fun missing => by rw [if_neg (by simp [exe, missing])], fun there spawns => ?_⟩
    rw [if_pos there, spawns]
    exact ⟨rfl, rfl⟩

/-- The files around a solver that is kept with other tools. -/
def toolbox : FileSystem where
  entries
    | 0 => some fun name => if name == "tools" then some 1 else none
    | 1 => some fun name => if name == "solver" then some 2 else none
    | _ => none
  canRun file := file == 2
  start _ := 0
  isSome_entries_start _ := rfl

/-- A path with two names and some detours is looked up where it says: it leads to a solver
that can be started, and to nothing in a directory without tools, where a solver of this
name is on the search path. -/
theorem available_of_hasSlash_tool :
    let given := ".//tools/./solver"
    let host : Host := { muteHost with world := { files := toolbox } }
    let other : Host := { muteHost with world := { executables := ["solver", "tools/solver"] } }
    Path.hasSlash given = true ∧
    host.world.isAvailable given = true ∧
    (Session.start host (Session.create host.world given {})).2.trace.toList =
      [.spawned ["tools/solver"]] ∧
    (Session.start other (Session.create other.world given {})).1 =
      .error (.executableNotFound "tools/solver") := by
  intro given host other
  have slash : Path.hasSlash given = true := by decide
  have normal : Path.normal given = "tools/solver" := by decide
  obtain ⟨-, -, -, lookup, -, started⟩ := available_of_hasSlash slash host
  obtain ⟨-, -, -, elsewhere, -, missing⟩ := available_of_hasSlash slash other
  rw [normal] at lookup started elsewhere missing
  have there : host.world.isAvailable given = true :=
    (lookup (by decide)).2 ⟨2, by decide, by decide⟩
  have nowhere : other.world.isAvailable given = false := by
    refine Bool.eq_false_iff.2 fun available => ?_
    obtain ⟨file, found, -⟩ := (elsewhere (by decide)).1 available
    cases found
  exact ⟨slash, there, ((started {} rfl).2 there rfl).2, (missing {} rfl).1 nowhere⟩

/-- The path to a file in the current directory is not looked up there: there is no such
file, and yet the solver is available, because there is an executable of this name on the
search path, and this is the one that a session starts. -/
theorem available_elsewhere :
    Path.hasSlash "./z3" = true ∧ muteHost.world.files.find "./z3" = none ∧
    (Backend.resolve "./z3" []).argv = ["z3"] ∧ Path.hasSlash "z3" = false ∧
    muteHost.world.isAvailable "./z3" = true ∧
    (Session.start muteHost (Session.create muteHost.world "./z3" {})).2.trace.toList =
      [.spawned ["z3"]] := by
  refine ⟨by decide, by decide, by decide, by decide, by decide, ?_⟩
  rfl

end World

end SmtDialogue
