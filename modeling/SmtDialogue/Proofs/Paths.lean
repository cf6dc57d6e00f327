import SmtDialogue.Solver.FileSystem

/-!
# Normal forms of paths

The normal form of a path has the same root and the same names, and that is nearly all
that a walk along a path looks at (`FileSystem.find_normal`). One thing is forgotten: a
path whose last part is empty or a dot asks for a directory, and its normal form does
not. So a path leads to a file exactly when its normal form does and, where it asks for
a directory, the file is one (`FileSystem.find_eq_some_iff`).

Slashes are forgotten as well, and not only those that stand beside another one. A
relative path of one name keeps none, and then its normal form is no path any more but
a bare name (`Path.hasSlash_normal`).
-/

namespace SmtDialogue

namespace Path

variable {path part : String} {names : List String}

/-! ## Parts and names -/

/-- Between two slashes there is none. -/
theorem slash_notMem_of_mem_splitOn {cs piece : List Char} (h : piece ∈ cs.splitOn '/') :
    '/' ∉ piece := by
  induction cs generalizing piece with
  | nil =>
    rw [List.splitOn_nil, List.mem_singleton] at h
    rw [h]
    exact List.not_mem_nil
  | cons c cs ih =>
    rw [List.splitOn_cons_eq_if_modifyHead] at h
    split at h
    · rcases List.mem_cons.1 h with rfl | h
      · exact List.not_mem_nil
      · exact ih h
    · next other =>
      cases pieces : cs.splitOn '/' with
      | nil => exact absurd pieces (List.splitOn_ne_nil '/' cs)
      | cons first rest =>
        rw [pieces] at h ih
        rcases List.mem_cons.1 h with rfl | h
        · rw [List.mem_cons, not_or]
          exact ⟨fun same => other (beq_iff_eq.2 same.symm), ih List.mem_cons_self⟩
        · exact ih (List.mem_cons_of_mem _ h)

/-- A path with a slash in front has an empty part more. -/
theorem parts_slash (path : String) : parts ("/" ++ path) = "" :: parts path := by
  have front : ("/" ++ path).toList = '/' :: path.toList := by simp
  rw [parts, front, List.splitOn_cons_eq_if_modifyHead, beq_self_eq_true, if_pos rfl]
  rfl

/-- Texts without slashes are the parts of the path that they make. -/
theorem parts_intercalate (whole : ∀ n ∈ names, '/' ∉ n.toList) (some : names ≠ []) :
    parts ("/".intercalate names) = names := by
  have pieces : ("/".intercalate names).toList.splitOn '/' = names.map String.toList := by
    rw [String.toList_intercalate]
    exact List.splitOn_intercalate '/' (by simpa using whole) (by simpa using some)
  rw [parts, pieces]
  simp

theorem isName_iff : isName part = true ↔ part ≠ "" ∧ part ≠ "." := by
  simp [isName]

/-- **Names**: neither empty nor a dot, and without a slash. -/
def AreNames (names : List String) : Prop :=
  ∀ n ∈ names, isName n = true ∧ '/' ∉ n.toList

/-- The names in a path are names. -/
theorem areNames_segments (path : String) : AreNames (segments path) := by
  intro n hn
  obtain ⟨here, named⟩ := List.mem_filter.1 hn
  obtain ⟨piece, hp, rfl⟩ := List.mem_map.1 here
  rw [String.toList_ofList]
  exact ⟨named, slash_notMem_of_mem_splitOn hp⟩

/-- A path of names begins with no slash, and is empty without any. -/
theorem AreNames.intercalate (h : AreNames names) :
    ("/".intercalate names).toList.head? ≠ some '/' ∧
      ("/".intercalate names = "" ↔ names = []) := by
  cases names with
  | nil => simp
  | cons n names =>
    obtain ⟨named, whole⟩ := h n List.mem_cons_self
    have begins : ∃ rest, ("/".intercalate (n :: names)).toList = n.toList ++ rest := by
      by_cases none : names = []
      · subst none
        exact ⟨[], by simp⟩
      · rw [String.intercalate_cons_of_ne_nil none, String.toList_append, String.toList_append]
        exact ⟨_, List.append_assoc ..⟩
    obtain ⟨rest, begins⟩ := begins
    obtain ⟨c, cs, chars⟩ := List.exists_cons_of_ne_nil
      (mt String.toList_eq_nil_iff.1 (isName_iff.1 named).1)
    rw [chars] at whole begins
    refine ⟨fun slash => ?_, fun none => ?_, nofun⟩
    · rw [begins] at slash
      exact whole (Option.some.inj slash ▸ List.mem_cons_self)
    · rw [none] at begins
      cases begins

/-! ## Roots -/

theorem root_cases (path : String) : root path = "" ∨ root path = "/" ∨ root path = "//" := by
  unfold root
  split <;> simp

/-- What a path begins with, where a text that begins with no slash follows. -/
theorem root_append {rest : String} (apart : rest.toList.head? ≠ some '/') :
    root rest = "" ∧ root ("/" ++ rest) = "/" ∧ root ("//" ++ rest) = "//" := by
  have one : ("/" ++ rest).toList = '/' :: rest.toList := by simp
  have two : ("//" ++ rest).toList = '/' :: '/' :: rest.toList := by simp
  unfold root
  rw [one, two]
  cases chars : rest.toList with
  | nil => exact ⟨rfl, rfl, rfl⟩
  | cons c cs =>
    have other : c ≠ '/' := fun same => apart (by rw [chars, same]; rfl)
    simp [other]

/-! ## Normal forms -/

/-- The normal form is a dot where nothing else is left. -/
theorem normal_eq (path : String) :
    normal path = if root path = "" ∧ segments path = [] then "."
      else root path ++ "/".intercalate (segments path) := by
  have empty : (root path ++ "/".intercalate (segments path)).isEmpty = true ↔
      root path = "" ∧ segments path = [] := by
    rw [String.isEmpty_iff, String.append_eq_empty_iff, (areNames_segments path).intercalate.2]
  simp only [normal, empty]

theorem root_normal (path : String) : root (normal path) = root path := by
  have rest := root_append (areNames_segments path).intercalate.1
  rw [normal_eq]
  split
  · next none => rw [none.1]; rfl
  · rcases root_cases path with same | same | same
    · rw [same, String.empty_append]; exact rest.1
    · rw [same]; exact rest.2.1
    · rw [same]; exact rest.2.2

/-- **The parts of a normal form** are the names in the path; only what stands for the root
or for the current directory comes before them. -/
theorem parts_normal (path : String) :
    ∃ front, (∀ p ∈ front, isName p = false) ∧ parts (normal path) = front ++ segments path := by
  -- a root stands in front of an empty part if there are no names
  have rest : ∃ front, (∀ p ∈ front, isName p = false) ∧
      parts ("/".intercalate (segments path)) = front ++ segments path := by
    by_cases none : segments path = []
    · rw [none]
      exact ⟨[""], by simp [isName], by decide⟩
    · exact ⟨[], nofun, parts_intercalate (fun n hn => (areNames_segments path n hn).2) none⟩
  obtain ⟨front, silent, rest⟩ := rest
  rw [normal_eq]
  split
  · next none =>
    rw [none.2]
    exact ⟨["."], by simp [isName], by decide⟩
  · rcases root_cases path with same | same | same
    · rw [same, String.empty_append]
      exact ⟨front, silent, rest⟩
    · rw [same, parts_slash, rest]
      exact ⟨"" :: front, List.forall_mem_cons.2 ⟨rfl, silent⟩, rfl⟩
    · rw [same, show "//" = "/" ++ "/" from rfl, String.append_assoc, parts_slash, parts_slash, rest]
      exact ⟨"" :: "" :: front, List.forall_mem_cons.2 ⟨rfl, List.forall_mem_cons.2 ⟨rfl, silent⟩⟩,
        rfl⟩

/-- **A normal form has a slash** unless its path is relative and has at most one name. -/
theorem hasSlash_normal (path : String) :
    hasSlash (normal path) = true ↔ ¬(root path = "" ∧ (segments path).length ≤ 1) := by
  have names := areNames_segments path
  rw [normal_eq]
  generalize segments path = segs at *
  rcases root_cases path with same | same | same
  · rw [same]
    match segs, names with
    | [], _ => decide
    | [n], names =>
      have whole := (names n List.mem_cons_self).2
      simp [hasSlash, whole]
    | n :: m :: rest, _ => simp [hasSlash, String.intercalate_cons_of_ne_nil]
  · simp [same, hasSlash]
  · simp [same, hasSlash]

/-- Whether a path asks for a directory: its last part is empty or a dot. -/
def asksDirectory (path : String) : Bool :=
  (parts path).getLast?.any (!isName ·)

end Path

namespace FileSystem

open Path

variable {fs : FileSystem} {file found : Nat} {path : String} {ps : List String}

/-! ## Walks -/

/-- A part that is no name stays in a directory. -/
theorem step_eq_some_iff_of_silent {part : String} (silent : isName part = false) :
    fs.step file part = some found ↔ fs.isDirectory file = true ∧ found = file := by
  unfold step isDirectory
  cases fs.entries file <;> simp [silent, eq_comm]

/-- Only in a directory is there a way to go on. -/
theorem isDirectory_of_step {part : String} (walked : fs.step file part = some found) :
    fs.isDirectory file = true := by
  obtain ⟨look, here, -⟩ := Option.bind_eq_some_iff.1 walked
  rw [isDirectory, here]
  rfl

/-- Parts that are no names lead nowhere else. -/
theorem foldlM_step_of_silent (dir : fs.isDirectory file = true)
    (silent : ∀ p ∈ ps, isName p = false) : ps.foldlM fs.step file = some file := by
  induction ps with
  | nil => rfl
  | cons p ps ih =>
    rw [List.forall_mem_cons] at silent
    have stays : fs.step file p = some file :=
      (step_eq_some_iff_of_silent silent.1).2 ⟨dir, rfl⟩
    rw [List.foldlM_cons, stays]
    exact ih silent.2

/-- **A walk takes the names only**, except that it ends in a directory where its last part
is no name. -/
theorem foldlM_step_eq_some_iff :
    ps.foldlM fs.step file = some found ↔
      (ps.filter isName).foldlM fs.step file = some found ∧
        (ps.getLast?.any (!isName ·) = true → fs.isDirectory found = true) := by
  induction ps generalizing file with
  | nil => simp
  | cons p ps ih =>
    rw [List.foldlM_cons]
    cases named : isName p with
    | true =>
      have last : (p :: ps).getLast?.any (!isName ·) = ps.getLast?.any (!isName ·) := by
        cases ps <;> simp [named]
      rw [List.filter_cons_of_pos named, List.foldlM_cons, last]
      cases fs.step file p with
      | none => simp
      | some next => exact ih
    | false =>
      have stays : (fs.step file p).bind (ps.foldlM fs.step ·) = some found ↔
          fs.isDirectory file = true ∧ ps.foldlM fs.step file = some found := by
        simp [Option.bind_eq_some_iff, step_eq_some_iff_of_silent named, and_assoc]
      refine stays.trans ?_
      rw [List.filter_cons_of_neg (by simp [named])]
      cases ps with
      | nil =>
        have here : some file = some found → (fs.isDirectory file = fs.isDirectory found) :=
          fun same => congrArg _ (Option.some.inj same)
        simp only [List.foldlM_nil, List.filter_nil, List.getLast?_singleton, Option.any_some, named]
        exact ⟨fun ⟨dir, same⟩ => ⟨same, fun _ => here same ▸ dir⟩,
          fun ⟨same, dir⟩ => ⟨(here same).trans (dir rfl), same⟩⟩
      | cons q ps =>
        rw [List.getLast?_cons_cons, ← ih]
        -- the next part is looked at in the same file, which must be a directory for that
        refine and_iff_right_of_imp fun walked => ?_
        rw [List.foldlM_cons] at walked
        obtain ⟨next, step, -⟩ := Option.bind_eq_some_iff.1 walked
        exact isDirectory_of_step step

/-- **A normal form leads along the names** of its path, from the same root. -/
theorem find_normal (fs : FileSystem) (path : String) :
    fs.find (normal path) = (segments path).foldlM fs.step (fs.start (root path)) := by
  obtain ⟨front, silent, same⟩ := parts_normal path
  have stays : front.foldlM fs.step (fs.start (root path)) = some (fs.start (root path)) :=
    foldlM_step_of_silent (fs.isSome_entries_start _) silent
  rw [find, root_normal, same, List.foldlM_append, stays]
  rfl

/-- **A path leads where its normal form leads**, and to nothing but a directory where its
last part asks for one. -/
theorem find_eq_some_iff :
    fs.find path = some found ↔ fs.find (normal path) = some found ∧
      (asksDirectory path = true → fs.isDirectory found = true) := by
  rw [find_normal]
  exact foldlM_step_eq_some_iff

end FileSystem

end SmtDialogue
