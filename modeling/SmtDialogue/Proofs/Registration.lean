import SmtDialogue.Proofs.Positions

/-!
# Names taken into use

Making an array takes the names of its elements into use, one after the other in the order
of their positions (`arrayNamed_eq`). When none of them is in use the array is made, and
nothing is reported or refused (`array_of_fresh`). All checks of the dimensions and of the
name come before the first name is taken, and so an array that is refused for these leaves
the registry as it was.

A fatal registry refuses the first name that is in use, and this may be the name of any
element. The names of the elements before it stay in use then, although no array has been
made: a refusal leaves the names as they were when it is the first element that is refused,
and not otherwise (`names_of_refused`).

The check of the name of an array is made at its elements, whose names have been made of
it by then. So an array takes every name that can be written out, also one that a single
variable is refused for (`array_of_anyName`).
-/

namespace SmtDialogue.Naming

/-! ## One name after the other -/

section Apply

variable {α β : Type}

theorem bind_apply (x : Naming α) (f : α → Naming β) (r : Registry) :
    (x >>= f) r =
      match x r with
      | (.ok a, r') => f a r'
      | (.error e, r') => (.error e, r') := by
  show ExceptT.bindCont f (x r).1 (x r).2 = _
  rcases x r with ⟨_ | _, _⟩ <;> rfl

@[simp] theorem pure_apply (a : α) (r : Registry) : (pure a : Naming α) r = (.ok a, r) := rfl

@[simp] theorem throw_apply (e : BuildError) (r : Registry) :
    (throw e : Naming α) r = (.error e, r) := rfl

theorem ok_bind (a : α) (f : α → Naming β) :
    ((liftM (.ok a : Except BuildError α) : Naming α) >>= f) = f a := rfl

end Apply

variable {name : String} {names : List String} {r r' : Registry} {e : BuildError}

/-- **A name that is not in use** is taken without a report. -/
theorem register_of_fresh (fresh : name ∉ r.names) :
    register name r = (.ok false, { r with names := name :: r.names }) := by
  have free : r.contains name = false := by simpa [Registry.contains] using fresh
  show Registry.register name r = _
  rw [Registry.register, if_neg (by simp [free])]

/-- **A name that is in use** leaves the names as they are, and a fatal registry refuses
it. -/
theorem register_of_used (used : name ∈ r.names) :
    (r.fatal = true ∧ register name r = (.error (.duplicateName name), r)) ∨
      r.fatal = false ∧ ∃ r₁, register name r = (.ok true, r₁) ∧ r₁.names = r.names ∧
        r₁.fatal = false := by
  have taken : r.contains name = true := by simpa [Registry.contains] using used
  show _ ∧ Registry.register name r = _ ∨ _ ∧ ∃ r₁, Registry.register name r = _ ∧ _
  rw [Registry.register, if_pos taken]
  cases fatal : r.fatal with
  | true => exact .inl ⟨rfl, rfl⟩
  | false =>
    refine .inr ⟨rfl, ?_⟩
    rw [if_neg Bool.false_ne_true]
    split
    · exact ⟨_, rfl, rfl, rfl⟩
    · exact ⟨_, rfl, rfl, fatal⟩

/-- **Several names**, taken into use in their order. -/
def registerAll (names : List String) : Naming Unit :=
  names.forM fun name => do
    let _ ← register name
    pure ()

theorem registerAll_cons (name : String) (names : List String) :
    registerAll (name :: names) = register name >>= fun _ => registerAll names := by
  simp [registerAll]

theorem registerAll_append (names more : List String) :
    registerAll (names ++ more) = registerAll names >>= fun _ => registerAll more := by
  simp [registerAll]

/-- **Names that are not in use** and different from each other are all taken, without a
report. -/
theorem registerAll_of_fresh (nodup : names.Nodup) (fresh : ∀ x ∈ names, x ∉ r.names) :
    registerAll names r = (.ok (), { r with names := names.reverse ++ r.names }) := by
  induction names generalizing r with
  | nil => rfl
  | cons x names ih =>
    rw [List.nodup_cons] at nodup
    rw [List.forall_mem_cons] at fresh
    have later : ∀ y ∈ names, y ∉ x :: r.names := fun y hy here =>
      (List.mem_cons.1 here).elim (fun same => nodup.1 (same ▸ hy)) (fresh.2 y hy)
    rw [registerAll_cons, bind_apply, register_of_fresh fresh.1]
    show registerAll names { r with names := x :: r.names } = _
    rw [ih nodup.2 later, List.reverse_cons, List.append_assoc]
    rfl

/-- **A run over some names stops at one of them** that a fatal registry holds; the names
before it have been taken. -/
def StopsAt (names : List String) (name : String) (r r' : Registry) : Prop :=
  ∃ taken rest, names = taken ++ name :: rest ∧ r.fatal = true ∧ name ∈ r.names ∧
    (∀ x ∈ taken, x ∉ r.names) ∧ r' = { r with names := taken.reverse ++ r.names }

/-- A run that has taken a new name stops where the rest of it does. -/
theorem StopsAt.cons {x : String} (fresh : x ∉ r.names) (new : x ∉ names)
    (h : StopsAt names name { r with names := x :: r.names } r') :
    StopsAt (x :: names) name r r' := by
  obtain ⟨taken, rest, rfl, fatal, used, before, rfl⟩ := h
  have other : name ≠ x := by
    rintro rfl
    exact new (List.mem_append_right _ List.mem_cons_self)
  have before : ∀ y ∈ x :: taken, y ∉ r.names :=
    List.forall_mem_cons.2 ⟨fresh, fun y hy here => before y hy (List.mem_cons_of_mem _ here)⟩
  refine ⟨x :: taken, rest, rfl, fatal, (List.mem_cons.1 used).resolve_left other, before, ?_⟩
  simp

/-- **Where a run of different names is refused**: at the first one that is in use, by a
fatal registry. -/
theorem exists_of_registerAll_error (nodup : names.Nodup)
    (refused : registerAll names r = (.error e, r')) :
    ∃ name, e = .duplicateName name ∧ StopsAt names name r r' := by
  induction names generalizing r with
  | nil => cases refused
  | cons x names ih =>
    rw [List.nodup_cons] at nodup
    rw [registerAll_cons, bind_apply] at refused
    by_cases used : x ∈ r.names
    · rcases register_of_used used with ⟨fatal, here⟩ | ⟨-, r₁, passed, -, mild⟩
      · rw [here] at refused
        cases refused
        exact ⟨x, rfl, [], names, rfl, fatal, used, nofun, rfl⟩
      · -- a registry that is not fatal refuses no later name either
        rw [passed] at refused
        obtain ⟨_, -, _, _, -, fatal, -⟩ := ih nodup.2 refused
        rw [mild] at fatal
        cases fatal
    · rw [register_of_fresh used] at refused
      obtain ⟨name, same, stops⟩ := ih nodup.2 refused
      exact ⟨name, same, stops.cons used nodup.1⟩

/-! ## Elements in the order of their positions -/

/-- Steps that each take some names and give something make one run. -/
theorem mapM_registerAll {α β : Type} (names : α → List String) (give : α → β) (xs : List α) :
    (xs.mapM fun x => registerAll (names x) >>= fun _ => pure (give x) : Naming (List β)) =
      registerAll (xs.flatMap names) >>= fun _ => pure (xs.map give) := by
  induction xs with
  | nil => rfl
  | cons x xs ih =>
    rw [List.mapM_cons, ih]
    simp [registerAll_append]

theorem dimension?_int (d : Nat) : dimension? (.int d) = some d := by
  simp [dimension?]

/-- **Names for arrays.** One variable is called by a text that is not empty. A row with
members is called by anything that can be written out, and a row without any by anything
at all. -/
def CanName (name : Operand) : List Nat → Prop
  | [] => name.isName = true
  | 0 :: _ => True
  | (_ + 1) :: _ => name.isRenderable = true

theorem canName_of_isRenderable {name : Operand} {dims : List Nat}
    (short : name.isRenderable = true) (named : dims = [] → name.isName = true) :
    CanName name dims := by
  rcases dims with _ | ⟨_ | d, dims⟩
  · exact named rfl
  · exact trivial
  · exact short

/-- A name that can be written out, with an index appended. -/
theorem elementName_eq {name : Operand} (short : name.isRenderable = true) (i : Nat) :
    elementName name i = .ok (.text (name.plain ++ "_" ++ toString i)) := by
  rw [elementName, Operand.runningText, if_pos short]
  rfl

/-- It is a text that is not empty, so it names an array of any dimensions. -/
theorem canName_element (text : String) (i : Nat) (dims : List Nat) :
    CanName (.text (text ++ "_" ++ toString i)) dims :=
  canName_of_isRenderable rfl fun _ => by simp [Operand.isName]

/-- A row whose name cannot be written out has no first member. -/
theorem arrayNamed_of_not_isRenderable {name : Operand} (long : name.isRenderable = false)
    (sort : Option SmtSort) {d : Operand} {n : Nat} (size : dimension? d = some (n + 1))
    (given : List Operand) : arrayNamed name sort (d :: given) = throw .valueTooLong := by
  have unnamed (i : Nat) : elementName name i = .error .valueTooLong := by
    rw [elementName, Operand.runningText, long]
    rfl
  rw [arrayNamed, size]
  simp only [unnamed, List.range_succ_eq_map, List.mapM_cons]
  rfl

/-- **An array of variables**: the names of its elements are taken in the order of their
positions, and the element at a position is the variable of its name. -/
theorem arrayNamed_eq (sort : Option SmtSort) (dims : List Nat) {name : Operand}
    (named : CanName name dims) :
    arrayNamed name sort (dims.map fun d : Nat => .int d) =
      registerAll ((positions dims).map (indexed name.plain)) >>= fun _ =>
        pure (tabulate dims fun ix => .expr (.var (indexed name.plain ix) sort)) := by
  induction dims generalizing name with
  | nil =>
    rw [List.map_nil, arrayNamed, variableNamed, if_pos (show name.isName = true from named)]
    simp [positions, registerAll, tabulate]
  | cons d dims ih =>
    rw [List.map_cons, arrayNamed, dimension?_int]
    cases d with
    | zero => rfl
    | succ d =>
      have row (i : Nat) := ih (canName_element name.plain (i + 1) dims)
      have names : ((positions ((d + 1) :: dims)).map (indexed name.plain)) =
          (List.range (d + 1)).flatMap fun i =>
            (positions dims).map (indexed (name.plain ++ "_" ++ toString (i + 1))) := by
        rw [positions, List.map_flatMap]
        simp only [List.map_map]
        rfl
      rw [names]
      simp only [elementName_eq named, ok_bind, row, Operand.plain_text, mapM_registerAll,
        bind_assoc, pure_bind]
      rfl

/-- **The dimensions of an array** as they are looked at: one after the other, up to one
that is zero. There is no element behind it, and what else is given is not looked at. -/
def dimensions : List Operand → Except BuildError (List Nat)
  | [] => .ok []
  | d :: rest =>
    match dimension? d with
    | none => .error (.showing d (.dimension d))
    | some 0 => .ok [0]
    | some (n + 1) => (dimensions rest).map ((n + 1) :: ·)

/-- Dimensions that are not looked at do not matter. -/
theorem arrayNamed_of_dimensions {given : List Operand} {dims : List Nat}
    (read : dimensions given = .ok dims) (name : Operand) (sort : Option SmtSort) :
    arrayNamed name sort given = arrayNamed name sort (dims.map fun d : Nat => .int d) := by
  induction given generalizing name dims with
  | nil =>
    cases read
    rfl
  | cons d given ih =>
    rw [dimensions] at read
    split at read
    · cases read
    · next zero =>
      cases read
      rw [arrayNamed, zero, List.map_cons, arrayNamed, dimension?_int]
      rfl
    · next n size =>
      cases rest : dimensions given with
      | error e => rw [rest] at read; cases read
      | ok more =>
        rw [rest] at read
        cases read
        rw [arrayNamed, size, List.map_cons, arrayNamed, dimension?_int]
        simp only [ih rest]

/-- An operand that cannot be shown is refused for its length, and not for a name in
use. -/
theorem showing_ne_duplicateName {given : Operand} {cause : BuildError} {x : String}
    (other : cause ≠ .duplicateName x) : BuildError.showing given cause ≠ .duplicateName x := by
  unfold BuildError.showing
  split
  · exact other
  · exact nofun

/-- **A dimension that is refused** is refused before any name is taken. -/
theorem exists_throw_of_dimensions_error {given : List Operand} {cause : BuildError}
    (failed : dimensions given = .error cause) (name : Operand) (sort : Option SmtSort) :
    ∃ e, arrayNamed name sort given = throw e ∧ ∀ x, e ≠ .duplicateName x := by
  induction given generalizing name cause with
  | nil => cases failed
  | cons d given ih =>
    rw [dimensions] at failed
    split at failed
    · next none => exact ⟨_, by rw [arrayNamed, none], fun _ => showing_ne_duplicateName (by simp)⟩
    · cases failed
    · next n size =>
      cases short : name.isRenderable with
      | false => exact ⟨_, arrayNamed_of_not_isRenderable short sort size given, nofun⟩
      | true =>
        cases rest : dimensions given with
        | ok more => rw [rest] at failed; cases failed
        | error cause =>
          -- the first element is refused, and no other one is looked at
          obtain ⟨e, first, other⟩ := ih rest (.text (name.plain ++ "_" ++ toString (0 + 1)))
          refine ⟨e, ?_, other⟩
          rw [arrayNamed, size]
          simp only [elementName_eq short, ok_bind, List.range_succ_eq_map, List.mapM_cons, first]
          rfl

/-! ## Arrays whose names are free -/

/-- An array is made when none of its names is in use. -/
theorem arrayNamed_of_fresh {dims : List Nat} {name : String} (named : name ≠ "") {r : Registry}
    (fresh : ∀ ix, IsPosition dims ix → indexed name ix ∉ r.names) (sort : Option SmtSort) :
    arrayNamed (.text name) sort (dims.map fun d : Nat => .int d) r =
      (.ok (tabulate dims fun ix => .expr (.var (indexed name ix) sort)),
        { r with names := ((positions dims).map (indexed name)).reverse ++ r.names }) := by
  have isName : (Operand.text name).isName = true := by simpa [Operand.isName] using named
  have plain : (Operand.text name).plain = name := rfl
  have free : ∀ x ∈ (positions dims).map (indexed name), x ∉ r.names := by
    intro x hx
    obtain ⟨ix, position, rfl⟩ := List.mem_map.1 hx
    exact fresh ix (mem_positions.1 position)
  rw [arrayNamed_eq sort dims (canName_of_isRenderable rfl fun _ => isName), bind_apply, plain,
    registerAll_of_fresh (nodup_names name dims) free]
  rfl

theorem arrayOf_concat (constructor : String) (sort : Option SmtSort) (given : List Operand)
    (name : Operand) : arrayOf constructor sort (given ++ [name]) = arrayNamed name sort given := by
  rw [arrayOf, List.getLast?_concat, List.dropLast_concat]

/-- **Array constructors make distinct variables at their places.** Let the name be a text
that is not empty, and the name of no element be in use. Then the constructor makes the
array of the given dimensions, with an unassigned variable of its sort at each position
that is called by the name of this position. The names of different positions differ; they
are in use afterwards beside those of before, as many as the product of the dimensions;
and nothing is reported or refused, whatever the flags are. -/
theorem array_of_fresh {dims : List Nat} {name : String} (named : name ≠ "") {r : Registry}
    (fresh : ∀ ix, IsPosition dims ix → r.contains (indexed name ix) = false) :
    ∀ make sort, (make, sort) ∈ [(bools, SmtSort.bool), (ints, SmtSort.int)] →
      ∃ array r', make (dims.map (fun d : Nat => .int d) ++ [.text name]) r = (.ok array, r') ∧
        array.IsArray dims ∧
        (∀ ix, IsPosition dims ix →
          array.elementAt? ix = some (.expr (.var (indexed name ix) (some sort)))) ∧
        (∀ ix jx, IsPosition dims ix → IsPosition dims jx →
          indexed name ix = indexed name jx → ix = jx) ∧
        (∀ x, r'.contains x = true ↔
          r.contains x = true ∨ ∃ ix, IsPosition dims ix ∧ x = indexed name ix) ∧
        r'.size = r.size + dims.prod ∧
        r'.reported = r.reported ∧ r'.warnDuplicates = r.warnDuplicates ∧ r'.fatal = r.fatal := by
  have made := arrayNamed_of_fresh named fun ix position => by
    simpa [Registry.contains] using fresh ix position
  intro make sort constructor
  refine ⟨tabulate dims fun ix => .expr (.var (indexed name ix) (some sort)),
    { r with names := ((positions dims).map (indexed name)).reverse ++ r.names }, ?_,
    Operand.isArray_tabulate dims _, fun ix position => Operand.elementAt?_tabulate position _,
    fun ix jx _ _ same => indexed_injective name same, fun x => ?_, ?_, rfl, rfl, rfl⟩
  · rcases List.mem_pair.1 constructor with same | same
    · cases same
      exact (congrFun (arrayOf_concat ..) r).trans (made _)
    · cases same
      exact (congrFun (arrayOf_concat ..) r).trans (made _)
  · simp [Registry.contains, mem_positions, or_comm, eq_comm]
  · simp [Registry.size, length_positions, Nat.add_comm]

/-- Six integers of a fatal registry in which the name of the array itself is in use, and
names that look like those of elements. -/
theorem array_of_fresh_table :
    let r : Registry := { fatal := true, names := ["q_1", "q_0_1", "q_2_4", "q_01_1"] }
    ("q_1" : String) ≠ "" ∧
    (∀ ix, IsPosition [2, 3] ix → r.contains (indexed "q" ix) = false) ∧
    ∃ array r', ints [.int 2, .int 3, .text "q"] r = (.ok array, r') ∧
      array.elementAt? [2, 3] = some (.expr (.var "q_2_3" (some .int))) ∧ r'.size = 10 := by
  intro r
  have fresh : ∀ ix, IsPosition [2, 3] ix → r.contains (indexed "q" ix) = false := by
    intro ix position
    have each : ∀ ix ∈ positions [2, 3], r.contains (indexed "q" ix) = false := by decide
    exact each ix (mem_positions.2 position)
  obtain ⟨array, r', made, -, elements, -, -, size, -⟩ :=
    array_of_fresh (by decide) fresh ints .int (by simp)
  have last : IsPosition [2, 3] [2, 3] := mem_positions.1 (by decide)
  exact ⟨by decide, fresh, array, r', made, elements _ last, size⟩

/-! ## Arrays that are refused -/

/-- **A name that cannot be used** is refused before any name is taken. -/
theorem exists_throw_of_not_canName {dims : List Nat} {name : Operand}
    (unnamed : ¬ CanName name dims) (sort : Option SmtSort) :
    ∃ e, arrayNamed name sort (dims.map fun d : Nat => .int d) = throw e ∧
      ∀ x, e ≠ .duplicateName x := by
  rcases dims with _ | ⟨_ | d, dims⟩
  · refine ⟨.showing name (.invalidName name), ?_, fun _ => showing_ne_duplicateName nofun⟩
    rw [List.map_nil, arrayNamed, variableNamed, if_neg (show ¬ name.isName = true from unnamed)]
  · exact absurd trivial unnamed
  · exact ⟨_, arrayNamed_of_not_isRenderable (Bool.eq_false_iff.2 unnamed) sort
      (dimension?_int (d + 1)) _, nofun⟩

/-- **What a refused array leaves behind.** Either no name has been taken, or the registry
has refused the name of an element. -/
theorem exists_of_arrayNamed_error {given : List Operand} {name : Operand}
    {sort : Option SmtSort} (refused : arrayNamed name sort given r = (.error e, r')) :
    ((∀ x, e ≠ .duplicateName x) ∧ r' = r) ∨
      ∃ x, e = .duplicateName x ∧ ∃ dims, dimensions given = .ok dims ∧
        StopsAt ((positions dims).map (indexed name.plain)) x r r' := by
  have thrown {e' : BuildError} (threw : arrayNamed name sort given = throw e')
      (other : ∀ x, e' ≠ .duplicateName x) : (∀ x, e ≠ .duplicateName x) ∧ r' = r := by
    rw [threw] at refused
    cases refused
    exact ⟨other, rfl⟩
  cases read : dimensions given with
  | error cause =>
    obtain ⟨e', threw, other⟩ := exists_throw_of_dimensions_error read name sort
    exact .inl (thrown threw other)
  | ok dims =>
    by_cases named : CanName name dims
    · rw [arrayNamed_of_dimensions read, arrayNamed_eq sort dims named, bind_apply] at refused
      rcases run : registerAll ((positions dims).map (indexed name.plain)) r with ⟨_ | _, r₁⟩
      · rw [run] at refused
        cases refused
        obtain ⟨x, same, stops⟩ := exists_of_registerAll_error (nodup_names _ dims) run
        exact .inr ⟨x, same, dims, rfl, stops⟩
      · rw [run] at refused
        cases refused
    · obtain ⟨cause, threw, other⟩ := exists_throw_of_not_canName named sort
      exact .inl (thrown ((arrayNamed_of_dimensions read name sort).trans threw) other)

/-- **A variable that is refused** leaves the registry as it was. -/
theorem eq_of_variableNamed_error {name : Operand} {sort : Option SmtSort}
    (refused : variableNamed name sort r = (.error e, r')) : r' = r := by
  have refused : arrayNamed name sort [] r = (.error e, r') := refused
  rcases exists_of_arrayNamed_error refused with
    ⟨-, rfl⟩ | ⟨x, -, dims, read, taken, rest, split, -, -, -, rfl⟩
  · rfl
  · cases read
    cases taken with
    | nil => rfl
    | cons => simp [positions] at split

/-- So does a variable whose sort is left open, also when it is not given its name alone. -/
theorem eq_of_untyped_error {arguments : List Operand}
    (refused : untyped arguments r = (.error e, r')) : r' = r := by
  rcases arguments with _ | ⟨name, _ | ⟨other, _ | ⟨more, rest⟩⟩⟩
  · cases refused
    rfl
  · exact eq_of_variableNamed_error refused
  · by_cases absent : other = .absent
    · rw [absent] at refused
      exact eq_of_variableNamed_error refused
    · rw [untyped] at refused
      · split at refused
        · cases refused
          rfl
        · cases refused
          rfl
      · exact absent
  · rw [untyped] at refused
    · cases refused
      rfl
    all_goals simp

/-- Taking names that were not in use changes the names, unless there are none. -/
theorem contains_eq_iff {taken : List String} (unused : ∀ x ∈ taken, r.contains x = false) :
    (∀ x, Registry.contains { r with names := taken.reverse ++ r.names } x = r.contains x) ↔
      taken = [] := by
  refine ⟨fun same => List.eq_nil_iff_forall_not_mem.2 fun x hx => ?_, ?_⟩
  · have kept := (same x).trans (unused x hx)
    simp [Registry.contains, hx] at kept
  · rintro rfl
    exact fun _ => rfl

/-- **What a refusal leaves in the registry.** A constructor that is refused for anything
but a name in use leaves the registry as it was. A name in use is refused by a fatal
registry only; it is that of the first element whose name is in use, and the names of the
elements before it are in use from then on. So the names are what they were exactly when
it is the first element that is refused, which for one variable it always is. -/
theorem names_of_refused (arguments : List Operand) (r r' : Registry) (e : BuildError) :
    (∀ make ∈ [bools, ints], make arguments r = (.error e, r') →
      ((∀ x, e ≠ .duplicateName x) → r' = r) ∧
      ∀ x, e = .duplicateName x → r.fatal = true ∧ r.contains x = true ∧
        ∃ name dims taken rest, arguments.getLast? = some name ∧
          dimensions arguments.dropLast = .ok dims ∧
          (positions dims).map (indexed name.plain) = taken ++ x :: rest ∧
          (∀ y ∈ taken, r.contains y = false) ∧
          r' = { r with names := taken.reverse ++ r.names } ∧
          ((∀ y, r'.contains y = r.contains y) ↔ taken = [])) ∧
    (untyped arguments r = (.error e, r') → r' = r) := by
  refine ⟨fun make constructor refused => ?_, eq_of_untyped_error⟩
  obtain ⟨called, sort, rfl⟩ : ∃ called sort, make = arrayOf called sort := by
    rcases List.mem_pair.1 constructor with rfl | rfl
    · exact ⟨"Bool", some .bool, rfl⟩
    · exact ⟨"Int", some .int, rfl⟩
  rw [arrayOf] at refused
  cases given : arguments.getLast? with
  | none =>
    rw [given] at refused
    cases refused
    exact ⟨fun _ => rfl, nofun⟩
  | some name =>
    rw [given] at refused
    rcases exists_of_arrayNamed_error refused with
      ⟨other, rfl⟩ | ⟨x, rfl, dims, read, taken, rest, split, fatal, used, fresh, rfl⟩
    · exact ⟨fun _ => rfl, fun x same => absurd same (other x)⟩
    · refine ⟨fun other => absurd rfl (other x), fun y same => ?_⟩
      cases same
      have unused : ∀ y ∈ taken, r.contains y = false := by
        simpa [Registry.contains] using fresh
      exact ⟨fatal, by simpa [Registry.contains] using used, name, dims, taken, rest, rfl,
        read, split, unused, rfl, contains_eq_iff unused⟩

/-- In a fatal registry that holds the name of the third of four elements, the names of the
first two stay; nothing stays where a dimension or the name of one variable is refused. -/
theorem names_of_refused_partway :
    let r : Registry := { fatal := true, names := ["q_2_1"] }
    let r' : Registry := { fatal := true, names := ["q_1_2", "q_1_1", "q_2_1"] }
    ints [.int 2, .int 2, .text "q"] r = (.error (.duplicateName "q_2_1"), r') ∧
    (∃ taken rest, (positions [2, 2]).map (indexed "q") = taken ++ "q_2_1" :: rest ∧
      r' = { r with names := taken.reverse ++ r.names } ∧
      ((∀ y, r'.contains y = r.contains y) ↔ taken = [])) ∧
    bools [.int 2, .int (-1), .text "p"] r = (.error (.dimension (.int (-1))), r) ∧
    untyped [.text "q_2_1"] r = (.error (.duplicateName "q_2_1"), r) := by
  intro r r'
  have partway : ints [.int 2, .int 2, .text "q"] r = (.error (.duplicateName "q_2_1"), r') := rfl
  have negative : (bools [.int 2, .int (-1), .text "p"] r).1 = .error (.dimension (.int (-1))) := rfl
  have single : (untyped [.text "q_2_1"] r).1 = .error (.duplicateName "q_2_1") := rfl
  refine ⟨partway, ?_, ?_, ?_⟩
  · obtain ⟨-, -, name, dims, taken, rest, named, read, elements, -, left, kept⟩ :=
      ((names_of_refused _ r r' _).1 ints (by simp) partway).2 _ rfl
    cases named
    cases read
    exact ⟨taken, rest, elements, left, kept⟩
  · rcases run : bools [.int 2, .int (-1), .text "p"] r with ⟨_, left⟩
    rw [run] at negative
    cases negative
    rw [((names_of_refused _ r left _).1 bools (by simp) run).1 nofun]
  · rcases run : untyped [.text "q_2_1"] r with ⟨_, left⟩
    rw [run] at single
    cases single
    rw [(names_of_refused _ r left _).2 run]

/-- Two variables of which the second has a name in use are refused, and the name of the
first is in use afterwards. -/
theorem names_left_of_refused :
    let r : Registry := { fatal := true, names := ["z_2"] }
    ∃ r', bools [.int 2, .text "z"] r = (.error (.duplicateName "z_2"), r') ∧
      r.contains "z_1" = false ∧ r'.contains "z_1" = true := by
  intro r
  exact ⟨{ r with names := ["z_1", "z_2"] }, rfl, rfl, rfl⟩

/-! ## Names of any kind -/

/-- Names that have been taken are in use. -/
theorem mem_of_registerAll (taken : registerAll names r = (.ok (), r')) :
    (∀ x ∈ names, x ∈ r'.names) ∧ ∀ x ∈ r.names, x ∈ r'.names := by
  induction names generalizing r with
  | nil =>
    cases taken
    exact ⟨nofun, fun _ => id⟩
  | cons x names ih =>
    rw [registerAll_cons, bind_apply] at taken
    rcases first : register x r with ⟨_ | used, r₁⟩
    · rw [first] at taken
      cases taken
    · rw [first] at taken
      obtain ⟨rest, kept⟩ := ih taken
      have inUse (y : String) : y ∈ r₁.names ↔ y = x ∨ y ∈ r.names := by
        have here : Registry.register x r = (.ok used, r₁) := first
        have after : y ∈ (Registry.register x r).2.names ↔ y = x ∨ y ∈ r.names :=
          Registry.mem_names_register (by rw [here])
        rwa [here] at after
      exact ⟨List.forall_mem_cons.2 ⟨kept x ((inUse x).2 (.inl rfl)), rest⟩,
        fun y hy => kept y ((inUse y).2 (.inr hy))⟩

/-- **What refuses an array**, when its dimensions and its name are valid: a fatal registry,
for the name of an element. -/
theorem duplicate_of_arrayNamed_error {dims : List Nat} {name : Operand}
    {sort : Option SmtSort} (named : CanName name dims)
    (refused : arrayNamed name sort (dims.map fun d : Nat => .int d) r = (.error e, r')) :
    r.fatal = true ∧ ∃ ix, IsPosition dims ix ∧ e = .duplicateName (indexed name.plain ix) ∧
      r.contains (indexed name.plain ix) = true := by
  rw [arrayNamed_eq sort dims named, bind_apply] at refused
  rcases run : registerAll ((positions dims).map (indexed name.plain)) r with ⟨_ | _, r₁⟩
  · rw [run] at refused
    cases refused
    obtain ⟨x, rfl, taken, rest, split, fatal, used, -, -⟩ :=
      exists_of_registerAll_error (nodup_names _ dims) run
    have here : x ∈ (positions dims).map (indexed name.plain) := by
      rw [split]
      exact List.mem_append_right _ List.mem_cons_self
    obtain ⟨ix, position, rfl⟩ := List.mem_map.1 here
    exact ⟨fatal, ix, mem_positions.1 position, rfl, by simpa [Registry.contains] using used⟩
  · rw [run] at refused
    cases refused

/-- **An array that has been made** is the table of the variables at its positions, whose
names have been taken. -/
theorem eq_of_arrayNamed_ok {dims : List Nat} {name array : Operand} {sort : Option SmtSort}
    (made : arrayNamed name sort (dims.map fun d : Nat => .int d) r = (.ok array, r')) :
    registerAll ((positions dims).map (indexed name.plain)) r = (.ok (), r') ∧
      array = tabulate dims fun ix => .expr (.var (indexed name.plain ix) sort) := by
  have named : CanName name dims := by
    by_contra unnamed
    obtain ⟨e, threw, -⟩ := exists_throw_of_not_canName unnamed sort
    rw [threw] at made
    cases made
  rw [arrayNamed_eq sort dims named, bind_apply] at made
  rcases run : registerAll ((positions dims).map (indexed name.plain)) r with ⟨_ | _, r₁⟩
  · rw [run] at made
    cases made
  · rw [run] at made
    cases made
    exact ⟨rfl, rfl⟩

/-- **What an array holds**: at each position the variable of its name, which is in use. -/
theorem elements_of_arrayNamed {dims : List Nat} {name array : Operand} {sort : Option SmtSort}
    (made : arrayNamed name sort (dims.map fun d : Nat => .int d) r = (.ok array, r')) :
    array.IsArray dims ∧ ∀ ix, IsPosition dims ix →
      array.elementAt? ix = some (.expr (.var (indexed name.plain ix) sort)) ∧
        r'.contains (indexed name.plain ix) = true := by
  obtain ⟨run, rfl⟩ := eq_of_arrayNamed_ok made
  refine ⟨Operand.isArray_tabulate dims _, fun ix position =>
    ⟨Operand.elementAt?_tabulate position _, ?_⟩⟩
  have taken := (mem_of_registerAll run).1 _ (List.mem_map_of_mem (mem_positions.2 position))
  simpa [Registry.contains] using taken

/-- **Arrays take any name.** One variable is refused for its name exactly when this is no
text or the empty one, and then no name is taken into use. An array of valid dimensions is
never refused like this: it has the variables called by what the name is written out as with
their indices appended, whatever the name is, and only a fatal registry refuses the name
of an element that is in use. The check of the name stands behind the last dimension, where
each element has been given a name that is a text. Writing the name out fails for an integer
with too many digits, alone or as a member; this is an error of another kind, and no name is
taken into use. -/
theorem array_of_anyName {dims : List Nat} (nested : dims ≠ []) (name : Operand)
    (r : Registry) :
    ∀ make sort, (make, sort) ∈ [(bools, SmtSort.bool), (ints, SmtSort.int)] →
      ((∃ e r', make [name] r = (.error e, r') ∧ e.kind = .typeMismatch) ↔
        name.isName = false ∧ name.isDisplayable = true) ∧
      (name.isName = false → make [name] r =
        (.error (if name.isDisplayable then .invalidName name else .valueTooLong), r)) ∧
      (∀ e r', make (dims.map (fun d : Nat => .int d) ++ [name]) r = (.error e, r') →
        e.kind ≠ .typeMismatch ∧
        (name.isRenderable = true → r.fatal = true ∧
          ∃ ix, IsPosition dims ix ∧ e = .duplicateName (indexed name.plain ix) ∧
            r.contains (indexed name.plain ix) = true) ∧
        (name.isRenderable = false → e = .valueTooLong ∧ r' = r)) ∧
      ∀ array r', make (dims.map (fun d : Nat => .int d) ++ [name]) r = (.ok array, r') →
        array.IsArray dims ∧
          ∀ ix, IsPosition dims ix →
            array.elementAt? ix = some (.expr (.var (indexed name.plain ix) (some sort))) ∧
              r'.contains (indexed name.plain ix) = true := by
  intro make sort constructor
  obtain ⟨called, rfl⟩ : ∃ called, make = arrayOf called (some sort) := by
    rcases List.mem_pair.1 constructor with same | same
    · cases same
      exact ⟨"Bool", rfl⟩
    · cases same
      exact ⟨"Int", rfl⟩
  have single : arrayOf called (some sort) [name] = arrayNamed name (some sort) [] := rfl
  rw [arrayOf_concat, single]
  have refuses (noName : name.isName = false) : arrayNamed name (some sort) [] r =
      (.error (if name.isDisplayable then .invalidName name else .valueTooLong), r) := by
    rw [arrayNamed, variableNamed, noName, if_neg Bool.false_ne_true]
    rfl
  refine ⟨⟨?_, ?_⟩, refuses, fun e r' refused => ?_,
    fun array r' made => elements_of_arrayNamed made⟩
  · rintro ⟨e, r', refused, kind⟩
    cases named : name.isName with
    | true =>
      obtain ⟨-, ix, -, rfl, -⟩ :=
        duplicate_of_arrayNamed_error (show CanName name [] from named) refused
      cases kind
    | false =>
      rw [refuses named] at refused
      cases shown : name.isDisplayable with
      | true => exact ⟨rfl, rfl⟩
      | false =>
        rw [shown] at refused
        cases refused
        cases kind
  · rintro ⟨noName, shown⟩
    refine ⟨_, r, refuses noName, ?_⟩
    rw [shown]
    rfl
  · cases short : name.isRenderable with
    | true =>
      obtain ⟨fatal, ix, position, rfl, used⟩ := duplicate_of_arrayNamed_error
        (canName_of_isRenderable short fun none => absurd none nested) refused
      exact ⟨nofun, fun _ => ⟨fatal, ix, position, rfl, used⟩, nofun⟩
    | false =>
      rcases dims with _ | ⟨_ | d, dims⟩
      · exact absurd rfl nested
      · cases refused
      · rw [List.map_cons, arrayNamed_of_not_isRenderable short _ (dimension?_int (d + 1))]
          at refused
        cases refused
        exact ⟨nofun, nofun, fun _ => ⟨rfl, rfl⟩⟩

/-- No name at all is refused for one variable, and makes two. -/
theorem array_of_anyName_absent :
    let r : Registry := { fatal := true }
    ([2, 1] : List Nat) ≠ [] ∧ bools [.absent] r = (.error (.invalidName .absent), r) ∧
    ∃ array r', bools [.int 2, .int 1, .absent] r = (.ok array, r') ∧
      array.elementAt? [2, 1] = some (.expr (.var "None_2_1" (some .bool))) ∧
      r'.contains "None_2_1" = true := by
  intro r
  have nested : ([2, 1] : List Nat) ≠ [] := nofun
  obtain ⟨-, single, -, made⟩ := array_of_anyName nested .absent r bools .bool (by simp)
  have last : IsPosition [2, 1] [2, 1] := mem_positions.1 (by decide)
  obtain ⟨-, elements⟩ := made _ _ rfl
  exact ⟨nested, single rfl, _, _, rfl, elements _ last⟩

/-- The empty name is refused for one variable, and two are made of it. -/
theorem array_of_emptyName :
    (bools [.text ""] {}).1 = .error (.invalidName (.text "")) ∧
    ∃ r', bools [.int 2, .text ""] {} =
        (.ok (.list [.expr (.var "_1" (some .bool)), .expr (.var "_2" (some .bool))]), r') ∧
      r'.contains "_1" = true ∧ r'.contains "_2" = true :=
  ⟨rfl, { names := ["_2", "_1"] }, rfl, rfl, rfl⟩

end SmtDialogue.Naming
