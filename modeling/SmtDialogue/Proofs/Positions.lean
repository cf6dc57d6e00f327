import Mathlib.Algebra.BigOperators.Group.List.Basic
import Mathlib.Data.List.Nodup
import SmtDialogue.Naming.Variables
import SmtDialogue.Proofs.Reading

/-!
# Positions in an array

An array of variables is a list of rows, each an array of the remaining dimensions. A
position is one index for each dimension, counted from one, and positions are numbered
row by row (`Naming.positions`). An element is called by the name of the array with the
indices of its position appended, an underscore before each (`Naming.indexed`).

Two positions never give one name, whatever the name of the array is
(`Naming.indexed_injective`): it is the same on both sides, and what is appended to it
falls into the indices again, since no decimal numeral has an underscore.
-/

namespace SmtDialogue.Naming

/-! ## Positions -/

/-- **The positions of an array** with the given dimensions, row by row. -/
def positions : List Nat → List (List Nat)
  | [] => [[]]
  | d :: dims => (List.range d).flatMap fun i => (positions dims).map ((i + 1) :: ·)

/-- **Whether indices are a position** in an array of the given dimensions. -/
def IsPosition (dims ix : List Nat) : Prop :=
  List.Forall₂ (fun i d => 1 ≤ i ∧ i ≤ d) ix dims

theorem mem_positions {dims ix : List Nat} : ix ∈ positions dims ↔ IsPosition dims ix := by
  unfold IsPosition
  induction dims generalizing ix with
  | nil => simp [positions]
  | cons d dims ih =>
    rw [positions, List.mem_flatMap, List.forall₂_cons_right_iff]
    constructor
    · rintro ⟨i, bound, here⟩
      obtain ⟨rest, inner, rfl⟩ := List.mem_map.1 here
      exact ⟨i + 1, rest, ⟨i.succ_pos, List.mem_range.1 bound⟩, ih.1 inner, rfl⟩
    · rintro ⟨i, rest, bounds, inner, rfl⟩
      obtain ⟨i, rfl⟩ := Nat.exists_eq_succ_of_ne_zero (Nat.ne_of_gt bounds.1)
      exact ⟨i, List.mem_range.2 bounds.2, List.mem_map_of_mem (ih.2 inner)⟩

/-- There are as many positions as the product of the dimensions. -/
theorem length_positions (dims : List Nat) : (positions dims).length = dims.prod := by
  induction dims with
  | nil => rfl
  | cons d dims ih => simp [positions, List.length_flatMap, ih]

/-- Each position comes once. -/
theorem nodup_positions (dims : List Nat) : (positions dims).Nodup := by
  induction dims with
  | nil => simp [positions]
  | cons d dims ih =>
    refine List.nodup_flatMap.2 ⟨fun i _ => ih.map List.cons_injective, ?_⟩
    refine List.nodup_range.imp fun {i j} differ => ?_
    rintro ix first second
    obtain ⟨_, -, rfl⟩ := List.mem_map.1 first
    obtain ⟨_, -, same⟩ := List.mem_map.1 second
    exact differ (Nat.succ.inj (List.cons.inj same).1).symm

/-! ## Names of elements -/

/-- **The name of the element at a position**: the indices appended to the name of the
array, an underscore before each. -/
def indexed (name : String) (ix : List Nat) : String :=
  ix.foldl (fun name i => name ++ "_" ++ toString i) name

@[simp] theorem indexed_nil (name : String) : indexed name [] = name := rfl

@[simp] theorem indexed_cons (name : String) (i : Nat) (ix : List Nat) :
    indexed name (i :: ix) = indexed (name ++ "_" ++ toString i) ix := rfl

/-- What is appended to the name of the array. -/
theorem toList_indexed (name : String) (ix : List Nat) :
    (indexed name ix).toList = name.toList ++ ix.flatMap fun i => '_' :: i.repr.toList := by
  induction ix generalizing name with
  | nil => simp
  | cons i ix ih =>
    rw [indexed_cons, ih]
    simp [List.flatMap_cons, String.toList_append]

/-- A row of digits ends where what follows it starts with no digit. -/
theorem append_digits_inj {ds es more others : List Char} (hd : ∀ c ∈ ds, c.isDigit = true)
    (he : ∀ c ∈ es, c.isDigit = true) (apart : ∀ c ∈ more.head?, c.isDigit = false)
    (apart' : ∀ c ∈ others.head?, c.isDigit = false) (same : ds ++ more = es ++ others) :
    ds = es ∧ more = others := by
  induction ds generalizing es with
  | nil =>
    cases es with
    | nil => exact ⟨rfl, same⟩
    | cons e es =>
      obtain rfl : more = e :: (es ++ others) := same
      exact absurd (he e List.mem_cons_self) (by rw [apart e rfl]; exact Bool.false_ne_true)
  | cons d ds ih =>
    cases es with
    | nil =>
      obtain rfl : d :: (ds ++ more) = others := same
      exact absurd (hd d List.mem_cons_self) (by rw [apart' d rfl]; exact Bool.false_ne_true)
    | cons e es =>
      rw [List.forall_mem_cons] at hd he
      obtain ⟨rfl, tails⟩ := List.cons.inj same
      obtain ⟨rfl, rest⟩ := ih hd.2 he.2 tails
      exact ⟨rfl, rest⟩

/-- The indices are found again in what is appended. -/
theorem indices_injective :
    Function.Injective fun ix : List Nat => ix.flatMap fun i => '_' :: i.repr.toList := by
  have apart (ix : List Nat) :
      ∀ c ∈ (ix.flatMap fun i => '_' :: i.repr.toList).head?, c.isDigit = false := by
    cases ix with
    | nil => exact nofun
    | cons i ix => rintro c ⟨⟩; rfl
  intro ix jx same
  induction ix generalizing jx with
  | nil =>
    cases jx with
    | nil => rfl
    | cons j jx => cases same
  | cons i ix ih =>
    cases jx with
    | nil => cases same
    | cons j jx =>
      obtain ⟨digits, rest⟩ := append_digits_inj (fun _ => isDigit_of_mem_repr)
        (fun _ => isDigit_of_mem_repr) (apart ix) (apart jx) (List.cons.inj same).2
      have index : some i = some j := by
        rw [← Text.numeral?_repr i, ← Text.numeral?_repr j, String.toList_inj.1 digits]
      rw [Option.some.inj index, ih rest]

/-- **Positions have names of their own.** -/
theorem indexed_injective (name : String) : Function.Injective (indexed name) := by
  intro ix jx same
  have chars := congrArg String.toList same
  rw [toList_indexed, toList_indexed] at chars
  exact indices_injective (List.append_cancel_left chars)

/-- The names of all elements are different. -/
theorem nodup_names (name : String) (dims : List Nat) :
    ((positions dims).map (indexed name)).Nodup :=
  (nodup_positions dims).map (indexed_injective name)

/-! ## Arrays by their elements -/

/-- **The array of some elements**, given by their positions. -/
def tabulate : List Nat → (List Nat → Operand) → Operand
  | [], element => element []
  | d :: dims, element =>
    .list ((List.range d).map fun i => tabulate dims fun ix => element ((i + 1) :: ix))

end Naming

namespace Operand

/-- **Whether an operand is an array** with the given dimensions: a list of as many rows as
the first dimension says, each an array with the other dimensions. -/
inductive IsArray : List Nat → Operand → Prop
  | element (o : Operand) : IsArray [] o
  | rows {d : Nat} {dims : List Nat} {items : List Operand} (count : items.length = d)
    (each : ∀ o ∈ items, IsArray dims o) : IsArray (d :: dims) (list items)

/-- The element of an array at a position. -/
def elementAt? : Operand → List Nat → Option Operand
  | o, [] => some o
  | list items, (i + 1) :: ix => items[i]?.bind fun row => row.elementAt? ix
  | _, _ => none

/-- A table is an array of its dimensions. -/
theorem isArray_tabulate (dims : List Nat) (element : List Nat → Operand) :
    IsArray dims (Naming.tabulate dims element) := by
  induction dims generalizing element with
  | nil => exact .element _
  | cons d dims ih =>
    refine .rows (by rw [List.length_map, List.length_range]) fun row here => ?_
    obtain ⟨i, -, rfl⟩ := List.mem_map.1 here
    exact ih _

/-- Its elements stand at their positions. -/
theorem elementAt?_tabulate {dims ix : List Nat} (position : Naming.IsPosition dims ix)
    (element : List Nat → Operand) :
    (Naming.tabulate dims element).elementAt? ix = some (element ix) := by
  induction position generalizing element with
  | nil => rfl
  | @cons i d ix dims bounds _ ih =>
    obtain ⟨i, rfl⟩ := Nat.exists_eq_succ_of_ne_zero (Nat.ne_of_gt bounds.1)
    have row : ((List.range d).map fun i => Naming.tabulate dims fun ix =>
        element ((i + 1) :: ix))[i]? = some (Naming.tabulate dims fun ix => element ((i + 1) :: ix)) := by
      rw [List.getElem?_map, List.getElem?_range bounds.2]
      rfl
    rw [Naming.tabulate, elementAt?, row]
    exact ih _

end Operand

end SmtDialogue
