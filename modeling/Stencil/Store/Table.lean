/-
Stencil/Store/Table.lean

Tables: rows that are known by their number.  Rows are added at the end and
never removed, so a number once given keeps its meaning.
-/
namespace Stencil

/-- A table of rows. -/
structure Table (α : Type) where
  rows : Array α
  deriving Repr

namespace Table

variable {α : Type}

/-- No rows. -/
def empty : Table α := ⟨#[]⟩

/-- The number of rows, which is the number of the next row. -/
def size (t : Table α) : Nat := t.rows.size

/-- The row of a number. -/
def get? (t : Table α) (i : Nat) : Option α := t.rows[i]?

/-- Adds a row. -/
def add (t : Table α) (a : α) : Table α := ⟨t.rows.push a⟩

/-- Changes a row. -/
def modify (t : Table α) (i : Nat) (f : α → α) : Table α := ⟨t.rows.modify i f⟩

/-- Replaces a row. -/
def put (t : Table α) (i : Nat) (a : α) : Table α := t.modify i fun _ => a

instance : Inhabited (Table α) := ⟨empty⟩

@[simp] theorem size_add (t : Table α) (a : α) : (t.add a).size = t.size + 1 := by
  simp [size, add]

@[simp] theorem size_modify (t : Table α) (i : Nat) (f : α → α) : (t.modify i f).size = t.size := by
  simp [size, modify]

@[simp] theorem get?_add_new (t : Table α) (a : α) : (t.add a).get? t.size = some a := by
  simp [get?, add, size]

theorem get?_add (t : Table α) (a : α) (i : Nat) :
    (t.add a).get? i = if i = t.size then some a else t.get? i := by
  unfold get? add size
  rw [Array.getElem?_push]

theorem get?_modify (t : Table α) (i j : Nat) (f : α → α) :
    (t.modify i f).get? j = if i = j then (t.get? j).map f else t.get? j := by
  simp [get?, modify, Array.getElem?_modify]

theorem get?_put (t : Table α) (i j : Nat) (a : α) :
    (t.put i a).get? j = if i = j then (t.get? j).map fun _ => a else t.get? j :=
  get?_modify t i j _

@[simp] theorem size_put (t : Table α) (i : Nat) (a : α) : (t.put i a).size = t.size :=
  size_modify t i _

theorem lt_size {t : Table α} {i : Nat} {a : α} (h : t.get? i = some a) : i < t.size := by
  simp only [get?, Array.getElem?_eq_some_iff] at h
  exact h.1

theorem exists_get? {t : Table α} {i : Nat} (h : i < t.size) : ∃ a, t.get? i = some a :=
  ⟨t.rows[i], Array.getElem?_eq_getElem h⟩

theorem get?_eq_none {t : Table α} {i : Nat} (h : t.size ≤ i) : t.get? i = none := by
  simpa [size, get?] using h

/-- Tables with the same rows are the same. -/
theorem ext_get? {t u : Table α} (h : ∀ i, t.get? i = u.get? i) : t = u := by
  obtain ⟨rows⟩ := t
  obtain ⟨rows'⟩ := u
  exact congrArg mk (Array.ext_getElem? h)

/-- Adding a row leaves the others. -/
theorem get?_add_of_lt {t : Table α} {i : Nat} (a : α) (h : i < t.size) :
    (t.add a).get? i = t.get? i := by
  rw [get?_add, if_neg (Nat.ne_of_lt h)]

/-- Changing a row leaves the others. -/
theorem get?_modify_of_ne (t : Table α) {i j : Nat} (f : α → α) (h : i ≠ j) :
    (t.modify i f).get? j = t.get? j := by
  rw [get?_modify, if_neg h]

theorem get?_modify_self {t : Table α} {i : Nat} {a : α} (f : α → α) (h : t.get? i = some a) :
    (t.modify i f).get? i = some (f a) := by
  rw [get?_modify, if_pos rfl, h, Option.map_some]

/-- Changing a row twice. -/
theorem modify_modify (t : Table α) (i : Nat) (f g : α → α) :
    (t.modify i f).modify i g = t.modify i fun a => g (f a) := by
  refine ext_get? fun j => ?_
  rw [get?_modify, get?_modify, get?_modify]
  split <;> simp [Option.map_map, Function.comp_def]

/-- A change that gives the row back as it is changes nothing. -/
theorem modify_eq_self {t : Table α} {i : Nat} {f : α → α} (h : ∀ a, t.get? i = some a → f a = a) :
    t.modify i f = t := by
  refine ext_get? fun j => ?_
  rw [get?_modify]
  split
  · next e =>
    subst e
    rcases hi : t.get? i with _ | a
    · rfl
    · rw [Option.map_some, h a hi]
  · rfl

end Table

end Stencil
