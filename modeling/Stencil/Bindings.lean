/-
Stencil/Bindings.lean

Bindings of keys, in the order in which the keys were first bound.  Binding a
key again changes its value and keeps its place.
-/
namespace Stencil

/-- Keys with their values, in order. -/
structure Bindings (κ α : Type) where
  entries : List (κ × α)
  deriving Repr

namespace Bindings

variable {κ α : Type}

/-- No keys. -/
def empty : Bindings κ α := ⟨[]⟩

instance : Inhabited (Bindings κ α) := ⟨empty⟩

/-- The bound keys. -/
def keys (b : Bindings κ α) : List κ := b.entries.map (·.1)

/-- The number of bound keys. -/
def size (b : Bindings κ α) : Nat := b.entries.length

variable [DecidableEq κ]

/-- The value of a key. -/
def get? (b : Bindings κ α) (key : κ) : Option α := b.entries.lookup key

/-- Whether a key is bound. -/
def contains (b : Bindings κ α) (key : κ) : Bool := (b.get? key).isSome

/-- Binds a key in a list of entries. -/
def setEntry (key : κ) (value : α) : List (κ × α) → List (κ × α)
  | [] => [(key, value)]
  | (k, v) :: rest => if k = key then (k, value) :: rest else (k, v) :: setEntry key value rest

/-- Binds a key. -/
def set (b : Bindings κ α) (key : κ) (value : α) : Bindings κ α := ⟨setEntry key value b.entries⟩

/-- Binds keys one after the other. -/
def setAll (b : Bindings κ α) (entries : List (κ × α)) : Bindings κ α :=
  entries.foldl (fun b e => b.set e.1 e.2) b

/-- The bindings of a list of keys; of several for one key the last counts. -/
def ofList (entries : List (κ × α)) : Bindings κ α := empty.setAll entries

/-- Binds all keys of other bindings. -/
def update (b c : Bindings κ α) : Bindings κ α := b.setAll c.entries

/-- Unbinds a key. -/
def erase (b : Bindings κ α) (key : κ) : Bindings κ α := ⟨b.entries.filter (·.1 ≠ key)⟩

end Bindings

end Stencil
