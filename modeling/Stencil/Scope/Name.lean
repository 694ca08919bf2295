/-
Stencil/Scope/Name.lean

Names: what the frames of a context bind.  Templates and tags know names as
text.  The dictionary that a render begins with may have other keys too; they
are names like all others, but no template can speak of them.
-/
import Stencil.Bindings
import Stencil.Value.Equality
import Stencil.Value.Iteration

namespace Stencil

/-- A name in a frame. -/
inductive Name where
  | text (s : String)
  /-- A key that is no text. -/
  | key (value : Value)
  deriving DecidableEq, Repr

namespace Name

instance : Coe String Name := ⟨text⟩

/-- The name that a key of a dictionary is. -/
def ofValue : Value → Name
  | .atom (.str s) => text s
  | v => key v

/-- A name as a value. -/
def value : Name → Value
  | text s => .str s
  | key v => v

/-- Whether a name is a given value; a comparison without end finds nothing. -/
def is (h : Heap) (v : Value) (n : Name) : Bool :=
  (h.equalItems n.value v).toOption = some true

/-- The character that a value is, if it is one. -/
def letter? : Value → Option Char
  | .atom (.str s) =>
    match s.toList with
    | [c] => some c
    | _ => none
  | _ => none

/-- A name as it may be suggested: a text by its characters, a tuple by its items.  Nothing else has
parts to be compared by. -/
def candidate (h : Heap) : Name → Except Fault Text.Candidate
  | text s => .ok (.ofText s)
  | key v =>
    match h.objectOf? v with
    | some (.tuple items) => do
      let shown ← h.text v
      .ok ⟨shown, items.map letter?⟩
    | _ => .error (noLength (h.typeName v))

end Name

/-- Names with their values, in order. -/
abbrev Frame (α : Type) := Bindings Name α

/-- The frame of a list of texts with their values. -/
def Frame.ofNamed {α : Type} (entries : List (String × α)) : Frame α :=
  .ofList (entries.map fun e => (.text e.1, e.2))

end Stencil
