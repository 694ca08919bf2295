/-
Stencil/Value/Datum.lean

Data: values written out as trees.  A datum says what a value is made of; to
build it makes all its objects anew, except where it points to a value shared
by all data of one run; there must be one at the place it points to.  The other
way round, a view is the tree of what can be seen of a value.
-/
import Stencil.Bindings
import Stencil.Run
import Stencil.Value.Equality
import Stencil.Value.Place
import Stencil.Value.Text

namespace Stencil

mutual

/-- A value written out. -/
inductive Datum where
  | atom (a : Atom)
  /-- A number that is not a number, different from all others. -/
  | unnumber
  | list (items : List Datum)
  | tuple (items : List Datum)
  | dict (entries : List DatumEntry)
  | generator (items : List Datum)
  | sealed (text : String)
  | thing (name : String) (attributes : List DatumAttribute) (items : Option (List DatumEntry))
      (raising : List (String × Fault))
  /-- The shared value at a place. -/
  | shared (number : Int)

/-- A key with its value. -/
inductive DatumEntry where
  | mk (key value : Datum)

/-- An attribute with its value. -/
inductive DatumAttribute where
  | mk (name : String) (value : Datum)

end

instance : Inhabited Datum := ⟨.atom .none⟩

namespace Datum

/-- Makes an object. -/
def make (o : Object) : Run Heap Value := do
  let h ← get
  let (v, h) := h.add o
  set h
  return v

/-- Puts an entry into a dictionary's entries. -/
def enter (entries : List (Value × Value)) (key value : Value) :
    Run Heap (List (Value × Value)) := do
  let h ← get
  Run.ofExcept (h.requireHashable key)
  return h.setKey key value entries

/-- Entries of one for each name; of several the last counts. -/
def distinct {α : Type} (entries : List (String × α)) : List (String × α) :=
  (Bindings.ofList entries).entries

mutual

/-- Builds a value.  The items of a thing come before its attributes. -/
def build (shared : List Value) : Datum → Run Heap Value
  | atom a => pure (.atom a)
  | unnumber => do
    let h ← get
    set { h with unnumbers := h.unnumbers + 1 }
    return .float (.nan (h.unnumbers + 1))
  | list items => do
    let vs ← buildAll shared items
    make (.list vs)
  | tuple items => do
    let vs ← buildAll shared items
    make (.tuple vs)
  | dict entries => do
    let es ← buildEntries shared [] entries
    make (.dict es)
  | generator items => do
    let vs ← buildAll shared items
    make (.generator vs)
  | sealed text => make (.sealed text)
  | thing name attributes none raising => do
    let vs ← buildAttributes shared attributes
    make (.thing ⟨name, distinct vs, none, distinct raising⟩)
  | thing name attributes (some entries) raising => do
    let es ← buildEntries shared [] entries
    let vs ← buildAttributes shared attributes
    make (.thing ⟨name, distinct vs, some es, distinct raising⟩)
  | .shared number =>
    match Place.get? shared number with
    | some v => pure v
    | none => Run.fail (Place.nothingAt number "list index")

/-- Builds values, in order. -/
def buildAll (shared : List Value) : List Datum → Run Heap (List Value)
  | [] => pure []
  | d :: rest => do
    let v ← build shared d
    let vs ← buildAll shared rest
    return v :: vs

/-- Builds entries, in order, behind those that are there. -/
def buildEntries (shared : List Value) (done : List (Value × Value)) :
    List DatumEntry → Run Heap (List (Value × Value))
  | [] => pure done
  | .mk key value :: rest => do
    let k ← build shared key
    let v ← build shared value
    let done ← enter done k v
    buildEntries shared done rest

/-- Builds attributes, in order. -/
def buildAttributes (shared : List Value) : List DatumAttribute → Run Heap (List (String × Value))
  | [] => pure []
  | .mk name value :: rest => do
    let v ← build shared value
    let vs ← buildAttributes shared rest
    return (name, v) :: vs

end

/-- Builds named values, in order. -/
def buildNamed (shared : List Value) : List (String × Datum) → Run Heap (List (String × Value))
  | [] => pure []
  | (name, d) :: rest => do
    let v ← build shared d
    let vs ← buildNamed shared rest
    return (name, v) :: vs

/-- Builds shared values: each may point to those before it. -/
def buildShared (done : List Value) : List Datum → Run Heap (List Value)
  | [] => pure done
  | d :: rest => do
    let v ← build done d
    buildShared (done ++ [v]) rest

end Datum

/-! ### Views -/

/-- What can be seen of a value. -/
inductive View where
  | atom (a : Atom)
  | list (items : List View)
  | tuple (items : List View)
  | dict (entries : List (View × View))
  | generator
  | sealed (text : String)
  | thing (name : Option String) (attributes : List (String × View))
  /-- An object inside itself. -/
  | cycle
  | loop (text : String)
  | method (name : String)

instance : Inhabited View := ⟨.atom .none⟩

namespace Heap

/-- The view of a value inside the objects `around` it, at most `depth` objects deep. -/
def viewIn (h : Heap) : (depth : Nat) → (around : List Nat) → Value → View
  | _, _, .atom a => .atom a
  | _, _, .method _ name => .method name
  | 0, _, .object _ => .cycle
  | depth + 1, around, .object i =>
    if around.contains i then .cycle
    else
      let see := h.viewIn depth (i :: around)
      match h.get? i with
      | none => .cycle
      | some (.list xs) => .list (xs.map see)
      | some (.tuple xs) => .tuple (xs.map see)
      | some (.dict es) => .dict (es.map fun e => (see e.1, see e.2))
      | some (.generator _) => .generator
      | some (.sealed t) => .sealed t
      | some (.thing t) => .thing t.name (t.attributes.map fun a => (a.1, see a.2))
      | some (.loop l) => .loop ((h.loopText l).toOption.getD "")

/-- The view of a value. -/
def view (h : Heap) (v : Value) : View := h.viewIn (h.objects.size + 1) [] v

end Heap

end Stencil
