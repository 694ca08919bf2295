/-
Stencil/Value/Equality.lean

Equality of values.  Numbers are compared by value across their types; lists,
tuples and dictionaries item by item, where one and the same object always
equals itself; the order of a dictionary's keys does not count; all other
objects are equal only to themselves.

Two different objects that contain themselves can be compared for ever.  Such
a comparison fails: as soon as it is deeper than there are pairs of objects.
-/
import Stencil.Value

namespace Stencil.Heap

/-- Whether a value is the empty tuple, of which there is one only. -/
def isEmptyTuple (h : Heap) (v : Value) : Bool :=
  match h.objectOf? v with
  | some (.tuple []) => true
  | _ => false

/-- Whether two values are one and the same. -/
def same (h : Heap) (a b : Value) : Bool := a == b || (h.isEmptyTuple a && h.isEmptyTuple b)

/-- The fault of a comparison without end. -/
def endlessComparison : Fault :=
  .foreign "RecursionError" "maximum recursion depth exceeded in comparison"

/-- Compares lists of values item by item. -/
def equalLists (equal : Value → Value → Except Fault Bool) :
    List Value → List Value → Except Fault Bool
  | [], [] => .ok true
  | a :: as, b :: bs =>
    match equal a b with
    | .ok true => equalLists equal as bs
    | r => r
  | _, _ => .ok false

/-- The value of a key among entries. -/
def findEntry (equal : Value → Value → Except Fault Bool) (key : Value) :
    List (Value × Value) → Except Fault (Option Value)
  | [] => .ok none
  | (k, v) :: rest =>
    match equal k key with
    | .ok true => .ok (some v)
    | .ok false => findEntry equal key rest
    | .error e => .error e

/-- Compares each entry of one dictionary with the entry of its key in another. -/
def equalEntries (equal : Value → Value → Except Fault Bool) (others : List (Value × Value)) :
    List (Value × Value) → Except Fault Bool
  | [] => .ok true
  | (k, v) :: rest =>
    match findEntry equal k others with
    | .error e => .error e
    | .ok none => .ok false
    | .ok (some w) =>
      match equal v w with
      | .ok true => equalEntries equal others rest
      | r => r

/-- Whether two values are the same or equal, at most `depth` objects deep. -/
def sameOrEqual (h : Heap) : (depth : Nat) → Value → Value → Except Fault Bool
  | 0, a, b => if h.same a b then .ok true else .error endlessComparison
  | depth + 1, a, b =>
    if h.same a b then .ok true
    else match a, b with
      | .atom a, .atom b => .ok (a.beqValue b)
      | .object i, .object j =>
        match h.get? i, h.get? j with
        | some (.list xs), some (.list ys) =>
          if xs.length = ys.length then equalLists (h.sameOrEqual depth) xs ys else .ok false
        | some (.tuple xs), some (.tuple ys) => equalLists (h.sameOrEqual depth) xs ys
        | some (.dict es), some (.dict fs) =>
          if es.length = fs.length then equalEntries (h.sameOrEqual depth) fs es else .ok false
        | _, _ => .ok false
      | _, _ => .ok false

/-- A depth that no comparison with an end reaches. -/
def deepest (h : Heap) : Nat := (h.objects.size + 1) * (h.objects.size + 1) + 1

/-- Whether two items of containers count as equal: the same, or equal. -/
def equalItems (h : Heap) (a b : Value) : Except Fault Bool := h.sameOrEqual h.deepest a b

/-- The value of a key in a dictionary's entries; a comparison without end finds nothing. -/
def lookupKey? (h : Heap) (key : Value) (entries : List (Value × Value)) : Option Value :=
  ((findEntry h.equalItems key entries).toOption).join

/-- Whether a value may be a key; the type of the part that may not. -/
def unhashable? (h : Heap) : (depth : Nat) → Value → Option String
  | 0, _ => none
  | depth + 1, v =>
    match h.objectOf? v with
    | some (.list _) => some "list"
    | some (.dict _) => some "dict"
    | some (.tuple xs) => xs.findSome? (h.unhashable? depth)
    | _ => none

/-- Refuses a value that may not be a key. -/
def requireHashable (h : Heap) (v : Value) : Except Fault Unit :=
  match h.unhashable? (h.objects.size + 1) v with
  | some t => .error (.typeError ("unhashable type: '" ++ t ++ "'"))
  | none => .ok ()

/-- Sets the value of a key in a dictionary's entries; a key keeps its first place and form. -/
def setKey (h : Heap) (key value : Value) : List (Value × Value) → List (Value × Value)
  | [] => [(key, value)]
  | (k, v) :: rest =>
    if (h.equalItems k key).toOption = some true then (k, value) :: rest
    else (k, v) :: setKey h key value rest

end Stencil.Heap
