/-
Stencil/Value/Copy.lean

Copies of values.  A deep copy keeps a memo of the objects copied so far, by
number, so that an object met twice is copied once and an object inside itself
comes out inside its copy.  Lists, dictionaries, things and loops enter the
memo before they are filled; a thing is filled at once, when its items and then
its attributes were copied.  A tuple whose items all copy to themselves is its
own copy; generators and sealed values refuse.

When a copy fails half-way the memo keeps what it holds.  An object that was
being filled then stays in it unfinished, and a later copy that uses the same
memo finds it.
-/
import Stencil.Record
import Stencil.Run
import Stencil.Value.Equality

namespace Stencil

/-- The state of copying: the heap, the copies by the numbers of what was copied, the types that a
cloning rule noted, and the records written. -/
structure Copying where
  heap : Heap
  memo : List (Nat × Value)
  noted : List String
  records : List Record

namespace Copying

/-- Makes an object and puts it into the memo as the copy of another. -/
def begin (copied : Nat) (o : Object) : Run Copying Nat := do
  let s ← get
  set { s with
    heap := (s.heap.add o).2
    memo := (copied, .object s.heap.objects.size) :: s.memo }
  return s.heap.objects.size

/-- Makes an object. -/
def make (o : Object) : Run Copying Value := do
  let s ← get
  let (v, heap) := s.heap.add o
  set { s with heap }
  return v

/-- Replaces an object. -/
def put (i : Nat) (o : Object) : Run Copying Unit :=
  modify fun s => { s with heap := s.heap.put i o }

/-! ### Filling a copy -/

/-- Copies values, in order. -/
def copyAll (copy : Value → Run Copying Value) : List Value → Run Copying (List Value)
  | [] => pure []
  | v :: rest => do
    let w ← copy v
    let ws ← copyAll copy rest
    return w :: ws

/-- Copies values into a list, one by one. -/
def fillList (copy : Value → Run Copying Value) (i : Nat) : List Value → Run Copying Unit
  | [] => pure ()
  | v :: rest => do
    let w ← copy v
    modify fun s => { s with heap := s.heap.put i (.list (s.heap.listItems i ++ [w])) }
    fillList copy i rest

/-- The entries of a dictionary. -/
def dictEntries (h : Heap) (i : Nat) : List (Value × Value) :=
  match h.get? i with
  | some (.dict es) => es
  | _ => []

/-- Copies entries into a dictionary, one by one; the value of an entry before its key. -/
def fillDict (copy : Value → Run Copying Value) (i : Nat) : List (Value × Value) → Run Copying Unit
  | [] => pure ()
  | (k, v) :: rest => do
    let w ← copy v
    let l ← copy k
    modify fun s =>
      { s with heap := s.heap.put i (.dict (s.heap.setKey l w (dictEntries s.heap i))) }
    fillDict copy i rest

/-- Copies attributes. -/
def copyAttributes (copy : Value → Run Copying Value) :
    List (String × Value) → Run Copying (List (String × Value))
  | [] => pure []
  | (n, v) :: rest => do
    let w ← copy v
    let ws ← copyAttributes copy rest
    return (n, w) :: ws

/-- Copies entries. -/
def copyEntries (copy : Value → Run Copying Value) :
    List (Value × Value) → Run Copying (List (Value × Value))
  | [] => pure []
  | (k, v) :: rest => do
    let w ← copy v
    let l ← copy k
    let ws ← copyEntries copy rest
    return (l, w) :: ws

/-! ### Deep copies -/

/-- Copies an object that is not in the memo; `copy` copies its parts. -/
def copyObject (copy : Value → Run Copying Value) (i : Nat) : Option Object → Run Copying Value
  | none => pure (.object i)
  | some (.list xs) => do
    let j ← begin i (.list [])
    fillList copy j xs
    return .object j
  | some (.dict es) => do
    let j ← begin i (.dict [])
    fillDict copy j es
    return .object j
  | some (.tuple xs) => do
    let ys ← copyAll copy xs
    let s ← get
    match s.memo.lookup i with
    | some v => return v
    | none =>
      if xs = ys then return .object i
      else do
        let j ← begin i (.tuple ys)
        return .object j
  | some (.thing t) => do
    let j ← begin i (.thing ⟨none, [], t.items.map fun _ => [], []⟩)
    let items ←
      match t.items with
      | some es => do
        let es ← copyEntries copy es
        pure (some es)
      | none => pure none
    let attributes ← copyAttributes copy t.attributes
    put j (.thing { t with attributes, items })
    return .object j
  | some (.loop (some l)) => do
    let j ← begin i (.loop none)
    match ← copy (.object l.items) with
    | .object items => put j (.loop (some { l with items }))
    | _ => pure ()
    return .object j
  | some (.loop none) => do
    let j ← begin i (.loop none)
    return .object j
  | some (.generator _) => Run.fail (.typeError "cannot pickle 'generator' object")
  | some (.sealed text) => Run.fail (.typeError text)

/-- The fault of a copy without end. -/
def endlessCopy : Fault := .foreign "RecursionError" "maximum recursion depth exceeded"

/-- Copies a value, at most `depth` objects deep.  A method of a loop is copied with its loop; other
methods stay with their values. -/
def deepCopyIn : (depth : Nat) → Value → Run Copying Value
  | _, .atom a => pure (.atom a)
  | 0, _ => Run.fail endlessCopy
  | depth + 1, .method v name =>
    if name = "cycle" then do
      let w ← deepCopyIn depth v
      return .method w name
    else pure (.method v name)
  | depth + 1, .object i => do
    let s ← get
    match s.memo.lookup i with
    | some v => return v
    | none => copyObject (deepCopyIn depth) i (s.heap.get? i)

/-- Copies a value. -/
def deepCopy (v : Value) : Run Copying Value := do
  let s ← get
  deepCopyIn s.heap.deepest v

end Copying

/-! ### Cloning rules -/

/-- How an environment copies the values of a context that somebody else holds. -/
inductive CloneRule where
  /-- By deep copies. -/
  | deep
  /-- Not at all. -/
  | identity
  /-- Lists and dictionaries one level deep; strings are refused. -/
  | picky
  /-- By deep copies, noting the type of each value. -/
  | logged
  deriving DecidableEq, Repr

/-- Copies a value by a rule. -/
def CloneRule.apply : CloneRule → Value → Run Copying Value
  | deep, v => Copying.deepCopy v
  | identity, v => pure v
  | picky, v => do
    let s ← get
    match v, s.heap.objectOf? v with
    | .atom (.str _), _ => Run.fail (.valueError "strings are foreign-owned")
    | _, some (.list xs) => Copying.make (.list xs)
    | _, some (.dict es) => Copying.make (.dict es)
    | _, _ => return v
  | logged, v => do
    modify fun s => { s with noted := s.noted ++ [s.heap.typeName v] }
    Copying.deepCopy v

end Stencil
