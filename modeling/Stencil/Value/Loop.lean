/-
Stencil/Value/Loop.lean

Loops that are driven by hand.  A loop runs over a list of its own and knows
its place in it.  Whoever takes items from it moves it: a cursor sets it to
each item it gives, and going through the whole loop leaves it at the last.
-/
import Stencil.Value.Copy
import Stencil.Value.Datum
import Stencil.Value.Iteration
import Stencil.Value.Member

namespace Stencil

/-- The next of some values, by the place of a loop. -/
def Heap.cycleOf (h : Heap) (loop : Value) (values : List Value) : Except Fault Value :=
  match h.objectOf? loop with
  | some (.loop (some l)) => .ok ((values[l.position % values.length]?).getD .absent)
  | some (.loop none) =>
    if values.isEmpty then .ok .absent else .error (missingAttribute "LoopContext" "_position")
  | _ => do
    let how ← h.attributeOf loop "cycle"
    .error (notCallable (h.typeName how))

namespace Loop

/-- A loop driven by hand: its number, and the place of the cursor if there is one. -/
structure Drive where
  heap : Heap
  /-- The values that data can point to. -/
  shared : List Value
  loop : Nat
  cursor : Option Nat

/-- What can be done with a loop. -/
inductive Step where
  /-- Puts the cursor before the first item. -/
  | restart
  /-- Takes the next item from the cursor. -/
  | next
  /-- Goes through the whole loop, apart from the cursor. -/
  | all
  | cycle (values : List Datum)
  /-- The place of a copy of the loop. -/
  | copyPlace

/-- The fault of asking a cursor at the end for an item. -/
def exhausted : Fault := .foreign "StopIteration" ""

/-- The fault of asking for an item when there is no cursor. -/
def noCursor : Fault := .typeError "'NoneType' object is not an iterator"

namespace Drive

/-- The state of the loop. -/
def state (d : Drive) : LoopState :=
  match d.heap.get? d.loop with
  | some (.loop (some l)) => l
  | _ => ⟨0, 0⟩

/-- What a loop tells of itself. -/
def told : List String := ["index", "index0", "length", "first", "last"]

/-- Where the loop is: what it tells of itself, and its text. -/
def status (d : Drive) : List View :=
  let facts := told.map fun n =>
    d.heap.view (((d.state.attribute? d.heap (.object d.loop) n)).getD .absent)
  facts ++ [.atom (.str ((d.heap.loopText (some d.state)).toOption.getD ""))]

/-- A run on the heap. -/
def onHeap {β : Type} (act : Run Heap β) : Run Drive β :=
  Run.within Drive.heap (fun heap d => { d with heap }) act

/-- Takes the next item from the cursor. -/
def takeNext : Run Drive Value := do
  let d ← get
  match d.cursor with
  | none => Run.fail noCursor
  | some place =>
    match (d.heap.listItems d.state.items)[place]? with
    | none => Run.fail exhausted
    | some v =>
      set { d with
        heap := d.heap.put d.loop (.loop (some { d.state with position := place }))
        cursor := some (place + 1) }
      return v

/-- The place of a copy of the loop, counted from one. -/
def copyPlace : Run Drive Value := do
  let d ← get
  let copy ← Run.within (fun d => ⟨d.heap, [], [], []⟩) (fun c d => { d with heap := c.heap })
    (Copying.deepCopy (.object d.loop))
  let d ← get
  match d.heap.objectOf? copy with
  | some (.loop (some l)) => return .nat (l.position + 1)
  | _ => return .absent

/-- Runs a step. -/
def step : Step → Run Drive Value
  | .restart => do
    modify fun d => { d with cursor := some 0 }
    return .absent
  | .next => takeNext
  | .all => do
    let d ← get
    let items ← onHeap (Heap.itemsOf (.object d.loop))
    onHeap (Datum.make (.list items))
  | .cycle values => do
    let d ← get
    let vs ← onHeap (Datum.buildAll d.shared values)
    let d ← get
    Run.ofExcept (d.heap.cycleOf (.object d.loop) vs)
  | .copyPlace => copyPlace

/-- Runs steps, each from the state that the one before left, and tells what came of each. -/
def steps (d : Drive) : List Step → List (Except Stop View × List View)
  | [] => []
  | s :: rest =>
    let (r, d) := (step s).exec d
    (r.map d.heap.view, d.status) :: steps d rest

/-- The loop over given items. -/
def ofItems (shared items : List Datum) : Run Heap Drive := do
  let shared ← Datum.buildShared [] shared
  let vs ← Datum.buildAll shared items
  let h ← get
  let n := h.objects.size
  let heap := ((h.add (.list vs)).2.add (.loop (some ⟨n, 0⟩))).2
  return ⟨heap, shared, n + 1, none⟩

end Drive

/-- Drives the loop over given items. -/
def run (shared items : List Datum) (script : List Step) :
    Except Stop (List (Except Stop View × List View)) :=
  match (Drive.ofItems shared items).exec .empty with
  | (.ok d, _) => .ok (d.steps script)
  | (.error e, _) => .error e

end Loop

end Stencil
