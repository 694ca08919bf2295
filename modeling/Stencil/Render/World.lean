/-
Stencil/Render/World.lean

The state of renders: the heap, the contexts on loan, environments and
templates, and for each render under way what messages need to know of it.
Renders nest, because a tag may render a template; the innermost comes first.

The counts of hand-overs are shared by nested renders, so they have a table of
their own.
-/
import Stencil.Environment
import Stencil.Loan.Handle
import Stencil.Tree.Constants
import Stencil.Tree.Reader

namespace Stencil

/-- Counts of the hand-overs of a context: how many there were, and how it came back. -/
structure Tally where
  handoffs : Nat
  unique : Nat
  deepCopy : Nat
  deriving DecidableEq, Repr

namespace Tally

/-- No hand-overs. -/
def zero : Tally := ⟨0, 0, 0⟩

/-- How often a context came back. -/
def reclaimed (t : Tally) : Nat := t.unique + t.deepCopy

/-- Counts a hand-over. -/
def start (t : Tally) : Tally := { t with handoffs := t.handoffs + 1 }

/-- Counts a way back. -/
def record (t : Tally) : ReclaimPath → Tally
  | .unique => { t with unique := t.unique + 1 }
  | .deepCopy => { t with deepCopy := t.deepCopy + 1 }

end Tally

/-- A render under way. -/
structure Rendering where
  templateName : Option String
  source : Option String
  /-- The line of the node that is being rendered. -/
  line : Int
  /-- The number of tag calls under way. -/
  tagDepth : Nat
  /-- The number of the counts. -/
  tally : Nat
  deriving DecidableEq, Repr

/-- The state of renders. -/
structure World where
  heap : Heap
  loans : Loans Value
  environments : Table Environment
  templates : Table Template
  tallies : Table Tally
  renderings : List Rendering
  /-- Handles that tags kept, in order. -/
  kept : List Nat
  /-- The environment that scripts change. -/
  current : Option Nat
  /-- The templates that scripts can render, by their place. -/
  library : List Nat
  /-- The values that data can point to. -/
  shared : List Value
  noted : List String
  records : List Record

namespace World

/-- Nothing yet. -/
def empty : World :=
  ⟨.empty, .empty, .empty, .empty, .empty, [], [], none, [], [], [], []⟩

instance : Inhabited World := ⟨empty⟩

/-- The environment of a number. -/
def environmentAt (w : World) (e : Nat) : Environment := (w.environments.get? e).getD default

/-- The template of a number. -/
def templateAt (w : World) (t : Nat) : Template := (w.templates.get? t).getD default

/-- The counts of a number. -/
def tallyAt (w : World) (t : Nat) : Tally := (w.tallies.get? t).getD .zero

/-- The innermost render under way. -/
def rendering? (w : World) : Option Rendering := w.renderings.head?

/-- The context that a slot holds. -/
def contextIn (w : World) (slot : Nat) : Context Value :=
  w.loans.contextAt (w.loans.slotAt slot).context

/-- Changes the innermost render under way. -/
def changeRendering (f : Rendering → Rendering) (w : World) : World :=
  { w with renderings := w.renderings.modifyHead f }

/-- Changes an environment. -/
def changeEnvironment (e : Nat) (f : Environment → Environment) (w : World) : World :=
  { w with environments := w.environments.modify e f }

/-- Changes the counts of the innermost render under way. -/
def changeTally (f : Tally → Tally) (w : World) : World :=
  match w.renderings with
  | [] => w
  | r :: _ => { w with tallies := w.tallies.modify r.tally f }

end World

/-! ### Runs on parts of the world -/

variable {β : Type}

/-- A run on the heap. -/
def onHeap (act : Run Heap β) : Run World β :=
  Run.within World.heap (fun heap w => { w with heap }) act

/-- A run on the contexts on loan. -/
def onLoans (act : Run (Loans Value) β) : Run World β :=
  Run.within World.loans (fun loans w => { w with loans }) act

/-- A run that copies values: it starts with an empty memo. -/
def copying (act : Run Copying β) : Run World β :=
  Run.within (fun w => ⟨w.heap, [], [], []⟩)
    (fun c w =>
      { w with heap := c.heap, noted := w.noted ++ c.noted, records := w.records ++ c.records })
    act

/-- Writes a record. -/
def writeRecord (r : Record) : Run World Unit :=
  modify fun w => { w with records := w.records ++ [r] }

/-- Builds a value. -/
def build (d : Datum) : Run World Value := do
  let w ← get
  onHeap (d.build w.shared)

/-- Builds named values. -/
def buildNamed (named : List (String × Datum)) : Run World (List (String × Value)) := do
  let w ← get
  onHeap (Datum.buildNamed w.shared named)

/-- Builds a frame. -/
def buildFrame (named : List (String × Datum)) : Run World (Frame Value) := do
  let entries ← buildNamed named
  return .ofNamed entries

/-- Builds frames. -/
def buildFrames : List (List (String × Datum)) → Run World (List (Frame Value))
  | [] => pure []
  | named :: rest => do
    let frame ← buildFrame named
    let frames ← buildFrames rest
    return frame :: frames

/-- Builds values. -/
def buildAll (ds : List Datum) : Run World (List Value) := do
  let w ← get
  onHeap (Datum.buildAll w.shared ds)

/-! ### Environments and templates -/

/-- Adds an environment. -/
def addEnvironment (e : Environment) : Run World Nat := do
  let w ← get
  set { w with environments := w.environments.add e }
  return w.environments.size

/-- Adds a template. -/
def addTemplate (t : Template) : Run World Nat := do
  let w ← get
  set { w with templates := w.templates.add t }
  return w.templates.size

/-- The complaint about a tag that cannot be called. -/
def tagNotCallable (name typeName : String) : Fault :=
  .typeError s!"Tag '{name}' must be callable, got {typeName}"

/-- The definition of a tag. -/
def defineTag (name : String) (mode : TagMode) : TagBody → Run World TagDefinition
  | .script actions => pure ⟨name, actions, mode⟩
  | .value d => do
    let v ← build d
    let w ← get
    Run.fail (tagNotCallable name (w.heap.typeName v))

/-- Registers a tag. -/
def registerTag (environment : Nat) (name : String) (mode : TagMode) (body : TagBody) :
    Run World TagDefinition := do
  let t ← defineTag name mode body
  modify (World.changeEnvironment environment fun e => { e with tags := e.tags.set name (.tag t) })
  writeRecord (.registered name mode)
  return t

/-- Reads a source into a template. -/
def readTemplate (environment : Nat) (source : String) (name : Option String) : Run World Nat :=
  match Tree.ofSource source with
  | .ok tree => addTemplate ⟨environment, tree.map .atom, name, source⟩
  | .error refusal => Run.fail (refusal.toFault name source)

end Stencil
