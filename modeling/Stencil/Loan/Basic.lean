/-
Stencil/Loan/Basic.lean

Contexts on loan.  While a render goes on its context lies in a *slot*.  To
lend it to a tag the context is taken out of the slot, which holds an empty
placeholder meanwhile, and put into a *cell*; the tag works through *handles*
on the cell.  A cell counts its handles and drops its context with the last of
them.  It has a lock, which each access holds for its own duration, and it is
consumed when its context is taken out for good.

Contexts, slots, cells and handles are rows of tables, known by their numbers,
so that "the very same context" is equality of numbers.  The values bound in
contexts do not matter here.
-/
import Stencil.Run
import Stencil.Scope.Context
import Stencil.Store.Table

namespace Stencil

/-- A place that holds a context; it is vacant while the context is lent. -/
structure Slot where
  context : Nat
  vacant : Bool
  deriving DecidableEq, Repr

/-- A context that is shared by handles. -/
structure Cell where
  context : Option Nat
  references : Int
  consumed : Bool
  locked : Bool
  deriving DecidableEq, Repr

/-- Takes one off the count of a cell; at zero the context is dropped. -/
def Cell.leave (c : Cell) : Cell :=
  { c with
    references := c.references - 1
    context := if c.references - 1 = 0 then none else c.context }

/-- A handle on a cell, and how many hold it. -/
structure Handle where
  cell : Nat
  released : Bool
  holders : Nat
  deriving DecidableEq, Repr

/-- All contexts, slots, cells and handles. -/
structure Loans (α : Type) where
  contexts : Table (Context α)
  slots : Table Slot
  cells : Table Cell
  handles : Table Handle

namespace Loans

variable {α β : Type}

/-- Nothing on loan. -/
def empty : Loans α := ⟨.empty, .empty, .empty, .empty⟩

instance : Inhabited (Loans α) := ⟨empty⟩

/-! ### Rows -/

/-- The context of a number. -/
def contextAt (l : Loans α) (c : Nat) : Context α := (l.contexts.get? c).getD .empty

/-- The slot of a number. -/
def slotAt (l : Loans α) (s : Nat) : Slot := (l.slots.get? s).getD ⟨0, false⟩

/-- The cell of a number. -/
def cellAt (l : Loans α) (c : Nat) : Cell := (l.cells.get? c).getD ⟨none, 0, false, false⟩

/-- The handle of a number; what is no handle counts as released. -/
def handleAt (l : Loans α) (h : Nat) : Handle := (l.handles.get? h).getD ⟨0, true, 0⟩

/-- The cell of a handle. -/
def cellOf (l : Loans α) (h : Nat) : Cell := l.cellAt (l.handleAt h).cell

/-- Changes a context. -/
def changeContext (c : Nat) (f : Context α → Context α) (l : Loans α) : Loans α :=
  { l with contexts := l.contexts.modify c f }

/-- Changes a slot. -/
def changeSlot (s : Nat) (f : Slot → Slot) (l : Loans α) : Loans α :=
  { l with slots := l.slots.modify s f }

/-- Changes a cell. -/
def changeCell (c : Nat) (f : Cell → Cell) (l : Loans α) : Loans α :=
  { l with cells := l.cells.modify c f }

/-- Changes a handle. -/
def changeHandle (h : Nat) (f : Handle → Handle) (l : Loans α) : Loans α :=
  { l with handles := l.handles.modify h f }

/-! ### Contexts -/

/-- Adds a context. -/
def addContext (c : Context α) : Run (Loans α) Nat := do
  let l ← get
  set { l with contexts := l.contexts.add c }
  return l.contexts.size

/-- The context with given frames, which must not be none at all. -/
def addFrames (frames : List (Frame α)) : Run (Loans α) Nat :=
  match Context.ofFrames? frames with
  | some c => addContext c
  | none => Run.fail Context.noFrames

/-- Pushes a frame. -/
def pushFrame (c : Nat) (frame : Frame α) : Run (Loans α) Unit :=
  modify (changeContext c (·.push frame))

/-- Takes the innermost frame off, unless it is the base. -/
def popFrame (c : Nat) : Run (Loans α) (Frame α) := do
  let l ← get
  match (l.contextAt c).pop? with
  | some (frame, rest) =>
    set (changeContext c (fun _ => rest) l)
    return frame
  | none => Run.fail Context.popBase

/-- The fault of looking up a name that is not bound. -/
def unbound (name : String) : Fault := .keyError (Text.quote name)

/-- The value of a name in a context. -/
def lookupIn (c : Nat) (name : String) : Run (Loans α) α := do
  let l ← get
  match (l.contextAt c).lookup? name with
  | some v => return v
  | none => Run.fail (unbound name)

/-! ### Slots -/

/-- Adds a slot that holds a context. -/
def addSlot (c : Nat) : Run (Loans α) Nat := do
  let l ← get
  set { l with slots := l.slots.add ⟨c, false⟩ }
  return l.slots.size

/-- Takes the context out of a slot and leaves an empty one in its place. -/
def take (s : Nat) : Run (Loans α) Nat := do
  let l ← get
  let placeholder ← addContext .empty
  modify (changeSlot s fun _ => ⟨placeholder, true⟩)
  return (l.slotAt s).context

/-- Puts a context into a slot. -/
def swapBack (s c : Nat) : Run (Loans α) Unit := modify (changeSlot s fun _ => ⟨c, false⟩)

end Loans

end Stencil
