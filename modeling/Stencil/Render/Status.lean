/-
Stencil/Render/Status.lean

What can be seen from outside of contexts, slots and handles.
-/
import Stencil.Render.World

namespace Stencil

/-- The frames of a context, the base first, as they are seen. -/
abbrev FrameViews := List (List (View × View))

/-- A slot as it is seen. -/
structure SlotStatus where
  vacant : Bool
  frames : FrameViews

/-- A handle as it is seen, with its cell. -/
structure HandleStatus where
  released : Bool
  references : Int
  consumed : Bool
  locked : Bool
  /-- The frames of the context, while the cell has one. -/
  frames : Option FrameViews

namespace World

/-- A frame as it is seen. -/
def frameView (w : World) (f : Frame Value) : List (View × View) :=
  f.entries.map fun e => (w.heap.view e.1.value, w.heap.view e.2)

/-- The frames of a context. -/
def framesOf (w : World) (c : Context Value) : FrameViews :=
  c.frames.map w.frameView

/-- A slot as it is seen. -/
def slotStatus (w : World) (slot : Nat) : SlotStatus :=
  ⟨(w.loans.slotAt slot).vacant, w.framesOf (w.contextIn slot)⟩

/-- A handle as it is seen. -/
def handleStatus (w : World) (handle : Nat) : HandleStatus :=
  let cell := w.loans.cellOf handle
  { released := (w.loans.handleAt handle).released
    references := cell.references
    consumed := cell.consumed
    locked := cell.locked
    frames := cell.context.map fun c => w.framesOf (w.loans.contextAt c) }

/-- A slot in a listing. -/
def slotListed (w : World) (slot : Nat) : Except Fault String := do
  let inside ← (w.contextIn slot).listed w.heap
  .ok ("<ContextSlot " ++ (if (w.loans.slotAt slot).vacant then "vacant" else "owned") ++ " " ++
    inside ++ ">")

end World

end Stencil
