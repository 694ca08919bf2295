/-
Stencil/Render/Reclaim.lean

Getting a lent context back.  When the handle of the render is the only one
left, the context itself comes back, and its cell is consumed.  When somebody
else still holds a handle, a copy comes back and the others keep the context:
from then on neither can see what happens to the other.  Either way the handle
of the render is released.

The lock must be free when the context itself is taken; that it is not marks a
defect of the hand-over that no render can mend.
-/
import Stencil.Render.World
import Stencil.Scope.Copy

namespace Stencil

/-- A function that copies values, with a memo from one to the next. -/
abbrev Clone := Value → Run Copying Value

/-- The defect of a lock that is held when the context is taken. -/
def lockedDefect : Fault :=
  .invariant ("Context lock is held during unique reclamation; " ++
    "the lock must never outlive a single accessor call")

/-- Records that a value is shared. -/
def recordSharing (name : Name) (value : Value) (e : Failure) : Run Copying Unit := do
  let s ← get
  let name ← Run.ofExcept (s.heap.text name.value)
  let r := Record.sharing name (s.heap.typeName value) e.fault.message
  set { s with records := s.records ++ [r] }

/-- A copy of a context. -/
def copyContext (clone : Clone) (c : Nat) : Run World Nat := do
  let w ← get
  let copy ← copying ((w.loans.contextAt c).copyWith clone recordSharing)
  onLoans (Loans.addContext copy)

/-- Counts a way back for the innermost render, if there is one. -/
def countPath (path : ReclaimPath) : Run World Unit := modify (World.changeTally (·.record path))

/-- Takes the context out of the cell of the only handle. -/
def reclaimUnique (handle : Nat) : Run World Nat := do
  let w ← get
  if (w.loans.cellOf handle).locked then Run.fail lockedDefect
  else do
    let c ← onLoans (Loans.detach (w.loans.handleAt handle).cell)
    onLoans (Loans.release handle)
    return c

/-- Copies the context of a handle while the lock is held. -/
def reclaimCopy (handle : Nat) (clone : Clone) : Run World Nat := do
  let cell ← onLoans (Loans.acquire handle .forever)
  let copy ← Run.ensuring
    (do
      let c ← onLoans (Loans.contextInside cell)
      copyContext clone c)
    (onLoans (Loans.unlock cell))
  let w ← get
  writeRecord (.escaped (w.loans.cellAt cell).references)
  onLoans (Loans.release handle)
  return copy

/-- Gets the context of a handle back. -/
def reclaim (handle : Nat) (clone : Clone) : Run World (Nat × ReclaimPath) := do
  let w ← get
  if (w.loans.cellOf handle).references = 1 then do
    let c ← reclaimUnique handle
    countPath .unique
    return (c, .unique)
  else do
    let c ← reclaimCopy handle clone
    countPath .deepCopy
    return (c, .deepCopy)

end Stencil
