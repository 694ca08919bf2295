/-
Stencil/Scope/Copy.lean

Copies of contexts.  Every binding is cloned once, base frame first and each
frame in its order, in one state of the clone function, so that what the
function remembers of one binding it can use for the next.  A value that
cannot be cloned is shared instead: copying a context does not fail because of
what it holds.

The clone function is arbitrary.  `shared` is told of each value that is
shared, with the failure that made it so.
-/
import Stencil.Run
import Stencil.Scope.Context

namespace Stencil

variable {σ α : Type}

/-- Clones one bound value, or shares it. -/
def cloneOrShare (clone : α → Run σ α) (shared : Name → α → Failure → Run σ Unit)
    (name : Name) (value : α) : Run σ α :=
  Run.catching (clone value) fun e => do
    shared name value e
    return value

/-- Clones the values of entries, in order. -/
def cloneEntries (clone : α → Run σ α) (shared : Name → α → Failure → Run σ Unit) :
    List (Name × α) → Run σ (List (Name × α))
  | [] => pure []
  | (name, value) :: rest => do
    let copy ← cloneOrShare clone shared name value
    let copies ← cloneEntries clone shared rest
    return (name, copy) :: copies

/-- Clones the values of frames, in order. -/
def cloneFrames (clone : α → Run σ α) (shared : Name → α → Failure → Run σ Unit) :
    List (Frame α) → Run σ (List (Frame α))
  | [] => pure []
  | frame :: rest => do
    let entries ← cloneEntries clone shared frame.entries
    let frames ← cloneFrames clone shared rest
    return ⟨entries⟩ :: frames

/-- Copies a context. -/
def Context.copyWith (clone : α → Run σ α) (shared : Name → α → Failure → Run σ Unit)
    (c : Context α) : Run σ (Context α) := do
  let outer ← cloneFrames clone shared c.outer.reverse
  let entries ← cloneEntries clone shared c.innermost.entries
  return ⟨⟨entries⟩, outer.reverse⟩

end Stencil
