/-
Stencil/Record.lean

Records: what a render writes down about the hand-over of its context.  They
are data; their wording is a function.
-/
import Stencil.Fault

namespace Stencil

/-- How a context comes back from a handle. -/
inductive ReclaimPath where
  /-- The very context, which nobody else holds. -/
  | unique
  /-- A copy of the context, which somebody else still holds. -/
  | deepCopy
  deriving DecidableEq, Repr

/-- The word for a way back. -/
def ReclaimPath.word : ReclaimPath → String
  | unique => "unique"
  | deepCopy => "deep_copy"

/-- Whether a tag is lent the context. -/
inductive TagMode where
  | plain
  | context
  deriving DecidableEq, Repr

/-- The word for a mode. -/
def TagMode.word : TagMode → String
  | plain => "plain"
  | context => "context"

/-- The parts of the engine that write records. -/
inductive Scribe where
  | context
  | reclaim
  | dispatch
  | environment
  deriving DecidableEq, Repr

/-- A record. -/
inductive Record where
  /-- A value that could not be copied is shared. -/
  | sharing (name typeName reason : String)
  /-- A context was held by somebody else, so it is copied. -/
  | escaped (references : Int)
  /-- A tag gave the context back. -/
  | returned (tag : String) (path : ReclaimPath)
  /-- A tag raised a fault. -/
  | raised (tag kind message : String)
  | registered (tag : String) (mode : TagMode)
  deriving DecidableEq, Repr

namespace Record

/-- Who writes a record. -/
def scribe : Record → Scribe
  | sharing _ _ _ => .context
  | escaped _ => .reclaim
  | returned _ _ | raised _ _ _ => .dispatch
  | registered _ _ => .environment

/-- The wording of a record. -/
def message : Record → String
  | sharing name typeName reason =>
    s!"Sharing '{name}' by reference; {typeName} could not be copied: {reason}"
  | escaped references =>
    s!"Context handle escaped ({references} refs); reclaimed by deep copy"
  | returned tag path => s!"Tag '{tag}' returned context via {path.word} path"
  | raised tag kind message => s!"Tag '{tag}' raised {kind}: {message}"
  | registered tag mode => s!"Registered tag '{tag}' ({mode.word})"

end Record

end Stencil
