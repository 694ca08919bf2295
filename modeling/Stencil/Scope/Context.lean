/-
Stencil/Scope/Context.lean

Contexts: stacks of scope frames.  A name is looked up from the innermost frame
outwards, so inner bindings shadow outer ones and leave them alone; all writes
go to the innermost frame.  The outermost frame, the base, is permanent: a
context has at least one frame by the way it is built.
-/
import Stencil.Scope.Name

namespace Stencil

/-- A stack of frames: the innermost one, and the others from the inside out. -/
structure Context (α : Type) where
  innermost : Frame α
  outer : List (Frame α)
  deriving Repr

namespace Context

variable {α : Type}

/-- The context with one frame. -/
def ofBase (base : Frame α) : Context α := ⟨base, []⟩

/-- The context with one empty frame. -/
def empty : Context α := ofBase .empty

instance : Inhabited (Context α) := ⟨empty⟩

/-- All frames from the inside out. -/
def inward (c : Context α) : List (Frame α) := c.innermost :: c.outer

/-- All frames, the base first. -/
def frames (c : Context α) : List (Frame α) := c.inward.reverse

/-- The context with given frames, the base first, if there is one at all. -/
def ofFrames? (frames : List (Frame α)) : Option (Context α) :=
  match frames.reverse with
  | [] => none
  | f :: rest => some ⟨f, rest⟩

/-! ### Reading -/

/-- The value of a name in the first of some frames that binds it. -/
def findIn (name : Name) : List (Frame α) → Option α
  | [] => none
  | f :: rest => (f.get? name).or (findIn name rest)

/-- The value of a name. -/
def lookup? (c : Context α) (name : Name) : Option α := findIn name c.inward

/-- The value of a name, or a default. -/
def get (c : Context α) (name : Name) (default : α) : α := (c.lookup? name).getD default

/-- Whether some frame binds a name. -/
def contains (c : Context α) (name : Name) : Bool := c.inward.any (·.contains name)

/-- The visible names, those of the innermost frame first, each once. -/
def names (c : Context α) : List Name :=
  c.inward.foldl (fun seen f => seen ++ f.keys.filter (!seen.contains ·)) []

/-- The visible bindings as one frame, the names of the base first. -/
def flatten (c : Context α) : Frame α := c.frames.foldl Bindings.update .empty

/-- The number of frames. -/
def depth (c : Context α) : Nat := c.outer.length + 1

/-- Whether there is one frame only and it binds nothing. -/
def isEmpty (c : Context α) : Bool := c.outer.isEmpty && c.innermost.entries.isEmpty

/-- A context in a listing, by the heap of its names. -/
def listed (h : Heap) (c : Context α) : Except Fault String := do
  let names ← c.names.mapM fun n => h.quoted n.value
  .ok (s!"<Context depth={c.depth} names=[" ++ ", ".intercalate names ++ "]>")

/-! ### Writing -/

/-- Binds a name in the innermost frame. -/
def set (c : Context α) (name : Name) (value : α) : Context α :=
  { c with innermost := c.innermost.set name value }

/-- Binds names in the innermost frame. -/
def update (c : Context α) (frame : Frame α) : Context α :=
  { c with innermost := c.innermost.update frame }

/-- Puts a new innermost frame on top. -/
def push (c : Context α) (frame : Frame α) : Context α := ⟨frame, c.inward⟩

/-- Takes the innermost frame off, unless it is the base. -/
def pop? (c : Context α) : Option (Frame α × Context α) :=
  match c.outer with
  | [] => none
  | f :: rest => some (c.innermost, ⟨f, rest⟩)

/-- The fault of taking off the base. -/
def popBase : Fault := .scope "Cannot pop the base frame of a context"

/-- The fault of a context without frames. -/
def noFrames : Fault := .scope "A context needs at least a base frame"

end Context

end Stencil
