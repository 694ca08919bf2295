/-
Stencil/Session/Naming.lean

Commands on names, frames and items as such.  The names of a context can be
read and bound directly or through a handle; a handle does it under the lock
of its cell.
-/
import Stencil.Session.Answer
import Stencil.Session.Command

namespace Stencil

variable {β : Type}

/-! ### Equality of contexts -/

namespace Heap

/-- Whether the entries of one frame are bound alike in another. -/
def equalBindings (h : Heap) (other : Frame Value) : List (Name × Value) → Except Fault Bool
  | [] => .ok true
  | (name, v) :: rest =>
    match other.entries.find? (·.1.is h name.value) with
    | none => .ok false
    | some (_, w) =>
      match h.equalItems v w with
      | .ok true => equalBindings h other rest
      | r => r

/-- Whether frames bind the same names to equal values, one by one; order inside a frame does not
count. -/
def equalFrames (h : Heap) : List (Frame Value) → List (Frame Value) → Except Fault Bool
  | [], [] => .ok true
  | f :: fs, g :: gs =>
    if f.size ≠ g.size then .ok false
    else
      match h.equalBindings g f.entries with
      | .ok true => equalFrames h fs gs
      | r => r
  | _, _ => .ok false

/-- Whether two contexts have equal frames. -/
def equalContexts (h : Heap) (c d : Context Value) : Except Fault Bool :=
  if c.depth = d.depth then h.equalFrames c.frames d.frames else .ok false

end Heap

namespace Session

/-! ### Any item -/

/-- Whether two items are one and the same. -/
def sameItem : Item → Item → Bool
  | .context a, .context b | .slot a, .slot b | .handle a, .handle b
  | .environment a, .environment b | .template a, .template b => a == b
  | .nothing, .nothing => true
  | _, _ => false

/-- Whether two items are equal. -/
def equalItem (w : World) : Item → Item → Except Fault Bool
  | .context a, .context b =>
    if a = b then .ok true
    else w.heap.equalContexts (w.loans.contextAt a) (w.loans.contextAt b)
  | i, j => .ok (sameItem i j)

/-- An item as text. -/
def itemText (w : World) : Item → Except Fault String
  | .context c => (w.loans.contextAt c).listed w.heap
  | .slot s => w.slotListed s
  | .handle h => .ok (w.loans.listed h)
  | .template t => .ok (w.templateAt t).listed
  | .nothing => .ok "None"
  | i => .ok ("<" ++ i.typeName ++ ">")

/-- Runs a command on any item. -/
def onItem (name : String) (i : Item) : ItemCommand → Run Session Effect
  | .listed => do
    let s ← get
    let text ← Run.ofExcept (itemText s.world i)
    return .say (.text text)
  | .hash =>
    match i with
    | .context _ => Run.fail (.typeError "unhashable type: 'Context'")
    | _ => pure .nothing
  | .equal other => do
    let j ← item other
    let s ← get
    let equal ← Run.ofExcept (equalItem s.world i j)
    return .say (.bool (equal || name == other))
  | .equalValue d => do
    let v ← inWorld (build d)
    return .say (.bool (match i with
      | .nothing => v == .absent
      | _ => false))
  | .same other => do
    let j ← item other
    return .say (.bool (sameItem i j || name == other))

end Session

/-! ### Names -/

/-- How the names of a context are reached. -/
inductive Reach where
  | direct (context : Nat)
  | through (handle : Nat)

namespace Reach

/-- Works on the context. -/
def withContext (r : Reach) (work : Nat → Run (Loans Value) β) : Run World β :=
  match r with
  | direct c => onLoans (work c)
  | through h => onLoans (Loans.locking h work)

/-- The value of a name. -/
def lookup (r : Reach) (name : String) : Run World Value := r.withContext (Loans.lookupIn · name)

/-- The visible names. -/
def names (r : Reach) : Run World (List Name) :=
  r.withContext fun c => do
    let l ← get
    return (l.contextAt c).names

/-- Whether a value is a bound name; it must be one that can be a key. -/
def isBound (r : Reach) (v : Value) : Run World Bool := do
  let w ← get
  r.withContext fun c => do
    Run.ofExcept (w.heap.requireHashable v)
    let l ← get
    return (l.contextAt c).names.any (·.is w.heap v)

/-- Going through the names; a context itself is no list of names, and is asked for its items by
number instead. -/
def iterate : Reach → Run World (List Name)
  | direct _ => Run.fail (.keyError "0")
  | through h => (through h).names

/-- The number of names; a context itself has no length. -/
def count : Reach → Run World Nat
  | direct _ => Run.fail (noLength "Context")
  | through h => onLoans (Loans.count h)

end Reach

/-- Sets a key in a value. -/
def setItem (target key value : Value) : Run World Unit := do
  let w ← get
  match target, w.heap.objectOf? target with
  | .object i, some (.dict es) => do
    Run.ofExcept (w.heap.requireHashable key)
    set { w with heap := w.heap.put i (.dict (w.heap.setKey key value es)) }
  | .object i, some (.list xs) =>
    match key with
    | .atom a =>
      match a.wholeNumber? with
      | some n =>
        match Place.ofInt? xs.length n with
        | some place => set { w with heap := w.heap.put i (.list (xs.set place value)) }
        | none => Run.fail (Place.nothingAt n "list assignment index")
      | none => Run.fail (noIndex w)
    | _ => Run.fail (noIndex w)
  | _, _ =>
    Run.fail (noItemAssignment (w.heap.typeName target))
where
  /-- The fault of a key that is no place in a list. -/
  noIndex (w : World) : Fault :=
    .typeError s!"list indices must be integers or slices, not {w.heap.typeName key}"

/-- Runs a command on names.  Whether two names are bound to the same value is for those to find out
who can reach both. -/
def NameCommand.run (r : Reach) : NameCommand → Run World Effect
  | lookup name | item name => do
    let v ← r.lookup name
    sayValue v
  | getOr name default => do
    let d ← build default
    let v ← r.withContext fun c => do
      let l ← get
      return (l.contextAt c).get name d
    sayValue v
  | isBound name => do
    let v ← build name
    let b ← r.isBound v
    return .say (.bool b)
  | set name value | setItem name value => do
    let v ← build value
    r.withContext fun c => modify (Loans.changeContext c (·.set name v))
    return .nothing
  | names => do
    let ns ← r.names
    sayNames ns
  | iterate => do
    let ns ← r.iterate
    sayNames ns
  | count => do
    let n ← r.count
    return .say (.int n)
  | append name value => do
    let list ← r.lookup name
    appendTo list (build value)
    return .nothing
  | setKey name key value => do
    let v ← build value
    let target ← r.lookup name
    let k ← build key
    Stencil.setItem target k v
    return .nothing
  | sameValue name _ _ => do
    let v ← r.lookup name
    sayValue v

/-- The fault of asking an item for names that has none. -/
def NameCommand.refusal (typeName : String) : NameCommand → Fault
  | item _ => notSubscriptable typeName
  | setItem _ _ => noItemAssignment typeName
  | isBound _ => noContainer typeName
  | iterate => notIterable typeName
  | count => noLength typeName
  | getOr _ _ => missingAttribute typeName "get"
  | set _ _ => missingAttribute typeName "set"
  | names => missingAttribute typeName "names"
  | lookup _ | append _ _ | setKey _ _ _ | sameValue _ _ _ => missingAttribute typeName "lookup"

namespace Session

/-- How the names of an item are reached for a command. -/
def reachOf (c : NameCommand) : Item → Run Session Reach
  | .context n => pure (.direct n)
  | .handle h => pure (.through h)
  | i => Run.fail (c.refusal i.typeName)

/-- Runs a command on names. -/
def onNames (i : Item) (c : NameCommand) : Run Session Effect := do
  let r ← reachOf c i
  match c with
  | .sameValue name other otherName => do
    let v ← inWorld (r.lookup name)
    let j ← item other
    let s ← reachOf c j
    let w ← inWorld (s.lookup otherName)
    let state ← get
    return .say (.bool (state.world.heap.same v w))
  | _ => inWorld (c.run r)

/-! ### Frames -/

/-- A frame as it is seen. -/
def sayFrame (f : Frame Value) : Run World Effect := do
  let w ← get
  return .say (.view (.dict (w.frameView f)))

end Session

/-- Runs a command on the frames of a context. -/
def ContextCommand.run (clone : CloneRule → Clone) (c : Nat) : ContextCommand → Run World Effect
  | update frame => do
    let f ← buildFrame frame
    onLoans (modify (Loans.changeContext c (·.update f)))
    return .nothing
  | push frame => do
    let f ← buildFrame frame
    onLoans (Loans.pushFrame c f)
    return .nothing
  | pop => do
    let f ← onLoans (Loans.popFrame c)
    Session.sayFrame f
  | flatten => do
    let w ← get
    Session.sayFrame (w.loans.contextAt c).flatten
  | depth => do
    let w ← get
    return .say (.int (w.loans.contextAt c).depth)
  | isEmpty => do
    let w ← get
    return .say (.bool (w.loans.contextAt c).isEmpty)
  | deepCopy rule => do
    let copy ← copyContext (clone rule) c
    return .make (.context copy)
  | wrap => do
    let h ← onLoans (Loans.wrap c)
    return .make (.handle h)

/-- What a command on frames would ask its item for. -/
def ContextCommand.wanted : ContextCommand → String
  | update _ => "update"
  | push _ => "push"
  | pop => "pop"
  | flatten => "flatten"
  | depth => "depth"
  | isEmpty => "is_empty"
  | deepCopy _ => "deep_copy"
  | wrap => "_frames"

/-- Runs a command on frames. -/
def Session.onContext (clone : CloneRule → Clone) (i : Item) (c : ContextCommand) :
    Run Session Effect :=
  match i with
  | .context n => inWorld (c.run clone n)
  | _ => refuse i c.wanted

end Stencil
