/-
Stencil/Session/Command.lean

The commands of a session, as data, by what they work on.  A step is a command
with the register it works on and the register it writes.
-/
import Stencil.Render.Setup

namespace Stencil

/-- Commands on any item. -/
inductive ItemCommand where
  /-- The item as text. -/
  | listed
  | hash
  | equal (other : String)
  | equalValue (value : Datum)
  /-- Whether two registers hold one and the same item. -/
  | same (other : String)
  deriving Inhabited

/-- Commands on the names that are bound in a context, directly or through a handle. -/
inductive NameCommand where
  | lookup (name : String)
  /-- Looks a name up as the item of a key. -/
  | item (name : String)
  | getOr (name : String) (default : Datum)
  | isBound (name : Datum)
  | set (name : String) (value : Datum)
  /-- Binds a name as the item of a key. -/
  | setItem (name : String) (value : Datum)
  | names
  | iterate
  | count
  /-- Puts a value at the end of the list that a name is bound to. -/
  | append (name : String) (value : Datum)
  /-- Sets a key in what a name is bound to. -/
  | setKey (name : String) (key value : Datum)
  /-- Whether two names are bound to one and the same value. -/
  | sameValue (name other otherName : String)

/-- Commands on the frames of a context. -/
inductive ContextCommand where
  | update (frame : List (String × Datum))
  | push (frame : List (String × Datum))
  | pop
  | flatten
  | depth
  | isEmpty
  | deepCopy (clone : CloneRule)
  /-- Puts the context into a cell and makes the first handle. -/
  | wrap

/-- Commands on a handle and its cell. -/
inductive HandleCommand where
  | duplicate
  /-- Another handle on the cell, whatever the state of this one. -/
  | another
  | release
  | references
  | released
  /-- Uses the handle for a block, which releases it. -/
  | use
  /-- Enters the lock, for at most a time, and puts it into a register. -/
  | lock (timeout : Option Datum) (guard : String)
  | detach
  | reclaim (clone : CloneRule)

/-- Commands on a slot. -/
inductive SlotCommand where
  | vacant
  | context
  | take
  | swapBack (context : String)
  | renderTag (tag : String) (args : List Datum) (named : List (String × Datum)) (clone : CloneRule)

/-- Commands on a table of names. -/
inductive RegistryCommand where
  | get (name : String)
  | item (name : String)
  | setItem (name : String) (filter : Filter)
  | erase (name : String)
  | pop (name : String) (default : Option Datum)
  | popFirst
  | setDefault (name : String) (filter : Filter)
  | clear
  | contains (name : String)
  | size
  | listed
  | names
  | copy
  | update (entries : List (String × Filter))

/-- The tables of an environment. -/
inductive RegistryTable where
  | tags
  | filters
  deriving DecidableEq, Repr

/-- Commands on an environment. -/
inductive EnvironmentCommand where
  | registerTag (tag : TagPlan)
  /-- Registers a tag under a name, or under its own. -/
  | nameTag (tag : TagPlan) (name : Option String)
  | addFilter (name : String) (filter : Filter)
  /-- Registers a filter under a name, or under its own. -/
  | nameFilter (filter : Filter) (name : Option String)
  | template (source : String) (name : Option String)
  | registry (table : RegistryTable) (command : RegistryCommand)

/-- Commands on a template. -/
inductive TemplateCommand where
  | info
  /-- Renders with values, at once or while others wait. -/
  | render (args : List Datum) (named : List (String × Datum)) (waiting : Bool)
  | renderSlot (slot : String)

/-- Commands on the renders under way. -/
inductive RenderingCommand where
  /-- Begins a render, which may share the counts of the one it is in; there must be one then. -/
  | enter (templateName source : Option String) (share : Bool)
  | leave
  | status
  | required
  | setLine (line : Int)
  /-- Counts ways back, apart from all renders. -/
  | tally (paths : List String)

/-- All commands. -/
inductive Command where
  | newContext (base : List (String × Datum))
  | contextOfFrames (frames : List (List (String × Datum)))
  | newSlot (context : Option String)
  | newEnvironment (plan : EnvironmentPlan)
  | defineTag (tag : TagPlan)
  /-- Takes a handle out of those that tags kept. -/
  | takeKept (place : Int)
  | drop (register : String)
  | unlock (guard : String)
  | openScope (bindings : List (String × Datum))
  /-- Leaves a scope, by a fault or without one. -/
  | closeScope (scope : String)
  | onItem (command : ItemCommand)
  | onNames (command : NameCommand)
  | onContext (command : ContextCommand)
  | onHandle (command : HandleCommand)
  | onSlot (command : SlotCommand)
  | onEnvironment (command : EnvironmentCommand)
  | onTemplate (command : TemplateCommand)
  | onRendering (command : RenderingCommand)

/-- A command with the register it works on and the register it writes. -/
structure Step where
  /-- The registers that must be there for the step to be run. -/
  needs : List String
  on : Option String
  target : Option String
  command : Command

end Stencil
