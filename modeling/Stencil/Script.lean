/-
Stencil/Script.lean

Scripts: the bodies of tags, as data.  A script is a list of actions on the
handle its tag was lent, on handles that were kept, and on the environment;
what an action needs is given by operands.  A script gives nothing back unless
an action says so.

How scripts run is said elsewhere; here is only what they are.
-/
import Stencil.Value.Datum

namespace Stencil

mutual

/-- What an action needs. -/
inductive Operand where
  /-- A value, built anew each time. -/
  | datum (d : Datum)
  /-- A positional argument of the tag; negative numbers count from the end. -/
  | argument (place : Int)
  /-- A named argument of the tag. -/
  | keyword (name : String)
  | arguments
  | keywords
  /-- The value of a name, which must be bound. -/
  | bound (name : String)
  /-- The value of a name, or a default. -/
  | boundOr (name : String) (default : Datum)
  | isBound (name : String)
  | names
  /-- The names, got by going through the handle. -/
  | iterated
  /-- The number of names. -/
  | count
  /-- The number of handles on the context. -/
  | references
  /-- The handle as text. -/
  | listed
  | attributeOf (value : Operand) (name : String)
  /-- The texts of values, joined; there are all values before there is a text. -/
  | joined (parts : List Operand)
  | list (parts : List Operand)
  /-- The next of some values, by the place of the current loop. -/
  | cycled (values : List Datum)
  /-- What is known of the current render. -/
  | rendering
  /-- The text of a template, rendered with named values. -/
  | rendered (template : Int) (named : List NamedOperand)

/-- An operand with a name. -/
inductive NamedOperand where
  | mk (name : String) (value : Operand)

end

mutual

/-- One step of a script. -/
inductive Action where
  /-- Ends the script with a value. -/
  | give (value : Operand)
  | set (name : String) (value : Operand)
  /-- Puts a value at the end of a list. -/
  | append (list value : Operand)
  /-- Keeps the handle beyond the call. -/
  | keep
  /-- Keeps another handle on the same context. -/
  | keepDuplicate
  /-- Lets go of all kept handles. -/
  | dropKept
  | release
  | releaseKept (place : Int)
  | setKept (place : Int) (name : String) (value : Operand)
  | raise (fault : Fault)
  /-- Runs actions, and binds a name to how they ended. -/
  | attempt (body : List Action) (name : String)
  | pushFrame (frame : List (String × Datum))
  | popFrame
  | updateFrame (frame : List (String × Datum))
  /-- Takes the context out of its cell. -/
  | detach
  /-- Takes the lock of the context and does not give it back. -/
  | holdLock
  | registerTag (name : String) (lent : Bool) (body : TagBody)
  | eraseFilter (name : String)

/-- What a tag is registered with: a script, or a value that cannot be called. -/
inductive TagBody where
  | script (actions : List Action)
  | value (d : Datum)

end

end Stencil
