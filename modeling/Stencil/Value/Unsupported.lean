/-
Stencil/Value/Unsupported.lean

What values of a type do not support, as faults.
-/
import Stencil.Fault

namespace Stencil

/-- The fault of reading an attribute that a value does not have. -/
def missingAttribute (typeName name : String) : Fault :=
  .foreign "AttributeError" ("'" ++ typeName ++ "' object has no attribute '" ++ name ++ "'")

/-- The fault of going through a value that has no items. -/
def notIterable (typeName : String) : Fault :=
  .typeError ("'" ++ typeName ++ "' object is not iterable")

/-- The fault of looking for an item in a value that has none. -/
def noContainer (typeName : String) : Fault :=
  .typeError ("argument of type '" ++ typeName ++ "' is not iterable")

/-- The fault of asking a value without a size for it. -/
def noLength (typeName : String) : Fault :=
  .typeError ("object of type '" ++ typeName ++ "' has no len()")

/-- The fault of asking a value without keys for the item of a key. -/
def notSubscriptable (typeName : String) : Fault :=
  .typeError ("'" ++ typeName ++ "' object is not subscriptable")

/-- The fault of setting the item of a key in a value that does not take it. -/
def noItemAssignment (typeName : String) : Fault :=
  .typeError ("'" ++ typeName ++ "' object does not support item assignment")

/-- The fault of using a value for a block that it cannot be used for. -/
def noBlock (typeName : String) : Fault :=
  .typeError ("'" ++ typeName ++ "' object does not support the context manager protocol")

/-- The fault of calling a value. -/
def notCallable (typeName : String) : Fault :=
  .typeError ("'" ++ typeName ++ "' object is not callable")

end Stencil
