/-
Stencil/Value.lean

Values.  Atoms stand for themselves; every other value is an object, known by
its number, so that one object can be bound in several places and be changed
for all of them at once.  A method is a value too: it belongs to the value it
was read from.
-/
import Stencil.Fault
import Stencil.Store.Table
import Stencil.Value.Atom

namespace Stencil

/-- A value. -/
inductive Value where
  | atom (a : Atom)
  | object (number : Nat)
  | method (receiver : Value) (name : String)
  deriving DecidableEq, Repr

namespace Value

/-- The value that stands for the absence of one. -/
def absent : Value := atom .none

def bool (b : Bool) : Value := atom (.bool b)

def int (n : Int) : Value := atom (.int n)

def nat (n : Nat) : Value := int n

def float (x : Binary64) : Value := atom (.float x)

def str (s : String) : Value := atom (.str s)

instance : Inhabited Value := ⟨absent⟩

end Value

/-- The state of a loop: the list it runs over, by number, and the place in it. -/
structure LoopState where
  items : Nat
  position : Nat
  deriving DecidableEq, Repr

/-- A thing from outside: its attributes, its items if it has any, and the names that raise a fault
when they are read as attributes that it does not have. -/
structure Thing where
  name : Option String
  attributes : List (String × Value)
  items : Option (List (Value × Value))
  raising : List (String × Fault)
  deriving Repr

/-- What an object is. -/
inductive Object where
  | list (items : List Value)
  | tuple (items : List Value)
  /-- Keys with their values, in order. -/
  | dict (entries : List (Value × Value))
  /-- Items that can be taken once. -/
  | generator (rest : List Value)
  /-- A value that refuses to be copied, with the words of the refusal. -/
  | sealed (text : String)
  | thing (t : Thing)
  /-- The state of a loop, unless a copy of it was left unfinished. -/
  | loop (state : Option LoopState)
  deriving Repr

/-- The name of an object's type. -/
def Object.typeName : Object → String
  | list _ => "list"
  | tuple _ => "tuple"
  | dict _ => "dict"
  | generator _ => "generator"
  | sealed _ => "Opaque"
  | thing t => if t.items.isSome then "ItemObj" else "Obj"
  | loop _ => "LoopContext"

/-! ### The heap -/

/-- All objects made so far, and how many values that are not numbers were made. -/
structure Heap where
  objects : Table Object
  unnumbers : Nat

namespace Heap

/-- No objects. -/
def empty : Heap := ⟨.empty, 0⟩

instance : Inhabited Heap := ⟨empty⟩

/-- The object of a number. -/
def get? (h : Heap) (i : Nat) : Option Object := h.objects.get? i

/-- Makes an object. -/
def add (h : Heap) (o : Object) : Value × Heap :=
  (.object h.objects.size, { h with objects := h.objects.add o })

/-- Replaces an object. -/
def put (h : Heap) (i : Nat) (o : Object) : Heap := { h with objects := h.objects.put i o }

/-- The object that a value is. -/
def objectOf? (h : Heap) : Value → Option Object
  | .object i => h.get? i
  | _ => none

/-- The name of a value's type. -/
def typeName (h : Heap) : Value → String
  | .atom a => a.typeName
  | .object i => ((h.get? i).map Object.typeName).getD "object"
  | .method _ "cycle" => "method"
  | .method _ _ => "builtin_function_or_method"

/-- Empty and zero values are false; values without a size are true. -/
def truth (h : Heap) : Value → Bool
  | .atom a => a.truth
  | .object i =>
    match h.get? i with
    | some (.list xs) | some (.tuple xs) => !xs.isEmpty
    | some (.dict es) => !es.isEmpty
    | _ => true
  | .method _ _ => true

/-- The items of a list. -/
def listItems (h : Heap) (i : Nat) : List Value :=
  match h.get? i with
  | some (.list xs) => xs
  | _ => []

end Heap

end Stencil
