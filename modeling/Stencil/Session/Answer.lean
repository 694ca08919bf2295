/-
Stencil/Session/Answer.lean

What commands answer, and the items that they make.
-/
import Stencil.Session.Basic

namespace Stencil

/-- What a command answers. -/
inductive Answer where
  | view (v : View)
  /-- What is registered under a name. -/
  | entry (e : TagEntry)
  /-- A name with what is registered under it. -/
  | named (name : String) (e : TagEntry)
  | entries (es : List (String × TagEntry))
  | tally (t : Tally)
  | rendering (r : Rendering) (t : Tally)
  | template (t : Template)

namespace Answer

/-- Nothing to say. -/
def nothing : Answer := view (.atom .none)

def bool (b : Bool) : Answer := view (.atom (.bool b))

def int (n : Int) : Answer := view (.atom (.int n))

def text (s : String) : Answer := view (.atom (.str s))

def texts (ss : List String) : Answer := view (.list (ss.map fun s => .atom (.str s)))

end Answer

/-- What a command comes to: its answer, and the item it made. -/
structure Effect where
  answer : Answer
  made : Option Item

namespace Effect

/-- An answer and no item. -/
def say (a : Answer) : Effect := ⟨a, none⟩

/-- Nothing at all. -/
def nothing : Effect := say .nothing

/-- An item and no answer. -/
def make (i : Item) : Effect := ⟨.nothing, some i⟩

end Effect

/-- Answers with names. -/
def sayNames (names : List Name) : Run World Effect := do
  let w ← get
  return .say (.view (.list (names.map fun n => w.heap.view n.value)))

/-- Answers with a value as it is seen now. -/
def sayValue (v : Value) : Run World Effect := do
  let w ← get
  return .say (.view (w.heap.view v))

end Stencil
