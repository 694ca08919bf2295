/-
Stencil/Value/Iteration.lean

Going through the items of a value.  Strings give their characters, lists and
tuples their items, dictionaries their keys.  A generator gives up its items
as they are taken.  A loop gives the items it runs over and moves to each as
it gives it.
-/
import Stencil.Run
import Stencil.Value.Text

namespace Stencil.Heap

variable {β : Type}

/-- Applies `f` to values, in order. -/
def visit (f : Value → Run Heap β) : List Value → Run Heap (List β)
  | [] => pure []
  | v :: rest => do
    let b ← f v
    let bs ← visit f rest
    return b :: bs

/-- Takes the items of a generator one after the other. -/
def visitGenerator (i : Nat) (f : Value → Run Heap β) : List Value → Run Heap (List β)
  | [] => pure []
  | v :: rest => do
    modify (·.put i (.generator rest))
    let b ← f v
    let bs ← visitGenerator i f rest
    return b :: bs

/-- Moves a loop to each of its items in turn. -/
def visitLoop (i items : Nat) (f : Value → Run Heap β) : (position : Nat) → List Value →
    Run Heap (List β)
  | _, [] => pure []
  | position, v :: rest => do
    modify (·.put i (.loop (some ⟨items, position⟩)))
    let b ← f v
    let bs ← visitLoop i items f (position + 1) rest
    return b :: bs

/-- Applies `f` to the items of a value, in order. -/
def forEach (v : Value) (f : Value → Run Heap β) : Run Heap (List β) := do
  let h ← get
  match v with
  | .atom (.str s) => visit f (s.toList.map fun c => Value.str (String.singleton c))
  | .object i =>
    match h.get? i with
    | some (.list xs) | some (.tuple xs) => visit f xs
    | some (.dict es) => visit f (es.map (·.1))
    | some (.generator xs) => visitGenerator i f xs
    | some (.loop (some l)) => visitLoop i l.items f 0 (h.listItems l.items)
    | some (.loop none) => Run.fail (missingAttribute "LoopContext" "_items")
    | _ => Run.fail (notIterable (h.typeName v))
  | _ => Run.fail (notIterable (h.typeName v))

/-- Refuses a value that has no items. -/
def requireIterable (h : Heap) (v : Value) : Except Fault Unit :=
  match v, h.objectOf? v with
  | .atom (.str _), _ => .ok ()
  | _, some (.sealed _) | _, some (.thing _) | _, none => .error (notIterable (h.typeName v))
  | _, some _ => .ok ()

/-- The items of a value. -/
def itemsOf (v : Value) : Run Heap (List Value) := forEach v pure

/-- The number of items of a value that has a size. -/
def sizeOf (h : Heap) (v : Value) : Except Fault Nat :=
  match v, h.objectOf? v with
  | .atom (.str s), _ => .ok s.length
  | _, some (.list xs) | _, some (.tuple xs) => .ok xs.length
  | _, some (.dict es) => .ok es.length
  | _, _ => .error (noLength (h.typeName v))

end Stencil.Heap
