/-
Stencil/Proofs/Value/Segment.lean

Segments of paths in plain data: atoms, lists, tuples and dictionaries, whatever is inside them.
`Heap.Subscript` says which value is under a key, with positions that count from the front or, where
they are negative, from the end; it does not mention how items are looked up.

A segment that is no attribute is looked up as a key (`Heap.member?_plain`).  A name is the key of
that text, and digits are the number they stand for, in any script.  Two kinds of numbers are not
what they are written as.  One with a sign is not taken for a position: it is the key of its text,
which no list has.  One of more digits than the limit is not looked up at all, and the lookup fails.
-/
import Stencil.Proofs.Tree.Refused
import Stencil.Proofs.Value.Plain
import Stencil.Value.Member

namespace Stencil

/-! ### Items by key -/

namespace Heap

/-- Atoms, and lists, tuples and dictionaries of anything. -/
def IsData (h : Heap) : Value → Prop
  | .atom _ => True
  | .object i => ∃ o, h.get? i = some o ∧ o.isData = true
  | .method _ _ => False

variable {h : Heap} {v w : Value} {key : Atom} {s : String} {i : Nat}

theorem Plain.isData (p : h.Plain v) : h.IsData v := by
  cases p with
  | atom a => trivial
  | object e data _ _ => exact ⟨_, e, data⟩

end Heap

end Stencil
