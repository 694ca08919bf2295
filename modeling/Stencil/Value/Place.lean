/-
Stencil/Value/Place.lean

Places in lists by whole numbers: those from zero on count from the front,
negative ones from the back.  A number that no list is long enough for is
refused with words of its own.
-/
import Stencil.Fault

namespace Stencil.Place

variable {α : Type}

/-- The place that a number stands for among `size` items, if there is one. -/
def ofInt? (size : Nat) (n : Int) : Option Nat :=
  let place := if n < 0 then n + size else n
  if 0 ≤ place ∧ place < size then some place.toNat else none

/-- The item at a place. -/
def get? (items : List α) (n : Int) : Option α := (ofInt? items.length n).bind (items[·]?)

/-- Whether a number can be a place at all. -/
def fits (n : Int) : Bool := -Int.ofNat (Nat.pow 2 63) ≤ n && n < Int.ofNat (Nat.pow 2 63)

/-- The fault of looking for an item where there is none. -/
def nothingAt (n : Int) (what : String) : Fault :=
  .foreign "IndexError"
    (if fits n then what ++ " out of range" else "cannot fit 'int' into an index-sized integer")

/-- The fault of taking an item out of a list where there is none. -/
def nothingToTake (items : List α) (n : Int) : Fault :=
  if fits n then
    .foreign "IndexError"
      (if items.isEmpty then "pop from empty list" else "pop index out of range")
  else .foreign "OverflowError" "Python int too large to convert to C ssize_t"

end Stencil.Place
