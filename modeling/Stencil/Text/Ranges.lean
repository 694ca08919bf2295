/-
Stencil/Text/Ranges.lean

Sets of code points as lists of closed ranges.  The character classes of the
library are tables of this shape, so that membership is one list search and
closed instances can be decided.
-/
namespace Stencil.Text

/-- `n` lies in one of the closed ranges. -/
def inRanges (ranges : List (Nat × Nat)) (n : Nat) : Bool :=
  ranges.any fun r => r.1 ≤ n && n ≤ r.2

theorem inRanges_iff {ranges : List (Nat × Nat)} {n : Nat} :
    inRanges ranges n = true ↔ ∃ r ∈ ranges, r.1 ≤ n ∧ n ≤ r.2 := by
  simp [inRanges]

end Stencil.Text
