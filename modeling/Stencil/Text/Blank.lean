/-
Stencil/Text/Blank.lean

Blank characters: the white space of Unicode together with the four
information separators U+001C to U+001F.  Regions of a template may hold any
of them between tokens, and trimming removes them at both ends.
-/
import Stencil.Text.Ranges

namespace Stencil.Text

/-- Code points that count as blank. -/
def blanks : List (Nat × Nat) :=
  [(0x09, 0x0d), (0x1c, 0x20), (0x85, 0x85), (0xa0, 0xa0), (0x1680, 0x1680),
   (0x2000, 0x200a), (0x2028, 0x2029), (0x202f, 0x202f), (0x205f, 0x205f), (0x3000, 0x3000)]

/-- Whether a character is blank. -/
def isBlank (c : Char) : Bool := inRanges blanks c.toNat

/-- Removes blank characters from the front. -/
def trimFront (cs : List Char) : List Char := cs.dropWhile isBlank

/-- Removes blank characters from both ends. -/
def trimChars (cs : List Char) : List Char := (trimFront (trimFront cs).reverse).reverse

/-- Removes blank characters from both ends of a text. -/
def trim (s : String) : String := String.ofList (trimChars s.toList)

example : isBlank ' ' = true ∧ isBlank '\n' = true ∧ isBlank 'a' = false := by decide

end Stencil.Text
