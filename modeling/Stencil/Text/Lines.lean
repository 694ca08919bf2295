/-
Stencil/Text/Lines.lean

Lines of a text.  There are two notions.  Positions are counted in *rows*,
which end at a line feed and nowhere else.  Messages quote *lines*, which also
end at the other line separators of Unicode; a carriage return followed by a
line feed counts as one separator, and a separator at the very end opens no
further line.
-/
namespace Stencil.Text

/-- Characters that end a line. -/
def isLineBreak (c : Char) : Bool :=
  let n := c.toNat
  (0x0a ≤ n && n ≤ 0x0d) || (0x1c ≤ n && n ≤ 0x1e) || n == 0x85 || n == 0x2028 || n == 0x2029

/-- Puts a character in front of the first line. -/
def consFirst (c : Char) : List (List Char) → List (List Char)
  | [] => [[c]]
  | line :: rest => (c :: line) :: rest

/-- The parts of a text between its line separators; there is always at least one. -/
def segments : List Char → List (List Char)
  | [] => [[]]
  | '\r' :: '\n' :: rest => [] :: segments rest
  | c :: rest => if isLineBreak c then [] :: segments rest else consFirst c (segments rest)

/-- The lines of a text. -/
def lines (s : String) : List String :=
  let parts := segments s.toList
  (if parts.getLast? = some [] then parts.dropLast else parts).map String.ofList

end Stencil.Text
