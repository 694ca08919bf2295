/-
Stencil/Fault/Snippet.lean

Snippets: the lines of a source around a faulty one.  The window reaches a
number of lines to both sides and is cut off where the source ends; all
numbers are integers, so a window may be empty or lie outside the source.
-/
import Stencil.Text.Lines

namespace Stencil

/-- Lines of a source with their numbers, one of which is marked. -/
structure Snippet where
  lines : List (Int × String)
  errorLine : Int
  column : Option Int
  deriving DecidableEq, Repr

/-- A text padded in front with blanks. -/
def padLeft (width : Nat) (s : String) : String :=
  String.ofList (List.replicate (width - s.length) ' ') ++ s

/-- As many blanks as an integer says; none when it is negative. -/
def blanksFor (n : Int) : String := String.ofList (List.replicate n.toNat ' ')

namespace Snippet

/-- One line of a snippet as text. -/
def lineText (s : Snippet) (line : Int × String) : String :=
  (if line.1 = s.errorLine then ">" else " ") ++ padLeft 3 (toString line.1) ++ " | " ++ line.2

/-- A snippet as lines of text: a margin, the lines, a caret if there is a column, a margin. -/
def textLines (s : Snippet) : List String :=
  "   |" :: s.lines.map s.lineText ++
    (match s.column with
      | some c => ["     | " ++ blanksFor c ++ "^"]
      | none => []) ++ ["   |"]

/-- A snippet as text. -/
def text (s : Snippet) : String := "\n".intercalate s.textLines

/-- The lines from number `errorLine - around` to number `errorLine + around`, as far as the source
has them. -/
def ofSource (source : String) (errorLine around : Int) (column : Option Int) : Snippet :=
  let all := Text.lines source
  let first := max 0 (errorLine - 1 - around)
  let last := min (all.length : Int) (errorLine + around)
  let count := (last - first).toNat
  let window := (all.drop first.toNat).take count
  { lines := window.zipIdx.map fun (line, i) => (first + i + 1, line)
    errorLine, column }

end Snippet

end Stencil
