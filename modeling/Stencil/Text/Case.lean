/-
Stencil/Text/Case.lean

Upper, lower and title case of texts, by the full mappings of Unicode: one
letter may become several (`ß` gives `SS`), and a capital sigma at the end of
a word has a lower case of its own.

A letter starts a word, for title case, exactly when the character before it
has no case.  So digits and apostrophes end words: `they're` gives `They'Re`.
-/
import Stencil.Text.Case.Table

namespace Stencil.Text

/-! ### Single letters -/

/-- Whether a character has case. -/
def isCased (c : Char) : Bool := inRanges casedRanges c.toNat

/-- Whether a character is passed over when the neighbours of a letter are looked at. -/
def isCaseIgnorable (c : Char) : Bool := inRanges caseIgnorableRanges c.toNat

/-- The image of a letter: its sequence if it has one, else its place in a run, else itself. -/
def changeCase (sequences : List (Nat × List Nat)) (runs : List CaseRun) (c : Char) : List Char :=
  match sequences.find? (fun s => s.1 == c.toNat) with
  | some s => s.2.map Char.ofNat
  | none => [((runs.findSome? (·.image? c.toNat)).map Char.ofNat).getD c]

/-- Upper case of one letter. -/
def upperChar (c : Char) : List Char := changeCase upperSequences upperRuns c

/-- Title case of one letter. -/
def titleChar (c : Char) : List Char :=
  match titleSequences.find? (fun s => s.1 == c.toNat) with
  | some s => s.2.map Char.ofNat
  | none => upperChar c

/-! ### Letters in their context

The characters before a letter are listed nearest first. -/

/-- A letter ends a word when the nearest characters that are not passed over are a cased one
before it and none such after it. -/
def endsWord (before after : List Char) : Bool :=
  (before.dropWhile isCaseIgnorable).head?.any isCased &&
    !(after.dropWhile isCaseIgnorable).head?.any isCased

/-- Lower case of one letter between its neighbours. -/
def lowerAt (before : List Char) (c : Char) (after : List Char) : List Char :=
  if c == '\u03a3' then [if endsWord before after then '\u03c2' else '\u03c3']
  else changeCase lowerSequences lowerRuns c

/-- Lower case of a text that follows `before`. -/
def lowerFrom (before : List Char) : List Char → List Char
  | [] => []
  | c :: after => lowerAt before c after ++ lowerFrom (c :: before) after

/-- Title case of a text that follows `before`. -/
def titleFrom (before : List Char) : List Char → List Char
  | [] => []
  | c :: after =>
    (if before.head?.any isCased then lowerAt before c after else titleChar c) ++
      titleFrom (c :: before) after

/-! ### Whole texts -/

/-- Upper case of a text. -/
def upper (s : String) : String := String.ofList (s.toList.flatMap upperChar)

/-- Lower case of a text. -/
def lower (s : String) : String := String.ofList (lowerFrom [] s.toList)

/-- Title case of a text. -/
def title (s : String) : String := String.ofList (titleFrom [] s.toList)

end Stencil.Text
