/-
Stencil/Text/Similarity.lean

How alike two names are, for suggestions.  The longest block common to both is
found first, then the longest blocks to its left and to its right, and so on;
`matched` is the number of characters in all blocks.  Twice that number over
the sum of the two lengths is the likeness, and a name is suggested from three
fifths on.

A text of two hundred characters or more is searched with less care: its
characters that occur more often than once in a hundred (and once besides)
start no block, though a block may still grow over them.

A candidate need not be a text.  It is compared by its parts, and a part that
is no character is like no character.
-/
namespace Stencil.Text

/-- What may be suggested: how it is shown, and its parts. -/
structure Candidate where
  shown : String
  parts : List (Option Char)
  deriving DecidableEq, Repr

/-- A text is compared by its characters. -/
def Candidate.ofText (s : String) : Candidate := ⟨s, s.toList.map some⟩

/-! ### Common blocks -/

variable {α : Type} [BEq α]

/-- A block of `size` equal characters at `left` in one text and `right` in the other. -/
structure Block where
  left : Nat
  right : Nat
  size : Nat
  deriving DecidableEq, Repr

/-- Characters too frequent in a long text to start a block. -/
def tooFrequent (text : Array α) (c : α) : Bool :=
  200 ≤ text.size && text.size / 100 + 1 < text.count c

/-- A stretch of both texts: from `left` to `leftEnd` and from `right` to `rightEnd`. -/
structure Stretch where
  left : Nat
  leftEnd : Nat
  right : Nat
  rightEnd : Nat

/-- Blocks that end at one character of the left text: the length of the block ending at each place
of the right text, and the best block so far.  `above` holds the lengths one character earlier. -/
def scanRow (a b : Array α) (w : Stretch) (above : Array Nat) (i : Nat) (best : Block) :
    Array Nat × Block :=
  (List.range' w.right (w.rightEnd - w.right)).foldl
    (fun (row, best) j =>
      if a[i]? == b[j]? && !(b[j]?.any (tooFrequent b)) then
        let size := (if j = 0 then 0 else above.getD (j - 1) 0) + 1
        (row.set! j size, if best.size < size then ⟨i + 1 - size, j + 1 - size, size⟩ else best)
      else (row, best))
    (Array.replicate b.size 0, best)

/-- Grows a block to the left while the characters agree, at most `n` times. -/
def growLeft (a b : Array α) (w : Stretch) : (n : Nat) → Block → Block
  | 0, k => k
  | n + 1, k =>
    if w.left < k.left && w.right < k.right && a[k.left - 1]? == b[k.right - 1]? then
      growLeft a b w n ⟨k.left - 1, k.right - 1, k.size + 1⟩
    else k

/-- Grows a block to the right while the characters agree, at most `n` times. -/
def growRight (a b : Array α) (w : Stretch) : (n : Nat) → Block → Block
  | 0, k => k
  | n + 1, k =>
    if k.left + k.size < w.leftEnd && k.right + k.size < w.rightEnd &&
        a[k.left + k.size]? == b[k.right + k.size]? then
      growRight a b w n { k with size := k.size + 1 }
    else k

/-- The longest common block of a stretch; of several, the one found first. -/
def longestBlock (a b : Array α) (w : Stretch) : Block :=
  let (_, found) := (List.range' w.left (w.leftEnd - w.left)).foldl
    (fun (above, best) i => scanRow a b w above i best)
    (Array.replicate b.size 0, ⟨w.left, w.right, 0⟩)
  growRight a b w (a.size + 1) (growLeft a b w (a.size + 1) found)

/-- Characters in the common blocks of a stretch; `n` bounds the depth of the splitting. -/
def matchedIn (a b : Array α) : (n : Nat) → Stretch → Nat
  | 0, _ => 0
  | n + 1, w =>
    let k := longestBlock a b w
    if k.size = 0 then 0
    else
      k.size +
        (if w.left < k.left && w.right < k.right then
          matchedIn a b n ⟨w.left, k.left, w.right, k.right⟩ else 0) +
        (if k.left + k.size < w.leftEnd && k.right + k.size < w.rightEnd then
          matchedIn a b n ⟨k.left + k.size, w.leftEnd, k.right + k.size, w.rightEnd⟩ else 0)

/-- Characters in the common blocks of two texts. -/
def matched (a b : Array α) : Nat := matchedIn a b (a.size + 1) ⟨0, a.size, 0, b.size⟩

/-! ### Suggestions -/

/-- The likeness of a candidate to a name, as a fraction. -/
structure Likeness where
  part : Nat
  whole : Nat

/-- The likeness of a candidate to a name; nothing is like nothing. -/
def likeness (candidate : Candidate) (name : String) : Likeness :=
  let a := candidate.parts.toArray
  let b := (Candidate.ofText name).parts.toArray
  if a.size + b.size = 0 then ⟨1, 1⟩ else ⟨2 * matched a b, a.size + b.size⟩

/-- Likeness of three fifths or more. -/
def Likeness.suffices (r : Likeness) : Bool := 3 * r.whole ≤ 5 * r.part

/-- Whether `r` is a smaller fraction than `s`. -/
def Likeness.below (r s : Likeness) : Bool := r.part * s.whole < s.part * r.whole

/-- The candidate most like a name, if one is like enough; of equals, the last in code point
order. -/
def closest? (name : String) (candidates : List Candidate) : Option String :=
  let close := (candidates.map fun c => (likeness c name, c.shown)).filter (·.1.suffices)
  (close.foldl
    (fun best k =>
      match best with
      | none => some k
      | some b => if b.1.below k.1 || (!k.1.below b.1 && b.2 < k.2) then some k else some b)
    none).map (·.2)

end Stencil.Text
