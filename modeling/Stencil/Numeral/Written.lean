/-
Stencil/Numeral/Written.lean

Numbers as text.  Whole numbers are written in decimal, unless they are so
long that writing them is refused.  Other numbers are written with the fewest
digits that read back; positionally from 10^-4 up to 10^16 (below it), with at
least one digit after the point, and with an exponent of at least two digits
otherwise.
-/
import Stencil.Numeral.Shortest

namespace Stencil

/-- How numbers that are not whole are written. -/
structure NumberFormat where
  /-- The least power of ten, of the first digit, that is written positionally. -/
  leastPositional : Int
  /-- The least power of ten, of the first digit, above these. -/
  positionalEnd : Int
  /-- The least number of digits of an exponent. -/
  exponentDigits : Nat
  infinity : String
  notANumber : String

/-- The format of numbers in all output. -/
def outputFormat : NumberFormat := ⟨-4, 16, 2, "inf", "nan"⟩

/-- A digit string padded in front with zeros. -/
def padZeros (width : Nat) (digits : List Char) : List Char :=
  List.replicate (width - digits.length) '0' ++ digits

/-- Digits without the zeros at their end. -/
def dropEndZeros (digits : List Char) : List Char :=
  (digits.reverse.dropWhile (· == '0')).reverse

/-- An exponent: its sign and its digits. -/
def NumberFormat.exponentText (f : NumberFormat) (power : Int) : List Char :=
  (if power < 0 then '-' else '+') :: padZeros f.exponentDigits (Nat.toDigits 10 power.natAbs)

/-- Digits whose first stands for the given power of ten. -/
def NumberFormat.digitsText (f : NumberFormat) (digits : List Char) (power : Int) : List Char :=
  if power < f.leastPositional || f.positionalEnd ≤ power then
    match digits with
    | [d] => d :: 'e' :: f.exponentText power
    | d :: rest => d :: '.' :: rest ++ 'e' :: f.exponentText power
    | [] => []
  else match power with
    | .ofNat k =>
      let whole := digits.take (k + 1)
      let rest := digits.drop (k + 1)
      whole ++ List.replicate (k + 1 - whole.length) '0' ++
        '.' :: (if rest.isEmpty then ['0'] else rest)
    | .negSucc k => '0' :: '.' :: List.replicate k '0' ++ digits

/-- A number as text. -/
def NumberFormat.write (f : NumberFormat) : Binary64 → String
  | .nan _ => f.notANumber
  | .infinite s => (if s then "-" else "") ++ f.infinity
  | .finite s m e =>
    let text :=
      if m = 0 then ['0', '.', '0']
      else
        let d := Binary64.shortest m e
        let digits := Nat.toDigits 10 d.digits
        f.digitsText (dropEndZeros digits) (d.power + digits.length - 1)
    String.ofList (if s then '-' :: text else text)

/-- A number as text. -/
def Binary64.text (x : Binary64) : String := outputFormat.write x

/-- Whole numbers of more digits are neither read nor written. -/
def digitLimit : Nat := 4300

/-- A whole number as text, unless it is too long. -/
def intText? (n : Int) : Option String :=
  let digits := Nat.toDigits 10 n.natAbs
  if digitLimit < digits.length then none
  else some (String.ofList (if n < 0 then '-' :: digits else digits))

end Stencil
