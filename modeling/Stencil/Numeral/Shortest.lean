/-
Stencil/Numeral/Shortest.lean

The shortest decimal digits that read back as a given number.  The reals that
round to a number form an interval around it, which reaches half way to its
two neighbours and contains its ends exactly when the mantissa is even.  For
one digit, then two, and so on, the two nearest points of the decimal grid
around the number are tested; the first grid with a point in the interval
wins, of two points in it the nearer, and of equally near ones the even one.
Seventeen digits always suffice.
-/
import Stencil.Numeral.Binary64

namespace Stencil.Binary64

/-- A decimal number: `digits` times ten to the `power`. -/
structure Decimal where
  digits : Nat
  power : Int
  deriving DecidableEq, Repr

/-- A positive number with the interval of reals that round to it, over one denominator. -/
structure Interval where
  low : Nat
  value : Nat
  high : Nat
  den : Nat
  closed : Bool

/-- The interval of the number `m * 2 ^ e`; below a power of two the neighbour is nearer. -/
def interval (m : Nat) (e : Int) : Interval :=
  let gap := if m = Nat.pow 2 52 && leastExponent < e then 1 else 2
  let (num, den) := unscale 1 1 (2 - e)
  { low := (4 * m - gap) * num
    value := 4 * m * num
    high := (4 * m + 2) * num
    den := den
    closed := m % 2 == 0 }

/-- A quotient divided by a power of ten, as numerator and denominator. -/
def untens (num den : Nat) : Int → Nat × Nat
  | .ofNat k => (num, den * Nat.pow 10 k)
  | .negSucc k => (num * Nat.pow 10 (k + 1), den)

/-- Whether a decimal number lies in the interval. -/
def Interval.holds (v : Interval) (c : Nat) (power : Int) : Bool :=
  let (low, den) := untens v.low v.den power
  let (high, _) := untens v.high v.den power
  if v.closed then low ≤ c * den && c * den ≤ high else low < c * den && c * den < high

/-- The greatest power of ten that is not above a quotient. -/
def tens (num den : Nat) : Int :=
  let k : Int := (Nat.toDigits 10 num).length - (Nat.toDigits 10 den).length
  let (n, d) := untens num den k
  if n < d then k - 1 else k

/-- The nearest point of a decimal grid that lies in the interval. -/
def Interval.onGrid? (v : Interval) (power : Int) : Option Decimal :=
  let (n, d) := untens v.value v.den power
  let q := n / d
  let near := roundHalfEven n d
  let far := if near = q then q + 1 else q
  if v.holds near power then some ⟨near, power⟩
  else if v.holds far power then some ⟨far, power⟩
  else none

/-- The shortest decimal number that reads back as `m * 2 ^ e`. -/
def shortest (m : Nat) (e : Int) : Decimal :=
  let v := interval m e
  let top := tens v.value v.den
  ((List.range 17).findSome? fun (p : Nat) => v.onGrid? (top - p)).getD ⟨0, 0⟩

end Stencil.Binary64
