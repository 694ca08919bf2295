/-
Stencil/Numeral/Binary64.lean

Floating-point numbers of 64 bits, as exact data.  A finite number is a sign,
a whole mantissa below 2^53 and an exponent of two from -1074 to 971; the
mantissa is at least 2^52 unless the exponent is -1074, so each number is
written in one way.  All arithmetic is exact arithmetic on natural numbers
followed by one rounding to nearest, ties to even.

A not-a-number value carries a payload.  Nothing computes with it; it tells two
such values apart, which no comparison of numbers does.
-/
namespace Stencil

/-- A floating-point number of 64 bits. -/
inductive Binary64 where
  | nan (payload : Nat)
  | infinite (negative : Bool)
  | finite (negative : Bool) (mantissa : Nat) (exponent : Int)
  deriving DecidableEq, Repr

namespace Binary64

/-- The least exponent. -/
def leastExponent : Int := -1074

/-- The greatest exponent. -/
def greatestExponent : Int := 971

/-- Zero, positive or negative. -/
def zero (negative : Bool) : Binary64 := .finite negative 0 leastExponent

/-! ### Rounding -/

/-- The whole number nearest to a quotient; a half goes to the even neighbour. -/
def roundHalfEven (num den : Nat) : Nat :=
  let q := num / den
  let r := num % den
  if den < 2 * r || (2 * r == den && q % 2 == 1) then q + 1 else q

/-- A quotient divided by a power of two, as numerator and denominator. -/
def unscale (num den : Nat) : Int → Nat × Nat
  | .ofNat e => (num, den * Nat.pow 2 e)
  | .negSucc e => (num * Nat.pow 2 (e + 1), den)

/-- The exponent at which a quotient has 53 binary digits before the point, or the least one. -/
def exponentOf (num den : Nat) : Int :=
  let e : Int := Nat.log2 num - Nat.log2 den - 52
  let (n, d) := unscale num den e
  max (if n / d < Nat.pow 2 52 then e - 1 else e) leastExponent

/-- The number nearest to a quotient. -/
def ofRatio (negative : Bool) (num den : Nat) : Binary64 :=
  if num = 0 then zero negative
  else
    let e := exponentOf num den
    let (n, d) := unscale num den e
    let m := roundHalfEven n d
    let (m, e) := if m = Nat.pow 2 53 then (Nat.pow 2 52, e + 1) else (m, e)
    if greatestExponent < e then .infinite negative else .finite negative m e

/-- The number nearest to `digits` times a power of ten.  Numbers beyond any that can be held are
settled by their size alone. -/
def ofDecimal (negative : Bool) (digits : Nat) (power : Int) : Binary64 :=
  if digits = 0 then zero negative
  else
    let size : Int := (Nat.toDigits 10 digits).length + power
    if 400 < size then .infinite negative
    else if size < -400 then zero negative
    else match power with
      | .ofNat k => ofRatio negative (digits * Nat.pow 10 k) 1
      | .negSucc k => ofRatio negative digits (Nat.pow 10 (k + 1))

/-! ### Operations -/

/-- Twice a number. -/
def double : Binary64 → Binary64
  | .nan p => .nan p
  | .infinite s => .infinite s
  | .finite s m e =>
    if m < Nat.pow 2 52 then .finite s (2 * m) e
    else if e = greatestExponent then .infinite s
    else .finite s m (e + 1)

/-- Whether a number is zero. -/
def isZero : Binary64 → Bool
  | .finite _ m _ => m == 0
  | _ => false

/-- Equality of numbers: the two zeros are equal, and not-a-number equals nothing. -/
def numEq : Binary64 → Binary64 → Bool
  | .infinite s, .infinite t => s == t
  | .finite s m e, .finite t n f => (m == 0 && n == 0) || (s == t && m == n && e == f)
  | _, _ => false

/-- Equality of a number and a whole number. -/
def eqInt : Binary64 → Int → Bool
  | .finite s m e, k =>
    let (n, d) := unscale m 1 (-e)
    k.natAbs * d == n && (m == 0 || s == decide (k < 0))
  | _, _ => false

/-- The number nearest to a multiple of a number. -/
def times : Binary64 → Nat → Binary64
  | .finite s m e, k =>
    let (n, d) := unscale (m * k) 1 (-e)
    ofRatio s n d
  | x, _ => x

/-- The next whole number away from zero. -/
def awayFromZero? : Binary64 → Option Int
  | .finite s m e =>
    let (n, d) := unscale m 1 (-e)
    let q : Int := ((n + d - 1) / d : Nat)
    some (if s then -q else q)
  | _ => none

end Binary64

end Stencil
