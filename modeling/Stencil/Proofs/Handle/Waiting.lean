/-
Stencil/Proofs/Handle/Waiting.lean

Times to wait.  A time is a number that is not negative; it is held in
billionths of a second, and it must not be beyond all bounds then.  Arithmetic
on numbers keeps them from being negative, so a time never stands for waiting
for ever, and is never refused for its sign (`Patience.ofValue_of_nonnegative`).
A time that can be held can also be written, so the fault of a lock that was not
got in time can name it.
-/
import Stencil.Proofs.Numeral.Decimal
import Stencil.Session.Lending

namespace Stencil

/-! ### Signs -/

namespace Binary64

variable {x : Binary64} {n : Int}

/-- A number that is not negative; minus zero is none. -/
def Nonnegative : Binary64 → Prop
  | .nan _ => False
  | .infinite s => s = false
  | .finite s m _ => s = false ∨ m = 0

theorem unscale_zero (den : Nat) (e : Int) : (unscale 0 den e).1 = 0 := by
  cases e with
  | ofNat e => rfl
  | negSucc e => exact Nat.zero_mul _

theorem nonnegative_ofRatio {s : Bool} {num : Nat} (h : s = false ∨ num = 0) (den : Nat) :
    (ofRatio s num den).Nonnegative := by
  by_cases hnum : num = 0
  · rw [ofRatio, if_pos hnum]
    exact .inr rfl
  · obtain rfl := h.resolve_right hnum
    have hform : ∀ p : Nat × Int, Nonnegative
        (if greatestExponent < p.2 then infinite false else finite false p.1 p.2) := by
      intro p
      split
      · exact rfl
      · exact .inl rfl
    rw [ofRatio, if_neg hnum]
    exact hform _

theorem Nonnegative.times (h : x.Nonnegative) (k : Nat) : (x.times k).Nonnegative := by
  cases x with
  | nan p | infinite s => exact h
  | finite s m e =>
    refine nonnegative_ofRatio (h.imp id fun hm => ?_) _
    rw [hm, Nat.zero_mul]
    exact unscale_zero 1 (-e)

theorem awayFromZero?_finite (s : Bool) (m : Nat) (e : Int) :
    (finite s m e).awayFromZero? =
      let (p, d) := unscale m 1 (-e)
      some (if s then -(((p + d - 1) / d : Nat) : Int) else ((p + d - 1) / d : Nat)) := rfl

theorem Nonnegative.of_awayFromZero? (h : x.Nonnegative) (e : x.awayFromZero? = some n) :
    0 ≤ n := by
  cases x with
  | nan p | infinite s => cases e
  | finite s m k =>
    have hpos : 0 < (unscale m 1 (-k)).2 := unscale_pos Nat.one_pos
    have hzero : m = 0 → (unscale m 1 (-k)).1 = 0 := by
      rintro rfl
      exact unscale_zero 1 (-k)
    rw [awayFromZero?_finite] at e
    generalize unscale m 1 (-k) = p at e hpos hzero
    obtain ⟨p, d⟩ := p
    obtain rfl := Option.some.inj e
    rcases h with rfl | hm
    · exact Int.natCast_nonneg _
    · -- zero over what is positive is zero, whatever its sign
      have hquotient : (p + d - 1) / d = 0 := by
        have hp : p = 0 := hzero hm
        have hd : 0 < d := hpos
        exact Nat.div_eq_of_lt (by omega)
      rw [hquotient]
      split <;> exact Int.le_refl 0

end Binary64

/-! ### Times -/

namespace Atom

variable {a : Atom} {n : Int}

/-- A number that is not negative; truth values are numbers. -/
def Nonnegative : Atom → Prop
  | bool _ => True
  | int n => 0 ≤ n
  | float x => x.Nonnegative
  | none | str _ => False

/-- A time in billionths of a second, unless it is infinite.  With a fraction it is rounded away
from zero. -/
def billionths? : Atom → Option Int
  | float x => (x.times Patience.billion).awayFromZero?
  | a => a.wholeNumber?.map (· * Patience.billion)

theorem Nonnegative.billionths (h : a.Nonnegative) (e : a.billionths? = some n) : 0 ≤ n := by
  cases a with
  | none | str s => cases e
  | float x => exact Binary64.Nonnegative.of_awayFromZero? (Binary64.Nonnegative.times h _) e
  | bool b =>
    obtain rfl := Option.some.inj e
    cases b <;> decide
  | int k =>
    obtain rfl := Option.some.inj e
    exact Int.mul_nonneg h (Int.natCast_nonneg _)

/-- Whether a time can be held. -/
def timeFits (a : Atom) : Bool := a.billionths?.any Place.fits

/-- A time that can be held can be written. -/
theorem Nonnegative.exists_text (h : a.Nonnegative) (hfits : a.timeFits = true) (heap : Heap) :
    ∃ s, heap.text (.atom a) = .ok s := by
  cases a with
  | none | str s => cases h
  | bool b | float x => exact ⟨_, rfl⟩
  | int k =>
    have hlt : k * Patience.billion < Int.ofNat (Nat.pow 2 63) :=
      of_decide_eq_true (Bool.and_eq_true_iff.mp hfits).2
    have hsmall : k.natAbs < 10 ^ 10 := by
      have hbillion : (Patience.billion : Int) = 1000000000 := rfl
      have hbound : Int.ofNat (Nat.pow 2 63) = 9223372036854775808 := rfl
      rw [hbillion, hbound] at hlt
      have hpos : 0 ≤ k := h
      omega
    obtain ⟨text, htext, -⟩ :=
      readInt_intText (hsmall.trans_le (Nat.pow_le_pow_right (by decide) (by decide)))
    refine ⟨text, ?_⟩
    show (intText? k).elim _ _ = _
    rw [htext]
    rfl

end Atom

namespace Patience

/-- A time that is not negative is waited for, if it can be held. -/
theorem ofBillionths_of_nonneg {t : Option Int} (h : ∀ n, t = some n → 0 ≤ n)
    (seconds : Except Fault String) :
    ofBillionths seconds t =
      if t.any Place.fits then seconds.map upTo else .error ofBillionths.tooLong := by
  cases t with
  | none => rfl
  | some n =>
    have hn := h n rfl
    have hever : n ≠ -(billion : Int) := by
      have hpos : (0 : Int) < billion := by decide
      omega
    rw [ofBillionths, if_neg hever, if_neg (Int.not_lt.mpr hn), Option.any_some]
    cases Place.fits n <;> rfl

/-- How long to wait, by a number that is not negative. -/
theorem ofValue_of_nonnegative {a : Atom} (h : a.Nonnegative) (heap : Heap) :
    ofValue heap (.atom a) =
      if a.timeFits then (heap.text (.atom a)).map upTo else .error ofBillionths.tooLong := by
  rw [Atom.timeFits, ← ofBillionths_of_nonneg fun n => h.billionths]
  cases a with
  | none | str s => cases h
  | bool b | int n => rfl
  | float x =>
    cases x with
    | nan p => cases h
    | infinite s | finite s m e => rfl

end Patience

end Stencil
