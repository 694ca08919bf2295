/-
Stencil/Proofs/Numeral/Rounding.lean

Rounding of quotients.  The exponent of a rounded quotient is the only one at which the quotient
has 53 binary digits before the point (`Fits`), so a quotient that is already a mantissa times a
power of two is rounded to itself, and every result is in the one form that a number has
(`Canonical`).
-/
import Mathlib.Algebra.Order.Field.Power
import Mathlib.Data.Rat.Cast.Order
import Mathlib.Tactic.FieldSimp
import Mathlib.Tactic.Linarith
import Mathlib.Tactic.NormNum
import Mathlib.Tactic.Positivity
import Mathlib.Tactic.Ring
import Stencil.Numeral.Binary64

namespace Stencil.Binary64

variable {num den m : Nat} {e e' : Int} {q : ℚ} {negative : Bool}

/-! ### The form of a number -/

/-- A number in the one form it has: its mantissa is too small for its exponent only at the least
one. -/
def Canonical : Binary64 → Prop
  | .nan payload => payload = 0
  | .infinite _ => True
  | .finite _ m e =>
    m < 2 ^ 53 ∧ leastExponent ≤ e ∧ e ≤ greatestExponent ∧ (2 ^ 52 ≤ m ∨ e = leastExponent)

theorem canonical_zero : Canonical (zero negative) :=
  ⟨by decide, Int.le_refl _, by decide, .inr rfl⟩

/-! ### The exponent of a quotient -/

/-- The quotient has 53 binary digits in front of the point, in units of two to the `e`, or fewer at
the least exponent. -/
structure Fits (q : ℚ) (e : Int) : Prop where
  least : leastExponent ≤ e
  lt : q < 2 ^ 53 * 2 ^ e
  le : 2 ^ 52 * 2 ^ e ≤ q ∨ e = leastExponent

/-- At a greater exponent than the least, the quotient is too small for the exponents above. -/
theorem Fits.le_of_fits (h : Fits q e) (h' : Fits q e') : e' ≤ e := by
  by_contra hlt
  rcases h'.le with hle | rfl
  · have hmono : (2 : ℚ) ^ (e + 1) ≤ 2 ^ e' := zpow_le_zpow_right₀ (by norm_num) (by omega)
    rw [zpow_add_one₀ (by norm_num)] at hmono
    have := h.lt
    linarith
  · have := h.least
    omega

theorem Fits.unique (h : Fits q e) (h' : Fits q e') : e = e' :=
  Int.le_antisymm (h'.le_of_fits h) (h.le_of_fits h')

theorem unscale_pos (hden : 0 < den) : 0 < (unscale num den e).2 := by
  cases e with
  | ofNat k => exact Nat.mul_pos hden (Nat.pow_pos (by decide))
  | negSucc k => exact hden

/-- Dividing by a power of two does so. -/
theorem unscale_ratio (hden : 0 < den) :
    ((unscale num den e).1 : ℚ) / (unscale num den e).2 = num / den / 2 ^ e := by
  have hden' : (den : ℚ) ≠ 0 := by positivity
  cases e with
  | ofNat k =>
    simp only [unscale, Nat.pow_eq, Int.ofNat_eq_natCast, zpow_natCast]
    push_cast
    field_simp
  | negSucc k =>
    simp only [unscale, Nat.pow_eq, zpow_negSucc]
    push_cast
    field_simp

theorem unscale_div_lt (hden : 0 < den) (k : Nat) :
    (unscale num den e).1 / (unscale num den e).2 < 2 ^ k ↔ (num : ℚ) / den < 2 ^ k * 2 ^ e := by
  have hd := @unscale_pos num den e hden
  have hd' : (0 : ℚ) < (unscale num den e).2 := by exact_mod_cast hd
  rw [Nat.div_lt_iff_lt_mul hd, ← div_lt_iff₀ (by positivity), ← unscale_ratio hden,
    div_lt_iff₀ hd']
  exact_mod_cast Iff.rfl

/-- The logarithms of numerator and denominator give the exponent, up to one. -/
theorem log2_bounds (hnum : num ≠ 0) (hden : den ≠ 0) :
    (2 : ℚ) ^ ((num.log2 : Int) - den.log2 - 1) < num / den ∧
      (num : ℚ) / den < 2 ^ ((num.log2 : Int) - den.log2 + 1) := by
  have hn : (2 : ℚ) ^ num.log2 ≤ num := by exact_mod_cast Nat.log2_self_le hnum
  have hn' : (num : ℚ) < 2 ^ (num.log2 + 1) := by exact_mod_cast @Nat.lt_log2_self num
  have hd : (2 : ℚ) ^ den.log2 ≤ den := by exact_mod_cast Nat.log2_self_le hden
  have hd' : (den : ℚ) < 2 ^ (den.log2 + 1) := by exact_mod_cast @Nat.lt_log2_self den
  have hpos : (0 : ℚ) < den := by exact_mod_cast Nat.pos_of_ne_zero hden
  constructor
  · rw [lt_div_iff₀ hpos]
    calc (2 : ℚ) ^ ((num.log2 : Int) - den.log2 - 1) * den
        < 2 ^ ((num.log2 : Int) - den.log2 - 1) * 2 ^ (den.log2 + 1) := by gcongr
      _ = 2 ^ num.log2 := by
          rw [← zpow_natCast, ← zpow_natCast, ← zpow_add₀ (by norm_num)]
          congr 1
          push_cast
          ring
      _ ≤ num := hn
  · rw [div_lt_iff₀ hpos]
    calc (num : ℚ) < 2 ^ (num.log2 + 1) := hn'
      _ = 2 ^ ((num.log2 : Int) - den.log2 + 1) * 2 ^ den.log2 := by
          rw [← zpow_natCast, ← zpow_natCast, ← zpow_add₀ (by norm_num)]
          congr 1
          push_cast
          ring
      _ ≤ 2 ^ ((num.log2 : Int) - den.log2 + 1) * den := by gcongr

/-- The exponent that is chosen fits. -/
theorem exponentOf_fits (hnum : num ≠ 0) (hden : den ≠ 0) :
    Fits (num / den) (exponentOf num den) := by
  obtain ⟨hlow, hhigh⟩ := log2_bounds hnum hden
  obtain ⟨k, hk⟩ : ∃ k : Int, (num.log2 : Int) - den.log2 - 52 = k := ⟨_, rfl⟩
  have hsmall := @unscale_div_lt num den k (Nat.pos_of_ne_zero hden) 52
  rw [show (num.log2 : Int) - den.log2 - 1 = k + 51 by omega] at hlow
  rw [show (num.log2 : Int) - den.log2 + 1 = k + 53 by omega] at hhigh
  obtain ⟨f, hf, hlow', hhigh'⟩ : ∃ f : Int, exponentOf num den = max f leastExponent ∧
      2 ^ 52 * 2 ^ f ≤ (num : ℚ) / den ∧ (num : ℚ) / den < 2 ^ 53 * 2 ^ f := by
    simp only [exponentOf, hk]
    refine ⟨_, rfl, ?_⟩
    have hpow : ∀ (j : Nat) (i : Int), (2 : ℚ) ^ j * 2 ^ i = 2 ^ (i + j) := fun j i => by
      rw [zpow_add₀ (by norm_num), zpow_natCast, mul_comm]
    simp only [hpow]
    -- the first guess has 53 digits in front of the point, or 52
    split
    · next h =>
      have h := hsmall.mp h
      rw [hpow] at h
      refine ⟨hlow.le.trans' (zpow_le_zpow_right₀ (by norm_num) (by push_cast; omega)), ?_⟩
      rwa [show k - 1 + ((53 : Nat) : Int) = k + ((52 : Nat) : Int) by push_cast; omega]
    · next h =>
      have h := not_lt.mp (mt hsmall.mpr h)
      rw [hpow] at h
      exact ⟨h, by exact_mod_cast hhigh⟩
  rw [hf]
  -- below the least exponent the quotient is small, and there are fewer digits
  rcases le_total leastExponent f with h | h
  · rw [max_eq_left h]
    exact ⟨h, hhigh', .inl hlow'⟩
  · rw [max_eq_right h]
    refine ⟨Int.le_refl _, hhigh'.trans_le ?_, .inr rfl⟩
    gcongr
    norm_num

/-! ### Rounding -/

/-- A quotient of whole numbers that is one is rounded to itself. -/
theorem roundHalfEven_of_eq {n d : Nat} (hd : 0 < d) (h : (n : ℚ) / d = m) :
    roundHalfEven n d = m := by
  have hn : n = m * d := by
    rw [div_eq_iff (by positivity)] at h
    exact_mod_cast h
  subst hn
  simp [roundHalfEven, Nat.mul_div_cancel _ hd]
  omega

/-- Rounding leaves a quotient between two whole numbers there. -/
theorem roundHalfEven_bounds (n d : Nat) :
    n / d ≤ roundHalfEven n d ∧ roundHalfEven n d ≤ n / d + 1 := by
  rw [roundHalfEven]
  split <;> omega

/-- A mantissa times a power of two is rounded to itself. -/
theorem ofRatio_eq (hden : den ≠ 0) (hm : m ≠ 0) (h : Canonical (.finite negative m e))
    (hq : (num : ℚ) / den = m * 2 ^ e) : ofRatio negative num den = .finite negative m e := by
  obtain ⟨hlt, hleast, hgreatest, hle⟩ := h
  have hpow : (0 : ℚ) < 2 ^ e := by positivity
  have hnum : num ≠ 0 := by
    rintro rfl
    rw [Nat.cast_zero, zero_div] at hq
    have : (m : ℚ) * 2 ^ e ≠ 0 := by positivity
    exact this hq.symm
  have hfits : Fits (num / den) e := by
    refine ⟨hleast, ?_, hle.imp_left fun h => ?_⟩
    · rw [hq]
      gcongr
      exact_mod_cast hlt
    · rw [hq]
      gcongr
      exact_mod_cast h
  have he : exponentOf num den = e := (exponentOf_fits hnum hden).unique hfits
  have hround : roundHalfEven (unscale num den e).1 (unscale num den e).2 = m := by
    have hpos := Nat.pos_of_ne_zero hden
    refine roundHalfEven_of_eq (unscale_pos hpos) ?_
    rw [unscale_ratio hpos, hq]
    field_simp
  have hcarry : m ≠ Nat.pow 2 53 := by
    rw [Nat.pow_eq]
    omega
  simp only [ofRatio, if_neg hnum, he, hround, if_neg hcarry, if_neg hgreatest.not_gt]

/-- What a quotient is rounded to has the form of a number. -/
theorem canonical_ofRatio (hden : den ≠ 0) : Canonical (ofRatio negative num den) := by
  by_cases hnum : num = 0
  · rw [ofRatio, if_pos hnum]
    exact canonical_zero
  have hpos := Nat.pos_of_ne_zero hden
  obtain ⟨e, he, hfits⟩ : ∃ e, exponentOf num den = e ∧ Fits (num / den) e :=
    ⟨_, rfl, exponentOf_fits hnum hden⟩
  obtain ⟨hlow, hhigh⟩ := roundHalfEven_bounds (unscale num den e).1 (unscale num den e).2
  have hlt := (@unscale_div_lt num den e hpos 53).mpr hfits.lt
  have hle : 2 ^ 52 ≤ (unscale num den e).1 / (unscale num den e).2 ∨ e = leastExponent := by
    refine hfits.le.imp_left fun h => ?_
    by_contra hsmall
    have := (@unscale_div_lt num den e hpos 52).mp (by omega)
    linarith
  have hleast := hfits.least
  rw [ofRatio, if_neg hnum]
  simp only [he, Nat.pow_eq]
  generalize roundHalfEven (unscale num den e).1 (unscale num den e).2 = rounded at *
  -- a mantissa that was rounded up to one digit more moves into the exponent
  split <;> dsimp only <;> split
  · trivial
  · exact ⟨by decide, by omega, by omega, .inl (Nat.le_refl _)⟩
  · trivial
  · exact ⟨by omega, hleast, by omega, hle.imp_left (by omega)⟩

end Stencil.Binary64
