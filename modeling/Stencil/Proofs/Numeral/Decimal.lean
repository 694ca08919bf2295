/-
Stencil/Proofs/Numeral/Decimal.lean

Every number that a text is read as has a text that is read back as it.  A whole number is written
with its digits.  Any other finite number is a whole multiple of a power of ten, because two divides
ten, and is written as one, with an exponent; no rounding takes place when it is read.
-/
import Stencil.Numeral.Reading
import Stencil.Proofs.Numeral.Rounding

namespace Stencil

/-! ### Digits -/

theorem digitValue?_digitChar {d : Nat} (h : d < 10) : Text.digitValue? d.digitChar = some d := by
  revert d
  decide

theorem digitValue?_lt {c : Char} {d : Nat} (h : Text.digitValue? c = some d) : d < 10 := by
  obtain ⟨z, hz, rfl⟩ := Option.map_eq_some_iff.mp h
  have := List.find?_some hz
  simp only [Bool.and_eq_true, decide_eq_true_eq] at this
  omega

theorem ofDigits_append (ds : List Nat) (d : Nat) :
    ofDigits (ds ++ [d]) = 10 * ofDigits ds + d := by
  simp [ofDigits]

theorem ofDigits_lt (ds : List Nat) (h : ∀ d ∈ ds, d < 10) : ofDigits ds < 10 ^ ds.length := by
  induction ds using List.reverseRecOn with
  | nil => decide
  | append_singleton ds d ih =>
    have hds := ih fun d' hd' => h d' (List.mem_append_left _ hd')
    have hd := h d (by simp)
    rw [ofDigits_append, List.length_append, List.length_singleton, Nat.pow_succ]
    omega

/-- The digits a number is written with, as values. -/
theorem exists_digits (n : Nat) : ∃ ds : List Nat, (∀ d ∈ ds, d < 10) ∧
    Nat.toDigits 10 n = ds.map Nat.digitChar ∧ ofDigits ds = n := by
  induction n using Nat.strongRecOn with
  | ind n ih =>
    rw [Nat.toDigits_eq_if (by decide)]
    split
    · next h => exact ⟨[n], by simpa using h, rfl, by simp [ofDigits]⟩
    · next h =>
      obtain ⟨ds, hds, htext, hvalue⟩ := ih (n / 10) (by omega)
      refine ⟨ds ++ [n % 10], ?_, by simp [htext], ?_⟩
      · intro d hd
        rcases List.mem_append.mp hd with hd | hd
        · exact hds d hd
        · rw [List.mem_singleton.mp hd]
          omega
      · rw [ofDigits_append, hvalue]
        omega

/-- A number is written with at least one digit. -/
theorem exists_digitChar_cons (n : Nat) :
    ∃ d < 10, ∃ rest, Nat.toDigits 10 n = Nat.digitChar d :: rest := by
  obtain ⟨ds, hds, htext, -⟩ := exists_digits n
  cases ds with
  | nil => exact absurd htext Nat.toDigits_ne_nil
  | cons d ds => exact ⟨d, hds d List.mem_cons_self, _, htext⟩

/-- What cannot go on with a number's digits. -/
def EndsDigits (rest : List Char) : Prop :=
  ∀ c ∈ rest.head?, Text.digitValue? c = none ∧ c ≠ '_'

theorem takeDigits_map {rest : List Char} (h : EndsDigits rest) (ds : List Nat)
    (hds : ∀ d ∈ ds, d < 10) (started : Bool) :
    takeDigits started (ds.map Nat.digitChar ++ rest) = (ds, rest) := by
  induction ds generalizing started with
  | nil =>
    cases rest with
    | nil => rfl
    | cons c rest =>
      obtain ⟨hc, hne⟩ := h c rfl
      simp [takeDigits, hc, hne]
  | cons d ds ih =>
    rw [List.map_cons, List.cons_append, takeDigits, digitValue?_digitChar (hds d (by simp))]
    simp only [ih fun d' hd' => hds d' (List.mem_cons_of_mem _ hd')]

/-- The digits of a number are taken, and stand for it. -/
theorem takeDigits_toDigits {rest : List Char} (h : EndsDigits rest) (n : Nat) : ∃ ds : List Nat,
    takeDigits false (Nat.toDigits 10 n ++ rest) = (ds, rest) ∧ ofDigits ds = n ∧ ds ≠ [] ∧
      ds.length = (Nat.toDigits 10 n).length := by
  obtain ⟨ds, hds, htext, hvalue⟩ := exists_digits n
  refine ⟨ds, by rw [htext, takeDigits_map h ds hds], hvalue, ?_, by rw [htext, List.length_map]⟩
  rintro rfl
  exact Nat.toDigits_ne_nil htext

theorem takeDigits_lt (cs : List Char) (started : Bool) :
    ∀ d ∈ (takeDigits started cs).1, d < 10 := by
  induction started, cs using takeDigits.induct with
  | case1 => simp [takeDigits]
  | case2 started c rest d hd digits after heq ih =>
    intro d' hd'
    rw [takeDigits, hd] at hd'
    rcases List.mem_cons.mp hd' with rfl | hd'
    · exact digitValue?_lt hd
    · exact ih d' hd'
  | case3 started c rest hd h ih =>
    rw [takeDigits, hd]
    simp only [h, if_true]
    exact ih
  | case4 started c rest hd h =>
    rw [takeDigits, hd]
    simp [h]

/-! ### Margins -/

/-- A text without blanks has no margins. -/
theorem dropMargins_eq {cs : List Char} (h : ∀ c ∈ cs, isMargin c = false) :
    dropMargins cs = cs := by
  have hdrop : ∀ l : List Char, (∀ c ∈ l, isMargin c = false) → l.dropWhile isMargin = l := by
    intro l hl
    cases l with
    | nil => rfl
    | cons c l => rw [List.dropWhile_cons_of_neg (by simp [hl c])]
  rw [dropMargins, hdrop cs h, hdrop _ (by simpa using h), List.reverse_reverse]

theorem isMargin_of_mem_toDigits {n : Nat} {c : Char} (h : c ∈ Nat.toDigits 10 n) :
    isMargin c = false := by
  obtain ⟨ds, hds, htext, -⟩ := exists_digits n
  rw [htext] at h
  obtain ⟨d, hd, rfl⟩ := List.mem_map.mp h
  have : ∀ d < 10, isMargin (Nat.digitChar d) = false := by decide
  exact this d (hds d hd)

/-! ### Signs -/

/-- A minus in front of a text, or nothing. -/
def signed (negative : Bool) (cs : List Char) : List Char := if negative then '-' :: cs else cs

theorem signed_noMargin {negative : Bool} {cs : List Char} (h : ∀ c ∈ cs, isMargin c = false) :
    ∀ c ∈ signed negative cs, isMargin c = false := by
  intro c hc
  rw [signed] at hc
  split at hc
  · rcases List.mem_cons.mp hc with rfl | hc
    · decide
    · exact h c hc
  · exact h c hc

theorem takeSign_signed {negative : Bool} {n : Nat} {rest : List Char} :
    takeSign (signed negative (Nat.toDigits 10 n ++ rest))
      = (negative, Nat.toDigits 10 n ++ rest) := by
  cases negative with
  | true => rfl
  | false =>
    obtain ⟨d, hd, ds, htext⟩ := exists_digitChar_cons n
    have plain : ∀ d < 10, Nat.digitChar d ≠ '-' ∧ Nat.digitChar d ≠ '+' := by decide
    obtain ⟨hminus, hplus⟩ := plain d hd
    rw [htext, signed, if_neg Bool.false_ne_true, List.cons_append, takeSign]
    · intro tail heq
      exact hminus (List.cons.inj heq).1
    · intro tail heq
      exact hplus (List.cons.inj heq).1

/-! ### Whole numbers -/

/-- Numbers of not too many digits are read back. -/
theorem readInt_intText {n : Int} (h : n.natAbs < 10 ^ digitLimit) :
    ∃ text, intText? n = some text ∧ readInt text = .ok n := by
  have hlen : (Nat.toDigits 10 n.natAbs).length ≤ digitLimit :=
    (Nat.length_toDigits_le_iff (by decide) (by decide)).mpr h
  refine ⟨_, by rw [intText?, if_neg hlen.not_gt], ?_⟩
  have hmargins : ∀ c ∈ signed (decide (n < 0)) (Nat.toDigits 10 n.natAbs ++ []),
      isMargin c = false := by
    rw [List.append_nil]
    exact signed_noMargin fun _ => isMargin_of_mem_toDigits
  obtain ⟨ds, htake, hvalue, hne, hlength⟩ :=
    @takeDigits_toDigits [] (fun c hc => by simp at hc) n.natAbs
  have htext : (if n < 0 then '-' :: Nat.toDigits 10 n.natAbs else Nat.toDigits 10 n.natAbs)
      = signed (decide (n < 0)) (Nat.toDigits 10 n.natAbs ++ []) := by
    simp [signed]
  rw [readInt, htext, String.toList_ofList, dropMargins_eq hmargins, takeSign_signed]
  have hsome : ds.isEmpty = false := by simpa using hne
  simp only [htake, hlength, hvalue, decide_eq_true_eq]
  rw [if_neg (by simp), if_neg hlen.not_gt, if_neg (by simp [hsome])]
  congr 1
  split <;> omega

/-- A number that is read has not too many digits. -/
theorem natAbs_lt_of_readInt {text : String} {n : Int} (h : readInt text = .ok n) :
    n.natAbs < 10 ^ digitLimit := by
  have hlt := ofDigits_lt _ (takeDigits_lt (takeSign (dropMargins text.toList)).2 false)
  simp only [readInt] at h
  split at h
  · cases h
  split at h
  · cases h
  next hlen =>
  split at h
  · cases h
  have hle : 10 ^ (takeDigits false (takeSign (dropMargins text.toList)).2).1.length
      ≤ 10 ^ digitLimit := Nat.pow_le_pow_right (by decide) (Nat.le_of_not_gt hlen)
  injection h with h
  split at h <;> omega

/-! ### Numbers as multiples of powers of ten -/

namespace Binary64

variable {m : Nat} {e : Int} {negative : Bool}

/-- The decimal number that is `m * 2 ^ e`. -/
def exactly (m : Nat) : Int → Decimal
  | .ofNat k => ⟨m * 2 ^ k, 0⟩
  | .negSucc k => ⟨m * 5 ^ (k + 1), .negSucc k⟩

/-- What a decimal number is read as has the form of a number. -/
theorem canonical_ofDecimal {digits : Nat} {power : Int} :
    Canonical (ofDecimal negative digits power) := by
  unfold ofDecimal
  split
  · exact canonical_zero
  · simp only
    split
    · trivial
    split
    · exact canonical_zero
    cases power with
    | ofNat k => exact canonical_ofRatio one_ne_zero
    | negSucc k => exact canonical_ofRatio (Nat.pow_pos (by decide)).ne'

theorem exactly_value (m : Nat) (e : Int) :
    ((exactly m e).digits : ℚ) * 10 ^ (exactly m e).power = m * 2 ^ e := by
  cases e with
  | ofNat k => simp [exactly]
  | negSucc k =>
    have hten : (10 : ℚ) = 2 * 5 := by norm_num
    simp only [exactly, zpow_negSucc, Nat.cast_mul, Nat.cast_pow, Nat.cast_ofNat, hten, mul_pow]
    field_simp

/-- The power of ten that a number is below, and not by more than one. -/
theorem length_bounds {digits : Nat} (h : digits ≠ 0) (power : Int) :
    (10 : ℚ) ^ ((Nat.toDigits 10 digits).length + power - 1) ≤ digits * 10 ^ power ∧
      (digits : ℚ) * 10 ^ power < 10 ^ ((Nat.toDigits 10 digits).length + power) := by
  obtain ⟨k, hk⟩ : ∃ k, (Nat.toDigits 10 digits).length = k + 1 :=
    Nat.exists_eq_add_of_le' Nat.length_toDigits_pos
  have hlt : digits < 10 ^ (k + 1) :=
    (Nat.length_toDigits_le_iff (by decide) (by omega)).mp (by omega)
  have hle : 10 ^ k ≤ digits := by
    rcases Nat.eq_zero_or_pos k with rfl | hpos
    · exact Nat.pos_of_ne_zero h
    · by_contra hlt'
      have := (Nat.length_toDigits_le_iff (by decide) hpos).mpr (Nat.lt_of_not_le hlt')
      omega
  have hpow : ∀ (j : Nat), (10 : ℚ) ^ ((j : Int) + power) = 10 ^ j * 10 ^ power := fun j => by
    rw [zpow_add₀ (by norm_num), zpow_natCast]
  rw [hk, hpow, show ((k + 1 : Nat) : Int) + power - 1 = k + power by push_cast; omega, hpow]
  constructor
  · gcongr
    exact_mod_cast hle
  · gcongr
    exact_mod_cast hlt

/-- A decimal number of some size is read as the quotient it is. -/
theorem ofDecimal_eq_ofRatio {digits : Nat} {power : Int} (h : digits ≠ 0)
    (hlow : (10 : ℚ) ^ (-400 : Int) < digits * 10 ^ power)
    (hhigh : (digits : ℚ) * 10 ^ power < 10 ^ (400 : Int)) :
    ∃ num den : Nat, den ≠ 0 ∧ (num : ℚ) / den = digits * 10 ^ power ∧
      ofDecimal negative digits power = ofRatio negative num den := by
  obtain ⟨hle, hlt⟩ := length_bounds h power
  have hsmall := (zpow_lt_zpow_iff_right₀ (by norm_num)).mp (hle.trans_lt hhigh)
  have hlarge := (zpow_lt_zpow_iff_right₀ (by norm_num)).mp (hlow.trans hlt)
  unfold ofDecimal
  rw [if_neg h, if_neg (by omega), if_neg (by omega)]
  cases power with
  | ofNat k => exact ⟨_, _, one_ne_zero, by simp, rfl⟩
  | negSucc k =>
    exact ⟨_, _, (Nat.pow_pos (by decide)).ne', by simp [zpow_negSucc, div_eq_mul_inv], rfl⟩

/-- Ten to the 400 is beyond every finite number, and its inverse is below all but zero. -/
theorem two_pow_bounds : (10 : ℚ) ^ (-400 : Int) < 2 ^ leastExponent ∧
    (2 : ℚ) ^ 53 * 2 ^ greatestExponent < 10 ^ (400 : Int) := by
  have hthree : (2 : ℚ) ^ (1200 : Int) < 10 ^ (400 : Int) := by
    rw [show (1200 : Int) = 3 * 400 by norm_num, zpow_mul]
    exact zpow_lt_zpow_left₀ (by norm_num) (by norm_num) (by norm_num)
  constructor
  · calc (10 : ℚ) ^ (-400 : Int) = (10 ^ (400 : Int))⁻¹ := zpow_neg ..
      _ < (2 ^ (1200 : Int))⁻¹ := inv_strictAnti₀ (by positivity) hthree
      _ = 2 ^ (-1200 : Int) := (zpow_neg ..).symm
      _ ≤ 2 ^ leastExponent := zpow_le_zpow_right₀ (by norm_num) (by decide)
  · calc (2 : ℚ) ^ 53 * 2 ^ greatestExponent = 2 ^ ((53 : Nat) + greatestExponent) := by
          rw [zpow_add₀ (by norm_num), zpow_natCast]
      _ ≤ 2 ^ (1200 : Int) := zpow_le_zpow_right₀ (by norm_num) (by decide)
      _ < 10 ^ (400 : Int) := hthree

/-- A number is read from the decimal number that it is. -/
theorem ofDecimal_exactly (h : Canonical (.finite negative m e)) :
    ofDecimal negative (exactly m e).digits (exactly m e).power = .finite negative m e := by
  rcases Nat.eq_zero_or_pos m with rfl | hm
  · have he : e = leastExponent := by simpa using h.2.2.2
    have hdigits : (exactly 0 e).digits = 0 := by cases e <;> simp [exactly]
    unfold ofDecimal
    rw [if_pos hdigits, he]
    rfl
  have hdigits : (exactly m e).digits ≠ 0 := by
    cases e <;> simp [exactly] <;> positivity
  have hvalue := exactly_value m e
  have hlow : (10 : ℚ) ^ (-400 : Int) < (exactly m e).digits * 10 ^ (exactly m e).power := by
    rw [hvalue]
    calc (10 : ℚ) ^ (-400 : Int) < 2 ^ leastExponent := two_pow_bounds.1
      _ ≤ 2 ^ e := zpow_le_zpow_right₀ (by norm_num) h.2.1
      _ ≤ m * 2 ^ e := le_mul_of_one_le_left (by positivity) (by exact_mod_cast hm)
  have hhigh : ((exactly m e).digits : ℚ) * 10 ^ (exactly m e).power < 10 ^ (400 : Int) := by
    rw [hvalue]
    calc (m : ℚ) * 2 ^ e < 2 ^ 53 * 2 ^ e := by gcongr; exact_mod_cast h.1
      _ ≤ 2 ^ 53 * 2 ^ greatestExponent := by gcongr; norm_num; exact h.2.2.1
      _ < 10 ^ (400 : Int) := two_pow_bounds.2
  obtain ⟨num, den, hden, hratio, heq⟩ := ofDecimal_eq_ofRatio hdigits hlow hhigh
  rw [heq, ofRatio_eq hden hm.ne' h (hratio.trans hvalue)]

/-- An exponent of ten. -/
def exponentText (power : Int) : List Char :=
  'e' :: signed (decide (power < 0)) (Nat.toDigits 10 power.natAbs)

/-- A number as text, with all the digits that it has. -/
def exactText : Binary64 → String
  | .nan _ => "nan"
  | .infinite negative => String.ofList (signed negative "inf".toList)
  | .finite negative m e =>
    let d := exactly m e
    String.ofList (signed negative (Nat.toDigits 10 d.digits ++ exponentText d.power))

end Binary64

/-! ### Numbers with a fraction -/

variable {negative : Bool}

/-- What is read has the form of a number. -/
theorem canonical_of_readFloat {text : String} {x : Binary64} (h : readFloat text = .ok x) :
    x.Canonical := by
  simp only [readFloat] at h
  split at h
  · next y hy =>
    cases h
    rcases Option.or_eq_some_iff.mp hy with hw | ⟨-, hu⟩
    · rw [readWord] at hw
      split at hw <;> cases hw <;> trivial
    · simp only [readUnsigned, Option.ite_none_left_eq_some, Option.map_eq_some_iff] at hu
      obtain ⟨-, power, -, rfl⟩ := hu
      exact Binary64.canonical_ofDecimal
  · cases h

/-- A text that begins with a digit is no word for a number. -/
theorem readWord_toDigits (n : Nat) (rest : List Char) :
    readWord negative (Nat.toDigits 10 n ++ rest) = none := by
  obtain ⟨d, hd, ds, htext⟩ := exists_digitChar_cons n
  have hfirst : ∀ d < 10, (Nat.digitChar d).toLower ≠ 'i' ∧ (Nat.digitChar d).toLower ≠ 'n' := by
    decide
  obtain ⟨hi, hn⟩ := hfirst d hd
  rw [htext, readWord]
  -- the words are `inf`, `infinity` and `nan`
  split
  · next h => exact absurd (by simpa using congrArg (String.toList · |>.head?) h) hi
  · next h => exact absurd (by simpa using congrArg (String.toList · |>.head?) h) hi
  · next h => exact absurd (by simpa using congrArg (String.toList · |>.head?) h) hn
  · rfl

theorem readExponent_exponentText (power : Int) :
    readExponent (Binary64.exponentText power) = some power := by
  obtain ⟨ds, htake, hvalue, hne, -⟩ := @takeDigits_toDigits [] nofun power.natAbs
  have hsome : ds.isEmpty = false := by simpa using hne
  rw [Binary64.exponentText, ← List.append_nil (Nat.toDigits _ _), readExponent,
    if_pos (by decide)]
  simp only [takeSign_signed, htake, hvalue, decide_eq_true_eq]
  rw [if_neg (by simp [hsome])]
  congr 1
  split <;> omega

/-- Digits and an exponent are read as the decimal number they say. -/
theorem readUnsigned_exponentText (digits : Nat) (power : Int) :
    readUnsigned negative (Nat.toDigits 10 digits ++ Binary64.exponentText power)
      = some (Binary64.ofDecimal negative digits power) := by
  have hends : EndsDigits (Binary64.exponentText power) := by
    intro c hc
    obtain rfl : 'e' = c := by simpa [Binary64.exponentText] using hc
    decide
  obtain ⟨ds, htake, hvalue, hne, -⟩ := takeDigits_toDigits hends digits
  have hexponent := readExponent_exponentText power
  rw [Binary64.exponentText] at htake hexponent ⊢
  simp [readUnsigned, htake, hexponent, hvalue, hne]

theorem exactText_noMargin (d : Binary64.Decimal) :
    ∀ c ∈ signed negative (Nat.toDigits 10 d.digits ++ Binary64.exponentText d.power),
      isMargin c = false := by
  apply signed_noMargin
  intro c hc
  rcases List.mem_append.mp hc with hc | hc
  · exact isMargin_of_mem_toDigits hc
  rcases List.mem_cons.mp hc with rfl | hc
  · decide
  · exact signed_noMargin (fun _ => isMargin_of_mem_toDigits) c hc

/-- A number in its one form is read back. -/
theorem readFloat_exactText {x : Binary64} (h : x.Canonical) :
    readFloat x.exactText = .ok x := by
  cases x with
  | nan payload =>
    obtain rfl : payload = 0 := h
    decide
  | infinite negative => cases negative <;> decide
  | finite negative m e =>
    simp only [Binary64.exactText, readFloat, String.toList_ofList,
      dropMargins_eq (exactText_noMargin _), takeSign_signed, readWord_toDigits, Option.none_or,
      readUnsigned_exponentText, Binary64.ofDecimal_exactly h]

end Stencil
