import Mathlib
import Tale.Decimal.Whole
import Tale.Proofs.Numerals

/-!
# The number of a double

`Decimal.rational?` is the rational number that a double denotes, if it denotes one. It is what the
sign, the mantissa and the exponent of the double amount to; `magnitude` and `isNegative` take them
off its bits, and no two doubles denote the same number but the two zeros (`rational?_eq_iff`).
Those that denote a whole number are known by `whole?` (`whole?_eq_some`).
-/

namespace Tale.Decimal

open Float.Model Float.Model.UnpackedFloat

/-- The number that a double is. Both zeros are `0`. -/
def rational? (x : Float) : Option ℚ :=
  match x.toModel.unpack with
  | .zero _ => some 0
  | .finite s m e _ => some ((s.apply m : ℤ) * 2 ^ e)
  | .infinity _ => none
  | .notANumber => none

/-- The value of a double, its sign apart. -/
def Binary.value (b : Binary) : ℚ :=
  b.significand * 2 ^ b.exponent

/-- A value with the sign of a double. -/
def signed (x : Float) (q : ℚ) : ℚ :=
  if isNegative x then -q else q

def signOf (x : Float) : Sign :=
  if isNegative x then .negative else .positive

section Fields

variable (b : BitVec Format.binary64.numBits)

theorem toNat_unpackMantissa : (unpackMantissa b).toNat = b.toNat % Nat.pow 2 52 := by
  simp only [unpackMantissa, BitVec.toNat_cast, BitVec.extractLsb_toNat, Nat.shiftRight_zero]

theorem toNat_unpackExponent :
    (unpackExponent b).toNat = b.toNat / Nat.pow 2 52 % Nat.pow 2 11 := by
  simp only [unpackExponent, BitVec.toNat_cast, BitVec.extractLsb_toNat, Nat.shiftRight_eq_div_pow]

theorem toNat_unpackSign : (unpackSign b).toNat = b.toNat / Nat.pow 2 63 := by
  have hb : b.toNat < Nat.pow 2 64 := b.isLt
  simp only [unpackSign, BitVec.toNat_cast, BitVec.extractLsb_toNat, Nat.shiftRight_eq_div_pow]
  have h₆₃ : Nat.pow 2 63 = 9223372036854775808 := rfl
  have h₆₄ : Nat.pow 2 64 = 18446744073709551616 := rfl
  rw [h₆₃]
  rw [h₆₄] at hb
  simp only [Nat.add_comm, Nat.reduceAdd, Nat.reduceSub, Nat.reducePow]
  omega

end Fields

theorem sign_unpackSign (x : Float) :
    Sign.ofBitVec (@unpackSign .binary64 x.toModel.toBits.toBitVec) = signOf x := by
  have h := toNat_unpackSign x.toModel.toBits.toBitVec
  have hb : x.toBits.toNat < 18446744073709551616 := x.toBits.toBitVec.isLt
  have h₆₃ : Nat.pow 2 63 = 9223372036854775808 := rfl
  have hx : x.toModel.toBits.toBitVec.toNat = x.toBits.toNat := rfl
  rw [hx, h₆₃] at h
  simp only [Sign.ofBitVec, signOf, isNegative, h₆₃, ← BitVec.toNat_inj, h, BitVec.toNat_ofNat]
  by_cases hn : 9223372036854775808 ≤ x.toBits.toNat
  · rw [if_neg (by omega), if_pos (by simpa using hn)]
  · rw [if_pos (by omega), if_neg (by simpa using hn)]

theorem finite_congr {s : Sign} {m m' : Nat} {e e' : Int} {h : 0 < m} (hm : m = m') (he : e = e') :
    UnpackedFloat.finite s m e h = .finite s m' e' (hm ▸ h) := by
  subst hm he
  rfl

theorem toNat_mantissa (x : Float) :
    (@unpackMantissa .binary64 x.toModel.toBits.toBitVec).toNat = fractionField x.toBits :=
  toNat_unpackMantissa x.toModel.toBits.toBitVec

theorem toNat_exponent (x : Float) :
    (@unpackExponent .binary64 x.toModel.toBits.toBitVec).toNat = exponentField x.toBits :=
  toNat_unpackExponent x.toModel.toBits.toBitVec

theorem mantissa_eq_iff (x : Float) (n : BitVec 52) :
    (@unpackMantissa .binary64 x.toModel.toBits.toBitVec) = n
      ↔ fractionField x.toBits = n.toNat := by
  rw [← BitVec.toNat_inj, toNat_mantissa]

theorem exponent_eq_iff (x : Float) (n : BitVec 11) :
    (@unpackExponent .binary64 x.toModel.toBits.toBitVec) = n
      ↔ exponentField x.toBits = n.toNat := by
  rw [← BitVec.toNat_inj, toNat_exponent]

/-- The leading one of a normal number, that its bits leave out. -/
theorem toNat_one_append_mantissa (x : Float) :
    (1#1 ++ @unpackMantissa .binary64 x.toModel.toBits.toBitVec).toNat
      = fractionField x.toBits + 2 ^ 52 := by
  have hl : (@unpackMantissa .binary64 x.toModel.toBits.toBitVec).toNat < 2 ^ 52 :=
    BitVec.isLt _
  rw [BitVec.toNat_append, ← toNat_mantissa]
  change 1 <<< 52 ||| _ = _
  rw [Nat.one_shiftLeft, Nat.or_comm, Nat.or_two_pow_eq_add_of_lt hl]

/-- What a double is unpacked to. -/
theorem unpack_eq (x : Float) : x.toModel.unpack = match magnitude x with
    | .nan => .notANumber
    | .infinite => .infinity (signOf x)
    | .finite b =>
      if h : b.significand = 0 then .zero (signOf x)
      else .finite (signOf x) b.significand b.exponent (Nat.pos_of_ne_zero h) := by
  have hu : x.toModel.unpack = UnpackedFloat.unpack .binary64 x.toModel.toBits.toBitVec := rfl
  have h₂₀₄₇ := exponent_eq_iff x (-1#11)
  have h₀ := exponent_eq_iff x 0#11
  have hm := mantissa_eq_iff x 0#52
  rw [show (-1#11).toNat = 2047 from rfl] at h₂₀₄₇
  rw [BitVec.toNat_zero] at h₀ hm
  rw [hu, magnitude, magnitudeOfBits, UnpackedFloat.unpack, sign_unpackSign]
  simp only [h₂₀₄₇, h₀, hm]
  by_cases h₁ : exponentField x.toBits = 2047
  · rw [if_pos h₁, if_pos h₁]
    by_cases h₂ : fractionField x.toBits = 0
    · rw [if_pos h₂, if_pos h₂]
    · rw [if_neg h₂, if_neg h₂]
  · rw [if_neg h₁, if_neg h₁]
    by_cases h₂ : exponentField x.toBits = 0
    · rw [if_pos h₂, if_pos h₂]
      dsimp only
      by_cases h₃ : fractionField x.toBits = 0
      · rw [dif_pos h₃, dif_pos h₃]
      · rw [dif_neg h₃, dif_neg h₃]
        refine finite_congr (toNat_mantissa x) ?_
        rw [toNat_exponent, h₂]
        rfl
    · rw [if_neg h₂, if_neg h₂]
      dsimp only
      rw [dif_neg (Nat.ne_of_gt (Nat.lt_add_right _ (Nat.two_pow_pos 52)))]
      refine finite_congr ?_ ?_
      · exact (toNat_one_append_mantissa x).trans (Nat.add_comm _ _)
      · rw [toNat_exponent]
        rfl

theorem rational?_eq_some {x : Float} {v : ℚ} :
    rational? x = some v ↔ ∃ b, magnitude x = .finite b ∧ signed x b.value = v := by
  rw [rational?, unpack_eq]
  rcases magnitude x with _ | _ | b
  · simp
  · simp
  · simp only [Magnitude.finite.injEq, exists_eq_left']
    by_cases h : b.significand = 0
    · simp [h, signed, Binary.value]
    · rw [dif_neg h]
      by_cases hn : isNegative x <;> simp [signed, Binary.value, signOf, Sign.apply, hn]

theorem value_nonneg (b : Binary) : 0 ≤ b.value :=
  mul_nonneg (Nat.cast_nonneg _) (zpow_nonneg (by norm_num) _)

theorem value_eq_zero {b : Binary} : b.value = 0 ↔ b.significand = 0 := by
  simp [Binary.value, zpow_ne_zero]

theorem lt_zero_iff {x : Float} {v : ℚ} (h : rational? x = some v) : x < 0 ↔ v < 0 := by
  obtain ⟨b, hb, rfl⟩ := rational?_eq_some.mp h
  have hx : x < 0 ↔ (x.toModel.unpack.compare (.zero .positive) == some .lt) = true := by
    change decide _ = true ↔ _
    rw [decide_eq_true_iff]
    rfl
  rw [hx, unpack_eq, hb]
  dsimp only
  have hv := value_nonneg b
  by_cases hs : b.significand = 0
  · simp [hs, UnpackedFloat.compare, signed, value_eq_zero.mpr hs]
  · have hp : 0 < b.value := lt_of_le_of_ne hv (Ne.symm (mt value_eq_zero.mp hs))
    rw [dif_neg hs]
    by_cases hn : isNegative x
    · simp [signOf, signed, hn, UnpackedFloat.compare, hp]
    · simp [signOf, signed, hn, UnpackedFloat.compare, hv]

theorem sign_eq {x : Float} {v : ℚ} (h : rational? x = some v) :
    sign x = if v < 0 then ['-'] else [] := by
  rw [sign]
  exact if_congr (lt_zero_iff h) rfl rfl

theorem abs_signed (x : Float) (b : Binary) : |signed x b.value| = b.value := by
  have hv := value_nonneg b
  rw [signed]
  split
  · rw [abs_neg, abs_of_nonneg hv]
  · exact abs_of_nonneg hv

theorem num_div_den (b : Binary) : (b.num : ℚ) / b.den = b.value := by
  have h : (b.exponent.toNat : ℤ) - ((-b.exponent).toNat : ℤ) = b.exponent := by omega
  rw [Binary.num, Binary.den, Binary.value, Nat.pow_eq, Nat.pow_eq, Nat.cast_mul, Nat.cast_pow,
    Nat.cast_pow, Nat.cast_ofNat, mul_div_assoc, ← zpow_natCast, ← zpow_natCast,
    ← zpow_sub₀ (by norm_num), h]

theorem Binary.den_pos (b : Binary) : 0 < b.den :=
  Nat.two_pow_pos _

/-! ## One double for each number -/

variable {b c : Binary}

theorem Fits.exponent_ge (h : Fits b.significand b.exponent) : -1074 ≤ b.exponent := by
  rcases h.2 with h | h <;> omega

/-- Significands are below `2 ^ 53`, and from `2 ^ 52` on in all exponents but the smallest. -/
theorem value_lt_of_exponent_lt (hb : Fits b.significand b.exponent)
    (hc : Fits c.significand c.exponent) (h : b.exponent < c.exponent) : b.value < c.value := by
  have hs : Nat.pow 2 52 ≤ c.significand := by
    have := hb.exponent_ge
    rcases hc.2 with hc | hc
    · exact hc.1
    · omega
  have hp : (0 : ℚ) < 2 ^ b.exponent := zpow_pos (by norm_num) _
  calc b.value < 2 ^ 53 * 2 ^ b.exponent := by
        refine mul_lt_mul_of_pos_right ?_ hp
        exact_mod_cast hb.1
    _ = 2 ^ 52 * 2 ^ (b.exponent + 1) := by
        rw [zpow_add₀ (by norm_num)]
        ring
    _ ≤ c.value := by
        refine mul_le_mul (by exact_mod_cast hs) ?_ (zpow_nonneg (by norm_num) _)
          (Nat.cast_nonneg _)
        exact zpow_le_zpow_right₀ (by norm_num) h

theorem value_inj (hb : Fits b.significand b.exponent) (hc : Fits c.significand c.exponent) :
    b.value = c.value ↔ b = c := by
  refine ⟨fun h => ?_, fun h => h ▸ rfl⟩
  have he : b.exponent = c.exponent := by
    rcases lt_trichotomy b.exponent c.exponent with he | he | he
    · exact absurd h (value_lt_of_exponent_lt hb hc he).ne
    · exact he
    · exact absurd h (value_lt_of_exponent_lt hc hb he).ne'
  rcases b with ⟨s, e⟩
  rcases c with ⟨s', e'⟩
  cases he
  have hp : (2 : ℚ) ^ e ≠ 0 := zpow_ne_zero _ (by norm_num)
  have hs : (s : ℚ) = s' := mul_right_cancel₀ hp h
  rw [Nat.cast_inj.mp hs]

theorem fits_of_magnitude {x : Float} (h : magnitude x = .finite b) :
    Fits b.significand b.exponent :=
  (magnitude_fits h).1

theorem compare_eq_iff (b c : Binary) :
    (compare b.exponent c.exponent).then (compare b.significand c.significand) = .eq ↔ b = c := by
  rcases b with ⟨s, e⟩
  rcases c with ⟨s', e'⟩
  simp [Ordering.then_eq_eq, and_comm]

theorem signed_eq_iff {x y : Float} {p q : ℚ} (hp : 0 ≤ p) (hq : 0 ≤ q) :
    signed x p = signed y q ↔ p = q ∧ (isNegative x = isNegative y ∨ p = 0) := by
  unfold signed
  by_cases hn : isNegative x <;> by_cases hm : isNegative y <;> simp only [hn, hm, if_true] <;>
    grind

/-- Doubles that are numbers are equal exactly as numbers. -/
theorem rational?_eq_iff {x y : Float} {u v : ℚ} (hx : rational? x = some u)
    (hy : rational? y = some v) : (x == y) = true ↔ u = v := by
  obtain ⟨b, hb, rfl⟩ := rational?_eq_some.mp hx
  obtain ⟨c, hc, rfl⟩ := rational?_eq_some.mp hy
  have hi := value_inj (fits_of_magnitude hb) (fits_of_magnitude hc)
  have hx : (x == y) = (x.toModel.unpack.compare y.toModel.unpack == some .eq) := rfl
  rw [hx, unpack_eq, unpack_eq, hb, hc, signed_eq_iff (value_nonneg b) (value_nonneg c), hi,
    value_eq_zero]
  dsimp only
  by_cases hs : b.significand = 0 <;> by_cases ht : c.significand = 0
  · have : b = c := hi.mp (by rw [value_eq_zero.mpr hs, value_eq_zero.mpr ht])
    simp [this, ht, UnpackedFloat.compare]
  · have : b ≠ c := fun h => ht (h ▸ hs)
    by_cases hm : isNegative y <;> simp [this, hs, ht, hm, signOf, UnpackedFloat.compare]
  · have : b ≠ c := fun h => hs (h ▸ ht)
    by_cases hn : isNegative x <;> simp [this, hs, ht, hn, signOf, UnpackedFloat.compare]
  · have := compare_eq_iff b c
    by_cases hn : isNegative x <;> by_cases hm : isNegative y <;>
      simp [hs, ht, hn, hm, signOf, UnpackedFloat.compare, ← this]

/-! ## Whole numbers -/

theorem value_eq_natCast {k : ℕ} : b.value = k ↔ b.num = k * b.den := by
  have hd : (b.den : ℚ) ≠ 0 := Nat.cast_ne_zero.mpr (Nat.ne_of_gt b.den_pos)
  rw [← num_div_den, div_eq_iff hd]
  exact_mod_cast Iff.rfl

theorem whole?_eq_some {x : Float} {n : ℤ} : whole? x = some n ↔ rational? x = some (n : ℚ) := by
  rw [rational?_eq_some, whole?]
  rcases magnitude x with _ | _ | b
  · simp
  · simp
  · simp only [Magnitude.finite.injEq, exists_eq_left']
    by_cases hd : b.num % b.den = 0
    · have hv : b.value = (b.num / b.den : ℕ) :=
        value_eq_natCast.mpr (Nat.div_mul_cancel (Nat.dvd_of_mod_eq_zero hd)).symm
      generalize b.num / b.den = q at hv ⊢
      rw [if_pos hd, hv, signed, Option.some.injEq, ← Int.cast_inj (α := ℚ), apply_ite Int.cast,
        Int.cast_neg, Int.cast_natCast]
    · rw [if_neg hd]
      refine iff_of_false nofun fun hn => hd ?_
      have hv : b.value = n.natAbs := by
        rw [← abs_signed x b, hn, Nat.cast_natAbs, Int.cast_abs]
      rw [value_eq_natCast.mp hv, Nat.mul_mod_left]

end Tale.Decimal
