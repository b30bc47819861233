import Tale.Proofs.Decimals

/-!
# Numbers rounded to places and to digits

Text with a given number of places writes the exact value of a double, rounded to these places with
a tie away from zero (`fixed_exact`), and text with a given number of digits writes it rounded to
these digits (`precise_exact`). A carry that lengthens the row moves the point with it.
-/

namespace Tale.Decimal

open Json (WrittenNumber)
open Text (digitsValue digits)

variable {b : Binary} {x : Float} {v : ℚ}

theorem abs_rational? (h : rational? x = some v) :
    ∃ b, magnitude x = .finite b ∧ |v| = b.value := by
  obtain ⟨b, hb, rfl⟩ := rational?_eq_some.mp h
  exact ⟨b, hb, abs_signed x b⟩

theorem num_lt_iff {n : ℕ} : b.num < n * b.den ↔ b.value < n := by
  have hd : (0 : ℚ) < b.den := Nat.cast_pos.mpr b.den_pos
  rw [← num_div_den, div_lt_iff₀ hd]
  exact_mod_cast Iff.rfl

/-! ## Places -/

/-- All places of a value, rounded to some. -/
def fixedRow (b : Binary) (d : ℕ) : List Char × Bool :=
  roundTo (b.expansion.whole + d) b.expansion.digits

theorem fixed_eq (hb : magnitude x = .finite b) (hv : b.value < 10 ^ 21) (d : ℕ) : fixed x d
    = sign x ++ pointAfter (b.expansion.whole + (fixedRow b d).2.toNat) (fixedRow b d).1 := by
  have hn : b.num < 10 ^ 21 * b.den := num_lt_iff.mpr (by exact_mod_cast hv)
  unfold fixed fixedRow
  rw [hb]
  simp only [Nat.pow_eq, if_neg (not_le.mpr hn)]
  rcases roundTo (b.expansion.whole + d) b.expansion.digits with ⟨ds, _ | _⟩ <;> rfl

theorem isRow_fixedRow (b : Binary) (d : ℕ) : IsRow (fixedRow b d).1 :=
  isRow_roundTo (isRow_expansion b) _

theorem length_fixedRow (b : Binary) (d : ℕ) :
    (fixedRow b d).1.length = b.expansion.whole + (fixedRow b d).2.toNat + d := by
  rw [fixedRow, length_roundTo, Nat.add_right_comm]

theorem digitsValue_fixedRow (h : Fits b.significand b.exponent) (d : ℕ) :
    digitsValue (fixedRow b d).1 = ⌊b.value * 10 ^ d + 1 / 2⌋₊ := by
  have he : (fullPlaces : ℤ) + ((b.expansion.whole + d : ℕ) - (b.expansion.whole + fullPlaces : ℕ))
      = (d : ℕ) := by
    push_cast
    ring
  rw [fixedRow, digitsValue_roundTo (isRow_expansion b), digitsValue_expansion h, length_expansion,
    mul_assoc, ← zpow_natCast, ← zpow_add₀ (by norm_num), he, zpow_natCast]

/-- The rounded row starts with a zero only if one digit is before the point. -/
theorem pow_le_fixedRow (h : Fits b.significand b.exponent) (d : ℕ) :
    b.expansion.whole + (fixedRow b d).2.toNat = 1
      ∨ 10 ^ (b.expansion.whole + (fixedRow b d).2.toNat - 1 + d)
        ≤ digitsValue (fixedRow b d).1 := by
  have hw := whole_pos b
  cases hc : (fixedRow b d).2 with
  | true =>
    rw [Bool.toNat_true, Nat.add_sub_cancel]
    exact .inr (digitsValue_of_carried (isRow_expansion b) hc).ge
  | false =>
    rw [Bool.toNat_false, Nat.add_zero]
    refine or_iff_not_imp_left.mpr fun h₁ => ?_
    have hv := value_nonneg b
    have hp := (Nat.le_floor_iff hv).mp (pow_whole_le b h₁)
    rw [digitsValue_fixedRow h, Nat.le_floor_iff (by positivity)]
    push_cast at hp ⊢
    rw [pow_add]
    have := mul_le_mul_of_nonneg_right hp (pow_nonneg (by norm_num : (0 : ℚ) ≤ 10) d)
    linarith

/-- The text with `d` places is that of the exact value rounded to `d` places, a tie away from
zero. -/
theorem fixed_exact (hx : rational? x = some v) (hv : |v| < 10 ^ 21) (d : ℕ) :
    let n := ⌊|v| * 10 ^ d + 1 / 2⌋₊
    ∃ w : WrittenNumber, Spells (fixed x d) w ∧ w.negative = decide (v < 0)
      ∧ w.whole = digits (n / 10 ^ d) ∧ (w.fraction.getD []).length = d
      ∧ (w.fraction = none ↔ d = 0) ∧ w.exponent = none
      ∧ w.value = (if v < 0 then -1 else 1) * (n / 10 ^ d) := by
  intro n
  obtain ⟨b, hb, hbv⟩ := abs_rational? hx
  have hf := fits_of_magnitude hb
  rw [hbv] at hv
  have hn : digitsValue (fixedRow b d).1 = n := by
    rw [digitsValue_fixedRow hf, ← hbv]
  obtain ⟨k, hk⟩ := Nat.exists_eq_succ_of_ne_zero
    (Nat.ne_of_gt (Nat.add_pos_left (whole_pos b) (fixedRow b d).2.toNat))
  have hl := length_fixedRow b d
  have hz := pow_le_fixedRow hf d
  rw [hk] at hl hz
  have ht : fixed x d = (placed (decide (v < 0)) n d none).text := by
    rw [fixed_eq hb hv, hk, pointAfter_text (isRow_fixedRow b d) hl (hz.imp Nat.succ.inj id), hn,
      sign_eq hx, text_placed (decide _)]
    simp only [decide_eq_true_eq]
  refine ⟨placed (decide (v < 0)) n d none, ht ▸ spells_placed _ _ _ _, rfl, rfl,
    length_fraction_placed _ _ _ _, ?_, rfl, ?_⟩
  · simp [placed]
  · rw [value_placed, Option.getD_none, zero_sub, zpow_neg, zpow_natCast, mul_assoc,
      ← div_eq_mul_inv]
    simp only [decide_eq_true_eq]

theorem rational?_nine_and_half : rational? (Float.ofBits 0x4023000000000000) = some (19 / 2) := by
  refine rational?_eq_some.mpr ⟨⟨0x13000000000000, -49⟩, rfl, ?_⟩
  have hn : isNegative (Float.ofBits 0x4023000000000000) = false := rfl
  rw [signed, hn, Binary.value]
  norm_num

/-- A carry out of the row: 9.5 to no places. -/
theorem fixed_exact_carried : rational? (Float.ofBits 0x4023000000000000) = some (19 / 2)
    ∧ |(19 / 2 : ℚ)| < 10 ^ 21
    ∧ ∃ w : WrittenNumber, Spells (fixed (Float.ofBits 0x4023000000000000) 0) w
      ∧ w.whole = digits 10 ∧ w.fraction = none ∧ w.value = 10 := by
  have hv : |(19 / 2 : ℚ)| < 10 ^ 21 := by norm_num [abs_of_pos]
  have hn : ⌊|(19 / 2 : ℚ)| * 10 ^ 0 + 1 / 2⌋₊ = 10 := by
    norm_num [abs_of_pos]
  obtain ⟨w, hs, -, hw, -, hf, -, hval⟩ := fixed_exact rational?_nine_and_half hv 0
  rw [hn] at hw hval
  exact ⟨rational?_nine_and_half, hv, w, hs, by simpa using hw, hf.mpr rfl, by norm_num [hval]⟩

/-! ## Significant digits -/

/-- A positive number rounded to `p` digits, a tie upwards: these as a number, and the power of ten
of the first of them. -/
def rounded (q : ℚ) (p : ℕ) : ℕ × ℤ :=
  let e := Int.log 10 q
  let n := ⌊q * 10 ^ (p - 1 - e) + 1 / 2⌋₊
  if n = 10 ^ p then (10 ^ (p - 1), e + 1) else (n, e)

theorem log_eq {q : ℚ} {e : ℤ} (hl : 10 ^ e ≤ q) (hu : q < 10 ^ (e + 1)) : Int.log 10 q = e := by
  have hq : 0 < q := lt_of_lt_of_le (zpow_pos (by norm_num) _) hl
  refine le_antisymm (Int.lt_add_one_iff.mp ?_) ?_
  · exact (Int.lt_zpow_iff_log_lt (by decide) hq).mp hu
  · exact (Int.zpow_le_iff_le_log (by decide) hq).mp hl

theorem rounded_bounds {q : ℚ} (hq : 0 < q) {p : ℕ} (hp : 0 < p) :
    10 ^ (p - 1) ≤ (rounded q p).1 ∧ (rounded q p).1 < 10 ^ p := by
  have hl := Int.zpow_log_le_self (b := 10) (by decide) hq
  have hu := Int.lt_zpow_succ_log_self (b := 10) (by decide) q
  have ht : (0 : ℚ) < 10 ^ ((p : ℤ) - 1 - Int.log 10 q) := zpow_pos (by norm_num) _
  have hl := mul_le_mul_of_nonneg_right hl ht.le
  have hu := mul_lt_mul_of_pos_right hu ht
  have h₁ : Int.log 10 q + ((p : ℤ) - 1 - Int.log 10 q) = (p - 1 : ℕ) := by omega
  have h₂ : Int.log 10 q + 1 + ((p : ℤ) - 1 - Int.log 10 q) = (p : ℕ) := by omega
  rw [Nat.cast_ofNat, ← zpow_add₀ (by norm_num), h₁, zpow_natCast] at hl
  rw [Nat.cast_ofNat, ← zpow_add₀ (by norm_num), h₂, zpow_natCast] at hu
  have hlt : 10 ^ (p - 1) < 10 ^ p := Nat.pow_lt_pow_right (by decide) (by omega)
  unfold rounded
  dsimp only
  split_ifs with hn
  · exact ⟨le_rfl, hlt⟩
  · refine ⟨Nat.le_floor ?_, lt_of_le_of_ne ?_ hn⟩
    · push_cast
      linarith
    · refine Nat.lt_succ_iff.mp ((Nat.floor_lt (by positivity)).mpr ?_)
      push_cast
      linarith

/-- How many digits a number has when some places of it are taken for whole. -/
theorem log_eq_length {q : ℚ} {n f : ℕ} (hn : n ≠ 0) (h : (n : ℚ) = q * 10 ^ f) :
    Int.log 10 q = (digits n).length - 1 - f := by
  have ht : (10 : ℚ) ^ f ≠ 0 := pow_ne_zero _ (by norm_num)
  have hq : q = n * 10 ^ (-f : ℤ) := by
    rw [h, zpow_neg, zpow_natCast, mul_assoc, mul_inv_cancel₀ ht, mul_one]
  obtain ⟨l, hl⟩ := Nat.exists_eq_succ_of_ne_zero (length_digits_pos n).ne'
  have hlo := pow_length_digits_le hn
  have hhi := lt_pow_length_digits n
  have hp : (0 : ℚ) < 10 ^ (-f : ℤ) := zpow_pos (by norm_num) _
  rw [hl, Nat.succ_sub_one] at hlo
  rw [hl] at hhi ⊢
  refine log_eq ?_ ?_ <;> rw [hq]
  · have : ((l.succ : ℤ) - 1 - f) = (l : ℕ) + -f := by push_cast; ring
    rw [this, zpow_add₀ (by norm_num), zpow_natCast]
    exact mul_le_mul_of_nonneg_right (by exact_mod_cast hlo) hp.le
  · have : ((l.succ : ℤ) - 1 - f + 1) = (l.succ : ℕ) + -f := by ring
    rw [this, zpow_add₀ (by norm_num), zpow_natCast]
    exact mul_lt_mul_of_pos_right (by exact_mod_cast hhi) hp

theorem drop_takeWhile {α : Type} (f : α → Bool) (xs : List α) :
    xs.drop (xs.takeWhile f).length = xs.dropWhile f := by
  have h : (xs.takeWhile f ++ xs.dropWhile f).drop (xs.takeWhile f).length = xs.dropWhile f :=
    List.drop_left
  rwa [List.takeWhile_append_dropWhile] at h

/-- The digits of a value, without zeros in front. -/
def leading (b : Binary) : List Char :=
  digits (digitsValue b.expansion.digits)

theorem isRow_leading (b : Binary) : IsRow (leading b) :=
  isDigit_digits _

theorem digitsValue_leading (b : Binary) :
    digitsValue (leading b) = digitsValue b.expansion.digits :=
  digitsValue_digits _

section Significant

variable {p : ℕ} (hf : Fits b.significand b.exponent) (hb : b.significand ≠ 0)
include hf hb

theorem digitsValue_expansion_ne_zero : digitsValue b.expansion.digits ≠ 0 := by
  intro h
  have hv := digitsValue_expansion hf
  rw [h, Nat.cast_zero, eq_comm, mul_eq_zero, value_eq_zero] at hv
  exact hv.elim hb (pow_ne_zero _ (by norm_num))

theorem log_value : Int.log 10 b.value = (leading b).length - 1 - fullPlaces :=
  log_eq_length (digitsValue_expansion_ne_zero hf hb) (digitsValue_expansion hf)

theorem significant_eq : significant b p =
    let r := roundTo p (leading b)
    if r.2 then (r.1.take p, Int.log 10 b.value + 1) else (r.1, Int.log 10 b.value) := by
  have hd := (drop_takeWhile (· == '0') b.expansion.digits).trans
    (dropWhile_zero (isRow_expansion b) (digitsValue_expansion_ne_zero hf hb))
  have hl := congrArg List.length hd
  have ht := (List.takeWhile_prefix (l := b.expansion.digits) (· == '0')).length_le
  have hlog := log_value hf hb
  rw [List.length_drop, length_expansion] at hl
  rw [length_expansion] at ht
  have he : (b.expansion.whole : ℤ) - 1 - (b.expansion.digits.takeWhile (· == '0')).length
      = Int.log 10 b.value := by
    rw [hlog, leading]
    omega
  unfold significant leading
  dsimp only
  rw [hd, he]

theorem digitsValue_roundTo_leading : digitsValue (roundTo p (leading b)).1
    = ⌊b.value * 10 ^ ((p : ℤ) - 1 - Int.log 10 b.value) + 1 / 2⌋₊ := by
  have h : (fullPlaces : ℤ) + (p - (leading b).length) = p - 1 - Int.log 10 b.value := by
    rw [log_value hf hb]
    ring
  rw [digitsValue_roundTo (isRow_leading b), ← h, zpow_add₀ (by norm_num), zpow_natCast,
    ← mul_assoc, ← digitsValue_expansion hf, digitsValue_leading]

/-- The significant digits of a value and the power of ten of the first one are those of the value
rounded. -/
theorem significant_spec (hp : 0 < p) :
    IsRow (significant b p).1 ∧ (significant b p).1.length = p
      ∧ digitsValue (significant b p).1 = (rounded b.value p).1
      ∧ (significant b p).2 = (rounded b.value p).2 := by
  have hrow := isRow_roundTo (isRow_leading b) p
  have hlen := length_roundTo p (leading b)
  unfold rounded
  dsimp only
  rw [significant_eq hf hb, ← digitsValue_roundTo_leading hf hb]
  cases hc : (roundTo p (leading b)).2 with
  | false =>
    rw [hc, Bool.toNat_false, Nat.add_zero] at hlen
    have hlt := digitsValue_lt hrow
    rw [hlen] at hlt
    simp only [hc, Bool.false_eq_true, if_false, if_neg hlt.ne]
    exact ⟨hrow, hlen, trivial, trivial⟩
  | true =>
    rw [hc, Bool.toNat_true] at hlen
    have hv := digitsValue_of_carried (isRow_leading b) hc
    have h₁ := (digitsValue_take_drop hrow hlen).1
    rw [hv, Nat.pow_div hp (by decide)] at h₁
    simp only [hc, if_true, if_pos hv, h₁]
    refine ⟨hrow.take p, ?_, trivial, trivial⟩
    rw [List.length_take]
    omega

end Significant

/-- Of `p` digits of which the first stands for `10 ^ e` all but the first come after the point if
the power of ten is written. -/
theorem layoutPrecise_text {ds : List Char} {p : ℕ} (h : IsRow ds) (hl : ds.length = p)
    (hp : 0 < p) (hm : 10 ^ (p - 1) ≤ digitsValue ds) (e : ℤ) : layoutPrecise ds e =
      (placed false (digitsValue ds) (if e < -6 ∨ p ≤ e then p - 1 else (p - 1 - e).toNat)
        (if e < -6 ∨ p ≤ e then some e else none)).text := by
  unfold layoutPrecise
  rw [hl]
  split_ifs with he hn
  · exact withExponent_text h (by omega) e
  · have hj : (p - 1 - e).toNat = (-e).toNat - 1 + ds.length := by omega
    rw [hj, zeros_text h (List.ne_nil_of_length_pos (by omega))]
  · refine pointAfter_text h (by omega) (.inr ?_)
    have hj : e.toNat + (p - 1 - e).toNat = p - 1 := by omega
    rwa [hj]

theorem precise_eq (hb : magnitude x = .finite b) (hs : b.significand ≠ 0) (p : ℕ) :
    precise x p = sign x ++ layoutPrecise (significant b p).1 (significant b p).2 := by
  unfold precise
  rw [hb]
  exact if_neg hs

/-- The text with `p` digits is that of the exact value rounded to `p` digits, a tie away from zero,
and shows just these digits. -/
theorem precise_exact (hx : rational? x = some v) (hv : v ≠ 0) {p : ℕ} (hp : 0 < p) :
    let (n, e) := rounded |v| p
    ∃ w : WrittenNumber, Spells (precise x p) w ∧ w.negative = decide (v < 0)
      ∧ (digits n).length = p ∧ w.digits.dropWhile (· == '0') = digits n
      ∧ w.exponent = (if e < -6 ∨ p ≤ e then some e else none)
      ∧ w.value = (if v < 0 then -1 else 1) * n * 10 ^ (e - p + 1) := by
  obtain ⟨b, hb, hbv⟩ := abs_rational? hx
  have hf := fits_of_magnitude hb
  have hs : b.significand ≠ 0 := by
    rw [Ne, ← value_eq_zero, ← hbv, abs_eq_zero]
    exact hv
  obtain ⟨hrow, hlen, hval, hexp⟩ := significant_spec hf hs hp
  obtain ⟨hlo, hhi⟩ := rounded_bounds (abs_pos.mpr hv) hp
  rw [← hbv] at hval hexp
  have hl := layoutPrecise_text hrow hlen hp (hval ▸ hlo) (significant b p).2
  have ht := precise_eq hb hs p
  rw [hl, hval, hexp, sign_eq hx] at ht
  clear hl hval hexp
  generalize rounded |v| p = r at hlo hhi ht ⊢
  obtain ⟨n, e⟩ := r
  dsimp only at hlo hhi ht ⊢
  have hn : n ≠ 0 := (lt_of_lt_of_le (Nat.pow_pos (by decide)) hlo).ne'
  generalize hk : (if e < -6 ∨ p ≤ e then p - 1 else (p - 1 - e).toNat) = k at ht
  generalize ho : (if e < -6 ∨ p ≤ e then some e else none) = o at ht ⊢
  have he : o.getD 0 - k = e - p + 1 := by
    split_ifs at hk ho <;> subst hk ho <;> simp only [Option.getD_some, Option.getD_none] <;> omega
  have hw : precise x p = (placed (decide (v < 0)) n k o).text := by
    rw [ht, text_placed (decide _)]
    simp only [decide_eq_true_eq]
  have hd := dropWhile_zero (isRow_placed (decide (v < 0)) n k o)
  rw [digitsValue_placed] at hd
  refine ⟨placed (decide (v < 0)) n k o, hw ▸ spells_placed _ _ _ _, rfl, ?_, hd hn, rfl, ?_⟩
  · have := length_digits_eq hlo (by rwa [Nat.sub_add_cancel hp])
    omega
  · rw [value_placed, he]
    simp only [decide_eq_true_eq]

theorem rounded_nine_and_half : rounded |19 / 2| 1 = (1, 1) := by
  have hl : Int.log 10 (19 / 2 : ℚ) = 0 := log_eq (by norm_num) (by norm_num)
  have hn : ⌊(19 / 2 : ℚ) + 1 / 2⌋₊ = 10 := by norm_num
  norm_num [rounded, abs_of_pos, hl, hn]

/-- A carry that changes the form: 9.5 to one digit. -/
theorem precise_exact_carried : rational? (Float.ofBits 0x4023000000000000) = some (19 / 2)
    ∧ (19 / 2 : ℚ) ≠ 0 ∧ 0 < 1
    ∧ ∃ w : WrittenNumber, Spells (precise (Float.ofBits 0x4023000000000000) 1) w
      ∧ w.digits.dropWhile (· == '0') = digits 1 ∧ w.exponent = some 1 ∧ w.value = 10 := by
  have h := precise_exact rational?_nine_and_half (by norm_num) Nat.one_pos
  rw [rounded_nine_and_half] at h
  obtain ⟨w, hs, -, -, hd, he, hval⟩ := h
  exact ⟨rational?_nine_and_half, by norm_num, Nat.one_pos, w, hs, hd, he, by norm_num [hval]⟩

end Tale.Decimal
