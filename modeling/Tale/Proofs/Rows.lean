import Mathlib
import Tale.Proofs.Doubles

/-!
# Rows of digits

A row of digits is determined by its length and by the number it writes (`row_ext`). So it is enough
to know these two of what `increment`, `roundTo` and `Binary.expansion` do to a row, and a rounded
row writes the rounded number (`digitsValue_roundTo`).
-/

namespace Tale.Decimal

open Text (isDigit digitValue digitsValue digits)

variable {d : Char} {as bs ds : List Char} {k n : ℕ}

/-- Whether there are only digits in a row. -/
def IsRow (ds : List Char) : Prop :=
  ∀ c ∈ ds, isDigit c = true

/-! ## Digits -/

theorem isDigit_iff : isDigit d = true ↔ 48 ≤ d.toNat ∧ d.toNat ≤ 57 := by
  simp only [isDigit, Bool.and_eq_true, decide_eq_true_eq, Char.le_def, UInt32.le_iff_toNat_le]
  rfl

theorem toNat_of_isDigit (h : isDigit d = true) :
    d.toNat = 48 + digitValue d ∧ digitValue d < 10 := by
  have hz : '0'.toNat = 48 := rfl
  rw [isDigit_iff] at h
  unfold digitValue
  omega

theorem digitValue_inj {c : Char} (hc : isDigit c = true) (hd : isDigit d = true)
    (h : digitValue c = digitValue d) : c = d := by
  have := toNat_of_isDigit hc
  have := toNat_of_isDigit hd
  exact Char.toNat_inj.mp (by omega)

/-- The digit after one that is not the last. -/
theorem digit_succ (h : isDigit d = true) (h9 : d ≠ '9') :
    isDigit (Char.ofNat (d.toNat + 1)) = true
      ∧ digitValue (Char.ofNat (d.toNat + 1)) = digitValue d + 1 := by
  have hd := toNat_of_isDigit h
  have hz : '0'.toNat = 48 := rfl
  have h9 : d.toNat ≠ 57 := fun h => h9 (Char.toNat_inj.mp h)
  have hn : (Char.ofNat (d.toNat + 1)).toNat = d.toNat + 1 := by
    rw [Char.toNat_ofNat, if_pos (.inl (by omega))]
  rw [isDigit_iff, digitValue, hn]
  omega

/-! ## The number of a row -/

theorem foldl_digits (n : ℕ) : ∀ ds : List Char,
    ds.foldl (fun n d => 10 * n + digitValue d) n = n * 10 ^ ds.length + digitsValue ds
  | [] => by simp [digitsValue]
  | d :: ds => by
    have h := foldl_digits (digitValue d) ds
    rw [digitsValue, List.foldl_cons, List.foldl_cons, foldl_digits (10 * n + digitValue d) ds,
      Nat.mul_zero, Nat.zero_add, h, List.length_cons]
    ring

@[simp]
theorem digitsValue_nil : digitsValue [] = 0 :=
  rfl

@[simp]
theorem digitsValue_cons (d : Char) (ds : List Char) :
    digitsValue (d :: ds) = digitValue d * 10 ^ ds.length + digitsValue ds := by
  rw [digitsValue, List.foldl_cons, foldl_digits, Nat.mul_zero, Nat.zero_add]

@[simp]
theorem digitsValue_append (as bs : List Char) :
    digitsValue (as ++ bs) = digitsValue as * 10 ^ bs.length + digitsValue bs := by
  rw [digitsValue, List.foldl_append, foldl_digits]
  rfl

@[simp]
theorem length_zeros (k : ℕ) : (zeros k).length = k :=
  List.length_replicate

@[simp]
theorem digitsValue_zeros (k : ℕ) : digitsValue (zeros k) = 0 := by
  induction k with
  | zero => rfl
  | succ k ih =>
    have hz : digitValue '0' = 0 := rfl
    rw [zeros, List.replicate_succ, digitsValue_cons, hz, Nat.zero_mul, Nat.zero_add]
    exact ih

theorem isRow_zeros (k : ℕ) : IsRow (zeros k) := by
  intro c hc
  rw [List.eq_of_mem_replicate hc]
  rfl

theorem isRow_cons : IsRow (d :: ds) ↔ isDigit d = true ∧ IsRow ds :=
  List.forall_mem_cons

theorem isRow_append : IsRow (as ++ bs) ↔ IsRow as ∧ IsRow bs :=
  List.forall_mem_append

theorem IsRow.take (h : IsRow ds) (k : ℕ) : IsRow (ds.take k) :=
  fun c hc => h c (List.mem_of_mem_take hc)

theorem IsRow.drop (h : IsRow ds) (k : ℕ) : IsRow (ds.drop k) :=
  fun c hc => h c (List.mem_of_mem_drop hc)

theorem digitsValue_lt : ∀ {ds : List Char}, IsRow ds → digitsValue ds < 10 ^ ds.length
  | [], _ => by decide
  | d :: ds, h => by
    obtain ⟨hd, h⟩ := isRow_cons.mp h
    have h₁ := (toNat_of_isDigit hd).2
    have h₂ := digitsValue_lt h
    rw [digitsValue_cons, List.length_cons, pow_succ']
    nlinarith

theorem row_ext : ∀ {as bs : List Char}, IsRow as → IsRow bs → as.length = bs.length →
    digitsValue as = digitsValue bs → as = bs
  | [], [], _, _, _, _ => rfl
  | [], _ :: _, _, _, hl, _ => nomatch hl
  | _ :: _, [], _, _, hl, _ => nomatch hl
  | a :: as, b :: bs, ha, hb, hl, hv => by
    obtain ⟨ha, has⟩ := isRow_cons.mp ha
    obtain ⟨hb, hbs⟩ := isRow_cons.mp hb
    have hl : as.length = bs.length := Nat.succ.inj hl
    have h₁ := digitsValue_lt has
    have h₂ := digitsValue_lt hbs
    rw [digitsValue_cons, digitsValue_cons, hl] at hv
    rw [hl] at h₁
    have hd := congrArg (· / 10 ^ bs.length) hv
    have hm := congrArg (· % 10 ^ bs.length) hv
    have hp : 0 < 10 ^ bs.length := Nat.pow_pos (by decide)
    simp only [Nat.add_comm (_ * _), Nat.add_mul_div_right _ _ hp, Nat.add_mul_mod_self_right,
      Nat.div_eq_of_lt h₁, Nat.div_eq_of_lt h₂, Nat.mod_eq_of_lt h₁, Nat.mod_eq_of_lt h₂,
      Nat.zero_add] at hd hm
    rw [digitValue_inj ha hb hd, row_ext has hbs hl hm]

/-- What the digits before and after a place of a row write. -/
theorem digitsValue_take_drop (h : IsRow ds) (hl : ds.length = k + n) :
    digitsValue (ds.take k) = digitsValue ds / 10 ^ n
      ∧ digitsValue (ds.drop k) = digitsValue ds % 10 ^ n := by
  have hp : 0 < 10 ^ n := Nat.pow_pos (by decide)
  have hn : (ds.drop k).length = n := by
    rw [List.length_drop]
    omega
  have hlt := digitsValue_lt (h.drop k)
  have hv := digitsValue_append (ds.take k) (ds.drop k)
  rw [hn] at hlt hv
  rw [List.take_append_drop] at hv
  rw [hv, Nat.add_comm, Nat.add_mul_div_right _ _ hp, Nat.add_mul_mod_self_right,
    Nat.div_eq_of_lt hlt, Nat.mod_eq_of_lt hlt, Nat.zero_add]
  exact ⟨rfl, rfl⟩

/-! ## Numbers as rows -/

theorem length_digits_le (hk : 0 < k) : (digits n).length ≤ k ↔ n < 10 ^ k :=
  Nat.length_toDigits_le_iff (by decide) hk

theorem length_digits_pos (n : ℕ) : 0 < (digits n).length :=
  Nat.length_toDigits_pos

theorem lt_pow_length_digits (n : ℕ) : n < 10 ^ (digits n).length :=
  (length_digits_le (length_digits_pos n)).mp le_rfl

theorem pow_length_digits_le (hn : n ≠ 0) : 10 ^ ((digits n).length - 1) ≤ n := by
  have hp := length_digits_pos n
  by_cases h₁ : (digits n).length = 1
  · rw [h₁]
    omega
  · by_contra h
    have := (length_digits_le (n := n) (by omega)).mpr (not_le.mp h)
    omega

theorem length_digits_eq (hl : 10 ^ k ≤ n) (hn : n < 10 ^ (k + 1)) : (digits n).length = k + 1 := by
  refine le_antisymm ((length_digits_le k.succ_pos).mpr hn) (Nat.lt_of_not_le fun h => ?_)
  rcases Nat.eq_zero_or_pos k with rfl | hk
  · have := length_digits_pos n
    omega
  · exact absurd ((length_digits_le hk).mp h) (by omega)

theorem length_padded (hk : 0 < k) (hn : n < 10 ^ k) : (padded k n).length = k := by
  have := (length_digits_le hk).mpr hn
  rw [padded, List.length_append, length_zeros]
  omega

/-- A row with digits is the number it writes, with zeros in front up to its length. -/
theorem padded_digitsValue (h : IsRow ds) (hl : ds.length = k) (hk : 0 < k) :
    padded k (digitsValue ds) = ds := by
  have hn := digitsValue_lt h
  rw [hl] at hn
  exact row_ext (isDigit_padded _ _) h (by rw [length_padded hk hn, hl]) (digitsValue_padded _ _)

theorem digits_digitsValue (h : IsRow ds) (hl : ds.length = k + 1)
    (hz : k = 0 ∨ 10 ^ k ≤ digitsValue ds) : digits (digitsValue ds) = ds := by
  have hn := digitsValue_lt h
  refine row_ext (isDigit_digits _) h ?_ (digitsValue_digits _)
  rw [hl] at hn ⊢
  rcases hz with rfl | hz
  · exact le_antisymm ((length_digits_le Nat.one_pos).mpr hn) (length_digits_pos _)
  · exact length_digits_eq hz hn

/-! ## Counting up -/

theorem increment_cons (d : Char) (ds : List Char) : increment (d :: ds) =
    if (increment ds).2 then
      if d = '9' then ('0' :: (increment ds).1, true)
      else (Char.ofNat (d.toNat + 1) :: (increment ds).1, false)
    else (d :: (increment ds).1, false) := by
  rw [increment]
  rcases increment ds with ⟨_, _ | _⟩ <;> rfl

theorem length_increment : ∀ ds : List Char, (increment ds).1.length = ds.length
  | [] => rfl
  | d :: ds => by
    have ih := length_increment ds
    rw [increment_cons]
    split_ifs <;> exact congrArg (· + 1) ih

theorem isRow_increment : ∀ {ds : List Char}, IsRow ds → IsRow (increment ds).1
  | [], h => h
  | d :: ds, h => by
    obtain ⟨hd, h⟩ := isRow_cons.mp h
    have ih := isRow_increment h
    rw [increment_cons]
    split_ifs with hc h9
    · exact isRow_cons.mpr ⟨rfl, ih⟩
    · exact isRow_cons.mpr ⟨(digit_succ hd h9).1, ih⟩
    · exact isRow_cons.mpr ⟨hd, ih⟩

/-- A carry out of the row is worth as much as one more digit in front. -/
theorem digitsValue_increment : ∀ {ds : List Char}, IsRow ds →
    digitsValue (increment ds).1 + (increment ds).2.toNat * 10 ^ ds.length = digitsValue ds + 1
  | [], _ => rfl
  | d :: ds, h => by
    obtain ⟨hd, h⟩ := isRow_cons.mp h
    have ih := digitsValue_increment h
    have hl := length_increment ds
    rw [increment_cons]
    split_ifs with hc h9
    · have h₀ : digitValue '0' = 0 := rfl
      have h₉ : digitValue '9' = 9 := rfl
      simp only [hc, h9, h₀, h₉, Bool.toNat_true, digitsValue_cons, List.length_cons, pow_succ]
        at ih ⊢
      omega
    · simp only [hc, Bool.toNat_true, Bool.toNat_false, digitsValue_cons, (digit_succ hd h9).2, hl]
        at ih ⊢
      linarith
    · simp only [hc, Bool.toNat_false, digitsValue_cons, hl] at ih ⊢
      omega

/-! ## Rounding -/

theorem divHalfUp_eq_floor {d : ℕ} (hd : 0 < d) : divHalfUp n d = ⌊(n : ℚ) / d + 1 / 2⌋₊ := by
  have hd : (d : ℚ) ≠ 0 := Nat.cast_ne_zero.mpr hd.ne'
  have h : (n : ℚ) / d + 1 / 2 = ((2 * n + d : ℕ) : ℚ) / (2 * d : ℕ) := by
    push_cast
    field_simp
  rw [h, Nat.floor_div_eq_div, divHalfUp]

/-- The place after the last one that is kept decides. -/
theorem divHalfUp_digit {a v p r : ℕ} (hv : v < 10) (hr : r < p) :
    divHalfUp (a * (10 * p) + (v * p + r)) (10 * p) = if v < 5 then a else a + 1 := by
  have h₀ : 0 ≤ v * p := Nat.zero_le _
  rw [divHalfUp]
  split_ifs with h
  · have : v * p ≤ 4 * p := Nat.mul_le_mul_right p (by omega)
    refine Nat.div_eq_of_lt_le ?_ ?_ <;> linarith
  · have h₁ : 5 * p ≤ v * p := Nat.mul_le_mul_right p (by omega)
    have h₂ : v * p ≤ 9 * p := Nat.mul_le_mul_right p (by omega)
    refine Nat.div_eq_of_lt_le ?_ ?_ <;> linarith

theorem roundTo_of_le (h : ds.length ≤ k) :
    roundTo k ds = (ds ++ zeros (k - ds.length), false) := by
  rw [roundTo, List.drop_eq_nil_of_le h]

theorem roundTo_of_drop (h : ds.drop k = d :: as) : roundTo k ds =
    if digitValue d < 5 then (ds.take k, false)
    else if (increment (ds.take k)).2 then ('1' :: (increment (ds.take k)).1, true)
    else ((increment (ds.take k)).1, false) := by
  have h5 : d < '5' ↔ digitValue d < 5 := by
    have hz : '0'.toNat = 48 := rfl
    rw [Char.lt_def, UInt32.lt_iff_toNat_lt]
    change d.toNat < 53 ↔ _
    rw [digitValue]
    omega
  rw [roundTo, h]
  simp only [h5]
  split_ifs with h₅ hc
  · rfl
  · rcases hi : increment (ds.take k) with ⟨_, _ | _⟩
    · rw [hi] at hc
      exact absurd hc Bool.false_ne_true
    · rfl
  · rcases hi : increment (ds.take k) with ⟨_, _ | _⟩
    · rfl
    · rw [hi] at hc
      exact absurd rfl hc

theorem length_take_of_drop (h : ds.drop k = d :: as) :
    (ds.take k).length = k ∧ ds.length = k + (as.length + 1) := by
  have hl := congrArg List.length h
  rw [List.length_drop, List.length_cons] at hl
  rw [List.length_take]
  omega

theorem length_roundTo (k : ℕ) (ds : List Char) :
    (roundTo k ds).1.length = k + (roundTo k ds).2.toNat := by
  rcases h : ds.drop k with _ | ⟨d, as⟩
  · have hl := List.drop_eq_nil_iff.mp h
    rw [roundTo_of_le hl, List.length_append, length_zeros]
    change _ = k
    omega
  · obtain ⟨ht, -⟩ := length_take_of_drop h
    have hi := length_increment (ds.take k)
    rw [roundTo_of_drop h]
    split_ifs
    · exact ht
    · exact congrArg (· + 1) (hi.trans ht)
    · exact hi.trans ht

theorem isRow_roundTo (h : IsRow ds) (k : ℕ) : IsRow (roundTo k ds).1 := by
  rcases hd : ds.drop k with _ | ⟨d, as⟩
  · rw [roundTo_of_le (List.drop_eq_nil_iff.mp hd)]
    exact isRow_append.mpr ⟨h, isRow_zeros _⟩
  · rw [roundTo_of_drop hd]
    split_ifs
    · exact h.take k
    · exact isRow_cons.mpr ⟨rfl, isRow_increment (h.take k)⟩
    · exact isRow_increment (h.take k)

theorem digitsValue_increment_carried (h : IsRow ds) (hc : (increment ds).2 = true) :
    digitsValue (increment ds).1 = 0 ∧ digitsValue ds + 1 = 10 ^ ds.length := by
  have hv := digitsValue_increment h
  have := digitsValue_lt h
  rw [hc, Bool.toNat_true, Nat.one_mul] at hv
  omega

/-- Only a one and zeros come of a carry. -/
theorem digitsValue_of_carried (h : IsRow ds) (hc : (roundTo k ds).2 = true) :
    digitsValue (roundTo k ds).1 = 10 ^ k := by
  rcases hd : ds.drop k with _ | ⟨d, as⟩
  · rw [roundTo_of_le (List.drop_eq_nil_iff.mp hd)] at hc
    exact absurd hc Bool.false_ne_true
  · rw [roundTo_of_drop hd] at hc ⊢
    split_ifs at hc ⊢ with h₅ hi
    have h₁ : digitValue '1' = 1 := rfl
    rw [digitsValue_cons, (digitsValue_increment_carried (h.take k) hi).1, length_increment,
      (length_take_of_drop hd).1, h₁, Nat.one_mul, Nat.add_zero]

theorem digitsValue_of_drop (h : IsRow ds) (hd : ds.drop k = d :: as) :
    digitsValue (roundTo k ds).1
      = if digitValue d < 5 then digitsValue (ds.take k) else digitsValue (ds.take k) + 1 := by
  have hv := digitsValue_increment (h.take k)
  have hr : (roundTo k ds).1 = if digitValue d < 5 then ds.take k
      else if (increment (ds.take k)).2 then '1' :: (increment (ds.take k)).1
      else (increment (ds.take k)).1 := by
    rw [roundTo_of_drop hd]
    split_ifs <;> rfl
  rw [hr]
  split_ifs with h₅ hc
  · rfl
  · have h₁ : digitValue '1' = 1 := rfl
    rw [hc, Bool.toNat_true] at hv
    rw [digitsValue_cons, length_increment, h₁]
    omega
  · rw [Bool.not_eq_true] at hc
    rw [hc, Bool.toNat_false] at hv
    omega

/-- The rounded row writes the rounded number, a tie upwards. -/
theorem digitsValue_roundTo (h : IsRow ds) (k : ℕ) : digitsValue (roundTo k ds).1
    = ⌊(digitsValue ds : ℚ) * 10 ^ ((k : ℤ) - ds.length) + 1 / 2⌋₊ := by
  rcases hd : ds.drop k with _ | ⟨d, as⟩
  · obtain ⟨j, rfl⟩ := Nat.exists_eq_add_of_le (List.drop_eq_nil_iff.mp hd)
    have hj : ((ds.length + j : ℕ) : ℤ) - ds.length = (j : ℕ) := by omega
    have hv : (digitsValue ds : ℚ) * 10 ^ j = (digitsValue ds * 10 ^ j : ℕ) / (1 : ℕ) := by
      push_cast
      rw [div_one]
    rw [roundTo_of_le (Nat.le_add_right _ _), digitsValue_append, digitsValue_zeros, length_zeros,
      Nat.add_sub_cancel_left, hj, zpow_natCast, hv, ← divHalfUp_eq_floor Nat.one_pos, divHalfUp]
    omega
  · obtain ⟨-, hl⟩ := length_take_of_drop hd
    have hj : (k : ℤ) - ds.length = -((as.length + 1 : ℕ) : ℤ) := by omega
    have has := h.drop k
    rw [hd] at has
    obtain ⟨hdd, has⟩ := isRow_cons.mp has
    have hv := digitsValue_append (ds.take k) (ds.drop k)
    rw [List.take_append_drop, hd, digitsValue_cons, List.length_cons] at hv
    have hp : ((10 ^ (as.length + 1) : ℕ) : ℚ) = 10 ^ (as.length + 1) := by push_cast; rfl
    rw [digitsValue_of_drop h hd, hj, zpow_neg, zpow_natCast, ← div_eq_mul_inv, ← hp,
      ← divHalfUp_eq_floor (Nat.pow_pos (by decide)), hv, pow_succ',
      divHalfUp_digit (toNat_of_isDigit hdd).2 (digitsValue_lt has)]

/-! ## All digits of a value -/

section Expansion

variable {b : Binary}

theorem den_dvd (h : Fits b.significand b.exponent) : b.den ∣ 10 ^ fullPlaces := by
  have hp : fullPlaces = 1074 := rfl
  have he := h.exponent_ge
  have h : (2 : ℕ) ^ (-b.exponent).toNat ∣ 2 ^ fullPlaces := Nat.pow_dvd_pow 2 (by omega)
  exact h.trans (pow_dvd_pow_of_dvd (by decide) _)

theorem expansion_eq (b : Binary) : b.expansion = ⟨digits (b.num / b.den)
    ++ padded fullPlaces (b.num % b.den * 10 ^ fullPlaces / b.den),
    (digits (b.num / b.den)).length⟩ := by
  rw [Binary.expansion, Nat.pow_eq]

theorem fullPlaces_pos : 0 < fullPlaces := by
  decide

theorem isRow_expansion (b : Binary) : IsRow b.expansion.digits :=
  isRow_append.mpr ⟨isDigit_digits _, isDigit_padded _ _⟩

theorem length_fraction (b : Binary) (hk : 0 < k) :
    (padded k (b.num % b.den * 10 ^ k / b.den)).length = k := by
  refine length_padded hk ?_
  rw [Nat.div_lt_iff_lt_mul b.den_pos, Nat.mul_comm]
  exact Nat.mul_lt_mul_of_pos_left (Nat.mod_lt _ b.den_pos) (Nat.pow_pos (by decide))

theorem length_expansion (b : Binary) :
    b.expansion.digits.length = b.expansion.whole + fullPlaces := by
  rw [expansion_eq, List.length_append, length_fraction b fullPlaces_pos]

theorem digitsValue_expansion (h : Fits b.significand b.exponent) :
    (digitsValue b.expansion.digits : ℚ) = b.value * 10 ^ fullPlaces := by
  have hd : (b.den : ℚ) ≠ 0 := Nat.cast_ne_zero.mpr b.den_pos.ne'
  have hm := (den_dvd h).mul_left (b.num % b.den)
  have hn : (b.num : ℚ) = b.den * (b.num / b.den : ℕ) + (b.num % b.den : ℕ) := by
    exact_mod_cast (Nat.div_add_mod b.num b.den).symm
  rw [expansion_eq, digitsValue_append, digitsValue_digits, digitsValue_padded,
    length_fraction b fullPlaces_pos, ← num_div_den, Nat.cast_add, Nat.cast_div hm hd, hn]
  push_cast
  field_simp

theorem whole_pos (b : Binary) : 0 < b.expansion.whole :=
  length_digits_pos _

/-- The expansion starts with a zero only if that is all before the point. -/
theorem pow_whole_le (b : Binary) (h : b.expansion.whole ≠ 1) :
    10 ^ (b.expansion.whole - 1) ≤ ⌊b.value⌋₊ := by
  rw [← num_div_den, Nat.floor_div_eq_div]
  refine pow_length_digits_le fun h₀ => h ?_
  rw [expansion_eq, h₀]
  rfl

end Expansion

end Tale.Decimal
