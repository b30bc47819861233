import Tale.Decimal.Layout
import Tale.Language.Parser.Expression

/-!
# Numbers written in full

Every finite double is a decimal with finitely many places. Read again, it gives the bits of the
double: a ratio of natural numbers that is the value of a double is nearest to that double
(`nearestBits_of_ratio`).
-/

namespace Tale

namespace Decimal

theorem log2_mul_pow {n : Nat} (hn : n ≠ 0) : ∀ k, (n * Nat.pow 2 k).log2 = n.log2 + k
  | 0 => by rw [Nat.pow_eq, Nat.pow_zero, Nat.mul_one, Nat.add_zero]
  | k + 1 => by
    have hk : n * Nat.pow 2 k ≠ 0 := Nat.mul_ne_zero hn (Nat.ne_of_gt (Nat.two_pow_pos k))
    have he : n * Nat.pow 2 (k + 1) = 2 * (n * Nat.pow 2 k) := by
      rw [Nat.pow_eq, Nat.pow_succ, Nat.pow_eq]
      ac_rfl
    rw [he, Nat.log2_two_mul hk, log2_mul_pow hn k, Nat.add_assoc]

theorem log2_mul {s b : Nat} (hs : s ≠ 0) (hb : b ≠ 0) :
    s.log2 + b.log2 ≤ (s * b).log2 ∧ (s * b).log2 ≤ s.log2 + b.log2 + 1 := by
  have h := Nat.mul_ne_zero hs hb
  constructor
  · rw [Nat.le_log2 h, Nat.pow_add]
    exact Nat.mul_le_mul (Nat.log2_self_le hs) (Nat.log2_self_le hb)
  · rw [← Nat.lt_succ_iff, Nat.log2_lt h, Nat.succ_eq_add_one,
      show s.log2 + b.log2 + 1 + 1 = (s.log2 + 1) + (b.log2 + 1) by omega, Nat.pow_add]
    exact Nat.mul_lt_mul'' Nat.lt_log2_self Nat.lt_log2_self

/-- The ratio `n / d` in units of `2 ^ e`, as the search for the nearest double has it. -/
def scaled (n d : Nat) (e : Int) : Nat × Nat :=
  (n * Nat.pow 2 (-e).toNat, d * Nat.pow 2 e.toNat)

/-- `n / d` is `s` units of `2 ^ e`. -/
def Measures (n d s : Nat) (e : Int) : Prop :=
  (scaled n d e).1 = s * (scaled n d e).2

variable {n d s : Nat} {e : Int}

theorem two_pow_succ (k : Nat) : Nat.pow 2 (k + 1) = 2 * Nat.pow 2 k :=
  Nat.pow_succ'

/-- In units half as large there are twice as many. -/
theorem Measures.double (h : Measures n d s e) : Measures n d (2 * s) (e - 1) := by
  simp only [Measures, scaled] at h ⊢
  by_cases he : 0 < e
  · have h₁ : (-(e - 1)).toNat = (-e).toNat := by omega
    have h₂ : e.toNat = (e - 1).toNat + 1 := by omega
    rw [h₂, two_pow_succ] at h
    rw [h₁, h]
    ac_rfl
  · have h₁ : (-(e - 1)).toNat = (-e).toNat + 1 := by omega
    have h₂ : (e - 1).toNat = e.toNat := by omega
    rw [h₁, h₂, two_pow_succ, Nat.mul_left_comm, h, Nat.mul_assoc]

theorem Measures.log2 (h : Measures n d s e) (hn : n ≠ 0) (hd : d ≠ 0) (hs : s ≠ 0) :
    e + s.log2 ≤ n.log2 - d.log2 ∧ (n.log2 : Int) - d.log2 ≤ e + s.log2 + 1 := by
  have hd' : d * Nat.pow 2 e.toNat ≠ 0 := Nat.mul_ne_zero hd (Nat.ne_of_gt (Nat.two_pow_pos _))
  obtain ⟨h₁, h₂⟩ := log2_mul hs hd'
  simp only [Measures, scaled] at h
  rw [← h, log2_mul_pow hn, log2_mul_pow hd] at h₁ h₂
  omega

/-- A significand with as many digits as there can be, or one of the smallest exponent. -/
def Fits (s : Nat) (e : Int) : Prop :=
  s < Nat.pow 2 53 ∧ (Nat.pow 2 52 ≤ s ∧ -1074 ≤ e ∨ e = -1074)

theorem exponentFor_eq (h : Measures n d s e) (hf : Fits s e) (hn : n ≠ 0) (hd : d ≠ 0)
    (hs : s ≠ 0) : exponentFor n d = e ∨ exponentFor n d = e - 1 ∧ Nat.pow 2 52 ≤ s := by
  obtain ⟨h₁, h₂⟩ := h.log2 hn hd hs
  have hlt : s.log2 < 53 := (Nat.log2_lt hs).mpr hf.1
  have hle : Nat.pow 2 52 ≤ s ↔ 52 ≤ s.log2 := (Nat.le_log2 hs).symm
  have hf := hf.2
  rw [hle] at hf ⊢
  simp only [exponentFor]
  omega

theorem divNearestEven_mul {m : Nat} (hd : 0 < d) (h : m = s * d) : divNearestEven m d = s := by
  simp only [divNearestEven, h, Nat.mul_mod_left, Nat.mul_div_cancel s hd]
  rw [if_pos (by omega)]

theorem scaled_pos (hd : d ≠ 0) : 0 < (scaled n d e).2 :=
  Nat.mul_pos (Nat.pos_of_ne_zero hd) (Nat.two_pow_pos _)

theorem Measures.div (h : Measures n d s e) (hd : d ≠ 0) :
    (scaled n d e).1 / (scaled n d e).2 = s := by
  rw [h]
  exact Nat.mul_div_cancel s (scaled_pos (n := n) hd)

theorem Measures.eq_zero (h : Measures n d s e) (hd : d ≠ 0) : n = 0 ↔ s = 0 := by
  have hp : Nat.pow 2 (-e).toNat ≠ 0 := Nat.ne_of_gt (Nat.two_pow_pos _)
  have hq := Nat.ne_of_gt (scaled_pos (n := n) (e := e) hd)
  have hs : s * (scaled n d e).2 = 0 ↔ s = 0 := by rw [Nat.mul_eq_zero, or_iff_left hq]
  rw [← hs, ← h, scaled, Nat.mul_eq_zero, or_iff_left hp]

/-- The bits of the double with a significand and an exponent. -/
def bitsOf (s : Nat) (e : Int) : Nat :=
  if s < Nat.pow 2 52 then s else (e + 1075).toNat * Nat.pow 2 52 + (s - Nat.pow 2 52)

/-- The exponent of the double nearest to `n / d`. -/
def finalExponent (n d : Nat) : Int :=
  if (scaled n d (exponentFor n d)).1 / (scaled n d (exponentFor n d)).2 < Nat.pow 2 53 then
    exponentFor n d
  else exponentFor n d + 1

theorem nearestBits_eq (hn : n ≠ 0) : nearestBits n d =
    let e := finalExponent n d
    let bits := bitsOf (divNearestEven (scaled n d e).1 (scaled n d e).2) e
    if bits < 2047 * Nat.pow 2 52 then bits.toUInt64 else (2047 * Nat.pow 2 52).toUInt64 := by
  rw [nearestBits, if_neg hn]
  rfl

theorem finalExponent_eq (h : Measures n d s e) (hf : Fits s e) (hn : n ≠ 0) (hd : d ≠ 0)
    (hs : s ≠ 0) : finalExponent n d = e := by
  rw [finalExponent]
  rcases exponentFor_eq h hf hn hd hs with he | ⟨he, hle⟩ <;> rw [he]
  · rw [h.div hd, if_pos hf.1]
  · rw [h.double.div hd, if_neg, Int.sub_add_cancel]
    rw [two_pow_succ]
    omega

/-- A ratio that is a double is nearest to that. -/
theorem Measures.nearestBits (h : Measures n d s e) (hf : Fits s e) (hd : d ≠ 0)
    (hb : bitsOf s e < 2047 * Nat.pow 2 52) : nearestBits n d = (bitsOf s e).toUInt64 := by
  by_cases hn : n = 0
  · cases (h.eq_zero hd).mp hn
    rw [Decimal.nearestBits, if_pos hn]
    rfl
  · have hs : s ≠ 0 := mt (h.eq_zero hd).mpr hn
    rw [nearestBits_eq hn, finalExponent_eq h hf hn hd hs]
    simp only []
    rw [divNearestEven_mul (scaled_pos hd) h, if_pos hb]

/-! ## The double itself -/

variable {b : UInt64} {m : Binary}

/-- A finite double has a significand and an exponent that give its bits, but for its sign. -/
theorem magnitude_fits (h : magnitudeOfBits b = .finite m) :
    Fits m.significand m.exponent
      ∧ bitsOf m.significand m.exponent = b.toNat % Nat.pow 2 63
      ∧ b.toNat % Nat.pow 2 63 < 2047 * Nat.pow 2 52 := by
  have h₅₂ : Nat.pow 2 52 = 4503599627370496 := rfl
  have h₅₃ : Nat.pow 2 53 = 9007199254740992 := rfl
  have h₆₃ : Nat.pow 2 63 = 9223372036854775808 := rfl
  have h₁₁ : Nat.pow 2 11 = 2048 := rfl
  simp only [magnitudeOfBits, exponentField, fractionField, h₅₂, h₁₁] at h
  rw [h₆₃]
  split at h
  · split at h <;> cases h
  · split at h <;> cases h <;> simp only [Fits, bitsOf, h₅₂, h₅₃]
    · rw [if_pos (by omega), or_true, and_true]
      omega
    · rw [if_neg (by omega)]
      omega

theorem measures_num_den (m : Binary) : Measures m.num m.den m.significand m.exponent := by
  simp only [Measures, scaled, Binary.num, Binary.den]
  ac_rfl

theorem Measures.of_ratio {n' d' : Nat} (h : Measures n d s e) (hd : d ≠ 0)
    (hr : n' * d = n * d') : Measures n' d' s e := by
  simp only [Measures, scaled] at h ⊢
  refine Nat.eq_of_mul_eq_mul_right (Nat.pos_of_ne_zero hd) ?_
  calc n' * Nat.pow 2 (-e).toNat * d = n' * d * Nat.pow 2 (-e).toNat := by ac_rfl
    _ = n * Nat.pow 2 (-e).toNat * d' := by rw [hr]; ac_rfl
    _ = s * (d' * Nat.pow 2 e.toNat) * d := by rw [h]; ac_rfl

/-- A ratio that is the value of a double without a sign gives its bits. -/
theorem nearestBits_of_ratio (h : magnitudeOfBits b = .finite m) (hb : b.toNat < Nat.pow 2 63)
    (hd : d ≠ 0) (hr : n * m.den = m.num * d) : nearestBits n d = b := by
  obtain ⟨hf, he, hlt⟩ := magnitude_fits h
  rw [Nat.mod_eq_of_lt hb] at he hlt
  have hm : Measures n d m.significand m.exponent :=
    (measures_num_den m).of_ratio (Nat.ne_of_gt (Nat.two_pow_pos _)) hr
  rw [hm.nearestBits hf hd (he ▸ hlt), he]
  exact UInt64.ofNat_toNat

/-! ## Digits -/

theorem digitsValue_digits (n : Nat) : Text.digitsValue (Text.digits n) = n :=
  Nat.ofDigitChars_ten_toDigits

theorem isDigit_digits (n : Nat) : ∀ c ∈ Text.digits n, Text.isDigit c = true := by
  intro c hc
  have := Nat.isDigit_of_mem_toDigits (by decide) (by decide) hc
  simpa [Text.isDigit, Char.isDigit, UInt32.le_iff_toNat_le, Char.le_def] using this

theorem digitsValue_padded (k n : Nat) : Text.digitsValue (padded k n) = n := by
  have h : ∀ j, (zeros j).foldl (fun n d => 10 * n + Text.digitValue d) 0 = 0 := by
    intro j
    induction j with
    | zero => rfl
    | succ j ih => exact ih
  rw [padded, Text.digitsValue, List.foldl_append, h]
  exact digitsValue_digits n

theorem isDigit_padded (k n : Nat) : ∀ c ∈ padded k n, Text.isDigit c = true := by
  intro c hc
  rcases List.mem_append.mp hc with hc | hc
  · rw [List.eq_of_mem_replicate hc]
    rfl
  · exact isDigit_digits n c hc

theorem le_length_padded (k n : Nat) : k ≤ (padded k n).length := by
  simp only [padded, zeros, List.length_append, List.length_replicate]
  omega

/-- A point among digits only says how many of them come after it. -/
theorem numberValue_pointAfter {ds : List Char} (hd : ∀ c ∈ ds, Text.isDigit c = true) {p : Nat}
    (hp : p < ds.length) : Grammar.numberValue (String.ofList (pointAfter (ds.length - p) ds))
      = nearestScaled (Text.digitsValue ds) (-(p : Int)) := by
  have hn : ∀ as ⊆ ds, ∀ bs, (as ++ bs).dropWhile (· ≠ '.') = bs.dropWhile (· ≠ '.') := by
    intro as ha bs
    refine List.dropWhile_append_of_pos fun c hc => ?_
    have : c ≠ '.' := by
      rintro rfl
      exact nomatch hd _ (ha hc)
    simpa using this
  have hf : ∀ as ⊆ ds, as.filter Text.isDigit = as := fun as ha =>
    List.filter_eq_self.mpr fun c hc => hd c (ha hc)
  simp only [Grammar.numberValue, String.toList_ofList, pointAfter]
  split
  · have hp : p = 0 := by omega
    have h := hn ds (List.Subset.refl ds) []
    rw [List.append_nil] at h
    rw [hf ds (List.Subset.refl ds), h, hp]
    rfl
  · have ht := List.take_subset (ds.length - p) ds
    have hr := List.drop_subset (ds.length - p) ds
    have hl : (ds.drop (ds.length - p)).length = p := by
      rw [List.length_drop]
      omega
    have hpoint : Text.isDigit '.' = false := rfl
    rw [hn _ ht, List.filter_append, hf _ ht, List.filter_cons, hpoint, if_neg Bool.false_ne_true,
      hf _ hr, List.take_append_drop, List.dropWhile_cons, if_neg (by simp), List.length_cons, hl,
      Nat.add_sub_cancel]

theorem pow_mul_pow (k : Nat) : Nat.pow 2 k * Nat.pow 5 k = Nat.pow 10 k :=
  (Nat.mul_pow 2 5 k).symm

/-- `n / d` to the nearest whole number, a tie upwards. -/
def divHalfUp (n d : Nat) : Nat :=
  (2 * n + d) / (2 * d)

/-- The value rounded to `places` places after the point. -/
def fixedPlaces (b : Binary) (places : Nat) : List Char :=
  let ds := padded (places + 1) (divHalfUp (b.num * Nat.pow 10 places) b.den)
  pointAfter (ds.length - places) ds

/-- The number of places that write a value in full. -/
def exactPlaces (m : Binary) : Nat :=
  ((List.range (-m.exponent).toNat).find? fun p => m.num * Nat.pow 10 p % m.den = 0).getD
    (-m.exponent).toNat

theorem exactPlaces_dvd (m : Binary) : m.num * Nat.pow 10 (exactPlaces m) % m.den = 0 := by
  rw [exactPlaces]
  cases h : (List.range (-m.exponent).toNat).find? fun p => m.num * Nat.pow 10 p % m.den = 0 with
  | some p => simpa using List.find?_some h
  | none =>
    rw [Option.getD_none, ← pow_mul_pow, Binary.den, Nat.mul_left_comm]
    exact Nat.mul_mod_right _ _

/-- A finite double in full. -/
def numeral (x : Float) : String :=
  match magnitude x with
  | .finite m => String.ofList (fixedPlaces m (exactPlaces m))
  | _ => ""

theorem divHalfUp_of_dvd {n d : Nat} (hd : 0 < d) (h : n % d = 0) : divHalfUp n d * d = n := by
  obtain ⟨k, rfl⟩ := Nat.dvd_of_mod_eq_zero h
  have he : 2 * (d * k) + d = d + 2 * d * k := by rw [Nat.add_comm, Nat.mul_assoc]
  rw [divHalfUp, he, Nat.add_mul_div_left _ _ (by omega), Nat.div_eq_of_lt (by omega), Nat.zero_add,
    Nat.mul_comm]

/-- The bits of a double that is written in full and read again. -/
theorem numberValue_numeral {x : Float} {m : Binary} (h : magnitude x = .finite m)
    (hx : isNegative x = false) :
    Grammar.numberValue (numeral x) = Float.ofBits x.toBits := by
  have hd : m.den ≠ 0 := Nat.ne_of_gt (Nat.two_pow_pos _)
  have hb : x.toBits.toNat < Nat.pow 2 63 := by simpa [isNegative] using hx
  have hl : exactPlaces m < (padded (exactPlaces m + 1)
      (divHalfUp (m.num * Nat.pow 10 (exactPlaces m)) m.den)).length := le_length_padded _ _
  simp only [numeral, h, fixedPlaces]
  rw [numberValue_pointAfter (isDigit_padded _ _) hl, digitsValue_padded, nearestScaled, nearest]
  have h₀ : (-(exactPlaces m : Int)).toNat = 0 := by omega
  have h₁ : (-(-(exactPlaces m : Int))).toNat = exactPlaces m := by omega
  refine congrArg Float.ofBits (nearestBits_of_ratio h hb ?_ ?_)
  · exact Nat.ne_of_gt (Nat.pow_pos (by decide))
  · rw [h₀, h₁, show Nat.pow 10 0 = 1 from rfl, Nat.mul_one]
    exact divHalfUp_of_dvd (Nat.pos_of_ne_zero hd) (exactPlaces_dvd m)

end Decimal

end Tale
