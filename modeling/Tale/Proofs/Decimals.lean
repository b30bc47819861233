import Tale.Proofs.Reread
import Tale.Proofs.Rows

/-!
# Decimals

What a number that is written amounts to. Every layout of a row of digits is `placed`: a natural
number with some places after the point, and perhaps a power of ten. Such a text is read as it is
written (`spells_placed`).
-/

namespace Tale

namespace Json.WrittenNumber

/-- The digits, without the point. -/
def digits (w : WrittenNumber) : List Char :=
  w.whole ++ w.fraction.getD []

/-- The number that is written. -/
def value (w : WrittenNumber) : ℚ :=
  (if w.negative then -1 else 1) * Text.digitsValue w.digits
    * 10 ^ (w.exponent.getD 0 - (w.fraction.getD []).length)

end Json.WrittenNumber

namespace Decimal

open Json (WrittenNumber fractionText exponentText)
open Text (digitValue digitsValue digits)

variable {ds : List Char} {j k n : ℕ}

/-- Whether a text is that of a number, and is read as that number. -/
def Spells (s : List Char) (w : WrittenNumber) : Prop :=
  s = w.text ∧ Json.Written.number? s = some (w, [])

/-- `n / 10 ^ k` with `k` places after the point, times a power of ten. -/
def placed (negative : Bool) (n k : ℕ) (e : Option ℤ) : WrittenNumber :=
  ⟨negative, digits (n / 10 ^ k), if k = 0 then none else some (padded k (n % 10 ^ k)), e⟩

theorem length_fraction_placed (negative : Bool) (n k : ℕ) (e : Option ℤ) :
    ((placed negative n k e).fraction.getD []).length = k := by
  unfold placed
  split_ifs with hk
  · exact hk.symm
  · exact length_padded (Nat.pos_of_ne_zero hk) (Nat.mod_lt _ (Nat.pow_pos (by decide)))

theorem digitsValue_placed (negative : Bool) (n k : ℕ) (e : Option ℤ) :
    digitsValue (placed negative n k e).digits = n := by
  have hl := length_fraction_placed negative n k e
  unfold WrittenNumber.digits
  rw [digitsValue_append, hl]
  unfold placed
  split_ifs with hk
  · subst hk
    simp [digitsValue_digits]
  · rw [Option.getD_some, digitsValue_padded, digitsValue_digits, Nat.div_add_mod']

theorem isRow_placed (negative : Bool) (n k : ℕ) (e : Option ℤ) :
    IsRow (placed negative n k e).digits := by
  refine isRow_append.mpr ⟨isDigit_digits _, ?_⟩
  unfold placed
  split_ifs
  · exact nofun
  · exact isDigit_padded _ _

theorem value_placed (negative : Bool) (n k : ℕ) (e : Option ℤ) :
    (placed negative n k e).value = (if negative then -1 else 1) * n * 10 ^ (e.getD 0 - k) := by
  rw [WrittenNumber.value, digitsValue_placed, length_fraction_placed]
  rfl

theorem spells_placed (negative : Bool) (n k : ℕ) (e : Option ℤ) :
    Spells (placed negative n k e).text (placed negative n k e) := by
  have hw : (placed negative n k e).WellFormed := by
    refine ⟨isDigit_digits _, Nat.toDigits_ne_nil, Json.digits_plain _, fun ds hds => ?_⟩
    unfold placed at hds
    split_ifs at hds with hk
    · exact nomatch hds
    · cases hds
      refine ⟨List.ne_nil_of_length_pos ?_, isDigit_padded _ _⟩
      exact lt_of_lt_of_le (Nat.pos_of_ne_zero hk) (le_length_padded k _)
  have h := Json.number?_text hw (r := []) nofun
  rw [List.append_nil] at h
  exact ⟨rfl, h⟩

/-! ## Rows with a point -/

theorem text_placed (negative : Bool) (n k : ℕ) (e : Option ℤ) : (placed negative n k e).text
    = (if negative then ['-'] else []) ++ (placed false n k e).text :=
  rfl

/-- A row of digits with a point in it, in which no zero in front is superfluous. -/
theorem pointAfter_text (h : IsRow ds) (hl : ds.length = k + 1 + j)
    (hz : k = 0 ∨ 10 ^ (k + j) ≤ digitsValue ds) :
    pointAfter (k + 1) ds = (placed false (digitsValue ds) j none).text := by
  have hp : 0 < 10 ^ j := Nat.pow_pos (by decide)
  obtain ⟨ht, hd⟩ := digitsValue_take_drop h hl
  have hlt : (ds.take (k + 1)).length = k + 1 := by
    rw [List.length_take]
    omega
  have hld : (ds.drop (k + 1)).length = j := by
    rw [List.length_drop]
    omega
  have hw : digits (digitsValue ds / 10 ^ j) = ds.take (k + 1) := by
    rw [← ht]
    refine digits_digitsValue (h.take _) hlt (hz.imp_right fun hz => ?_)
    rwa [ht, Nat.le_div_iff_mul_le hp, ← pow_add]
  unfold pointAfter placed WrittenNumber.text
  by_cases hj : j = 0
  · rw [if_pos (by omega), hw, if_pos hj, List.take_of_length_le (by omega)]
    exact (List.append_nil ds).symm
  · rw [if_neg (by omega), hw, if_neg hj, ← hd, padded_digitsValue (h.drop _) hld (by omega)]
    simp [fractionText, exponentText]

theorem withExponent_text (h : IsRow ds) (hl : ds.length = j + 1) (e : ℤ) :
    withExponent ds e = (placed false (digitsValue ds) j (some e)).text := by
  have hl : ds.length = 0 + 1 + j := by omega
  rw [withExponent, pointAfter_text h hl (.inl rfl)]
  simp [WrittenNumber.text, placed, exponentText]

theorem zeros_text (h : IsRow ds) (hn : ds ≠ []) (i : ℕ) : "0.".toList ++ zeros i ++ ds
    = (placed false (digitsValue ds) (i + ds.length) none).text := by
  have hl := List.length_pos_iff.mpr hn
  have hr : IsRow ('0' :: (zeros i ++ ds)) :=
    isRow_cons.mpr ⟨rfl, isRow_append.mpr ⟨isRow_zeros i, h⟩⟩
  have hv : digitsValue ('0' :: (zeros i ++ ds)) = digitsValue ds := by
    have h₀ : digitValue '0' = 0 := rfl
    simp [h₀]
  have hlr : ('0' :: (zeros i ++ ds)).length = 0 + 1 + (i + ds.length) := by
    rw [List.length_cons, List.length_append, length_zeros]
    omega
  have hp := pointAfter_text hr hlr (.inl rfl)
  rw [hv] at hp
  rw [← hp, pointAfter, if_neg (by omega)]
  rfl

theorem whole_text (h : IsRow ds) (hn : ds ≠ []) (hp : 10 ^ (ds.length - 1) ≤ digitsValue ds)
    (i : ℕ) : ds ++ zeros i = (placed false (digitsValue ds * 10 ^ i) 0 none).text := by
  have hl := List.length_pos_iff.mpr hn
  have hr : IsRow (ds ++ zeros i) := isRow_append.mpr ⟨h, isRow_zeros i⟩
  have hlr : (ds ++ zeros i).length = ds.length - 1 + i + 1 + 0 := by
    rw [List.length_append, length_zeros]
    omega
  have hv : digitsValue (ds ++ zeros i) = digitsValue ds * 10 ^ i := by
    rw [digitsValue_append, digitsValue_zeros, length_zeros, Nat.add_zero]
  have ht := pointAfter_text hr hlr (.inr (by
    rw [hv, Nat.add_zero, pow_add]
    exact Nat.mul_le_mul_right _ hp))
  rw [hv] at ht
  rw [← ht, pointAfter, if_pos hlr.le]

/-- Without the zeros in front a row is the number it writes. -/
theorem dropWhile_zero (h : IsRow ds) (hn : digitsValue ds ≠ 0) :
    ds.dropWhile (· == '0') = digits (digitsValue ds) := by
  induction ds with
  | nil => exact absurd rfl hn
  | cons d ds ih =>
    obtain ⟨hd, hds⟩ := isRow_cons.mp h
    by_cases hz : d = '0'
    · have h₀ : digitValue '0' = 0 := rfl
      rw [digitsValue_cons, hz, h₀, Nat.zero_mul, Nat.zero_add] at hn ⊢
      rw [List.dropWhile_cons, if_pos (by rfl)]
      exact ih hds hn
    · have hv : digitValue d ≠ 0 := fun hv => hz (digitValue_inj hd rfl hv)
      rw [List.dropWhile_cons, if_neg (by simpa using hz)]
      refine (digits_digitsValue h List.length_cons (.inr ?_)).symm
      rw [digitsValue_cons]
      exact Nat.le_add_right_of_le (Nat.le_mul_of_pos_left _ (Nat.pos_of_ne_zero hv))

end Decimal

end Tale
