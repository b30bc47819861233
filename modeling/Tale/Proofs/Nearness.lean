import Tale.Proofs.Rounding

/-!
# The decimal that tells a double

The numbers that round to a double are those between the middles to its neighbours, and the middles
themselves where the significand is even. No number rounds to two doubles (`Rounds.unique`). The
grid of seventeen digits is finer than the doubles are, so the search for the shortest decimal finds
one that rounds to the double, and a text written with it tells the double (`format_lossless`).
-/

namespace Tale.Decimal

open Json (WrittenNumber)
open Text (digitValue digitsValue digits)

variable {b c : Binary} {q r : ℚ}

/-! ## The numbers that round to a double -/

/-- Half the way to the double below, in units of the last place. Below a power of two the doubles
are twice as close. -/
def Binary.gap (b : Binary) : ℚ :=
  if b.significand = 2 ^ 52 ∧ -1074 < b.exponent then 1 / 4 else 1 / 2

def Binary.low (b : Binary) : ℚ :=
  (b.significand - b.gap) * 2 ^ b.exponent

def Binary.high (b : Binary) : ℚ :=
  (b.significand + 1 / 2) * 2 ^ b.exponent

/-- Whether a number rounds to a double, its sign apart. -/
def Rounds (b : Binary) (q : ℚ) : Prop :=
  if b.significand % 2 = 0 then b.low ≤ q ∧ q ≤ b.high else b.low < q ∧ q < b.high

theorem Rounds.le (h : Rounds b q) : b.low ≤ q ∧ q ≤ b.high := by
  unfold Rounds at h
  split_ifs at h
  · exact h
  · exact ⟨h.1.le, h.2.le⟩

theorem rounds_of_lt (hl : b.low < q) (hh : q < b.high) : Rounds b q := by
  unfold Rounds
  split_ifs
  · exact ⟨hl.le, hh.le⟩
  · exact ⟨hl, hh⟩

/-- Between two numbers that round to a double all do. -/
theorem Rounds.between {p : ℚ} (hp : Rounds b p) (hr : Rounds b r) (hl : p ≤ q) (hh : q ≤ r) :
    Rounds b q := by
  unfold Rounds at *
  split_ifs at *
  · exact ⟨hp.1.trans hl, hh.trans hr.2⟩
  · exact ⟨hp.1.trans_le hl, hh.trans_lt hr.2⟩

theorem gap_pos (b : Binary) : 0 < b.gap ∧ b.gap ≤ 1 / 2 := by
  unfold Binary.gap
  split_ifs <;> norm_num

theorem unit_pos (b : Binary) : (0 : ℚ) < 2 ^ b.exponent :=
  zpow_pos (by norm_num) _

theorem low_lt_value (b : Binary) : b.low < b.value := by
  refine mul_lt_mul_of_pos_right ?_ (unit_pos b)
  linarith [(gap_pos b).1]

theorem value_lt_high (b : Binary) : b.value < b.high :=
  mul_lt_mul_of_pos_right (by linarith) (unit_pos b)

theorem rounds_value (b : Binary) : Rounds b b.value :=
  rounds_of_lt (low_lt_value b) (value_lt_high b)

theorem low_pos (hs : b.significand ≠ 0) : 0 < b.low := by
  have h : (1 : ℚ) ≤ b.significand := Nat.one_le_cast.mpr (Nat.pos_of_ne_zero hs)
  refine mul_pos ?_ (unit_pos b)
  linarith [(gap_pos b).2]

/-- From the smallest exponent on, the significands are at least `2 ^ 52`. -/
theorem Fits.pow_le (h : Fits c.significand c.exponent) (he : -1074 < c.exponent) :
    2 ^ 52 ≤ c.significand := by
  rcases h.2 with h | h
  · exact h.1
  · omega

theorem le_low_of_exponent (hc : Fits c.significand c.exponent) (he : -1074 < c.exponent) :
    (2 ^ 52 - 1 / 4) * 2 ^ c.exponent ≤ c.low := by
  refine mul_le_mul_of_nonneg_right ?_ (unit_pos c).le
  have hs := hc.pow_le he
  by_cases hp : c.significand = 2 ^ 52
  · rw [Binary.gap, if_pos ⟨hp, he⟩, hp]
    push_cast
    linarith
  · have hs : (2 ^ 52 + 1 : ℚ) ≤ c.significand := by
      exact_mod_cast Nat.succ_le_of_lt (lt_of_le_of_ne hs (Ne.symm hp))
    linarith [(gap_pos c).2]

/-- The largest significand of an exponent is odd. -/
theorem high_le_low_of_exponent_lt (hb : Fits b.significand b.exponent)
    (hc : Fits c.significand c.exponent) (he : b.exponent < c.exponent) :
    b.high ≤ c.low ∧ (b.high = c.low → b.significand % 2 = 1) := by
  have hp := unit_pos b
  have hm := hb.exponent_ge
  have hpow : (2 : ℚ) * 2 ^ b.exponent ≤ 2 ^ c.exponent := by
    rw [← zpow_one_add₀ (by norm_num), add_comm]
    exact zpow_le_zpow_right₀ (by norm_num) he
  have hlow : (2 ^ 53 - 1 / 2) * 2 ^ b.exponent ≤ c.low := by
    have := le_low_of_exponent hc (by omega)
    linarith
  have hs : b.significand + 1 ≤ 2 ^ 53 := hb.1
  have hs' : (b.significand : ℚ) + 1 ≤ 2 ^ 53 := by exact_mod_cast hs
  refine ⟨(mul_le_mul_of_nonneg_right (by linarith) hp.le).trans hlow, fun h => ?_⟩
  have h : (2 ^ 53 - 1 / 2 : ℚ) ≤ b.significand + 1 / 2 :=
    le_of_mul_le_mul_right (hlow.trans h.ge) hp
  have h : (2 ^ 53 : ℚ) ≤ b.significand + 1 := by linarith
  have h : 2 ^ 53 ≤ b.significand + 1 := by exact_mod_cast h
  omega

/-- Of two significands next to each other one is odd. -/
theorem high_le_low_of_exponent_eq (hb : Fits b.significand b.exponent)
    (he : b.exponent = c.exponent) (hst : b.significand < c.significand) : b.high ≤ c.low
      ∧ (b.high = c.low → b.significand % 2 = 1 ∨ c.significand % 2 = 1) := by
  have hp := unit_pos b
  have hgap : c.gap = 1 / 2 := by
    refine if_neg fun ⟨hs, hm⟩ => ?_
    have := hb.pow_le (he ▸ hm)
    omega
  have hst : (b.significand : ℚ) + 1 ≤ c.significand := by exact_mod_cast hst
  unfold Binary.high Binary.low
  rw [hgap, ← he]
  refine ⟨mul_le_mul_of_nonneg_right (by linarith) hp.le, fun h => ?_⟩
  have h := mul_right_cancel₀ hp.ne' h
  have h : (b.significand : ℚ) + 1 = c.significand := by linarith
  have h : b.significand + 1 = c.significand := by exact_mod_cast h
  omega

/-- The middles to the doubles on either side are in order, and where two doubles share one, it
belongs to only one of them. -/
theorem high_le_low (hb : Fits b.significand b.exponent) (hc : Fits c.significand c.exponent)
    (h : b.value < c.value) : b.high ≤ c.low
      ∧ (b.high = c.low → b.significand % 2 = 1 ∨ c.significand % 2 = 1) := by
  rcases lt_trichotomy b.exponent c.exponent with he | he | he
  · exact (high_le_low_of_exponent_lt hb hc he).imp_right fun ho h => .inl (ho h)
  · refine high_le_low_of_exponent_eq hb he ?_
    unfold Binary.value at h
    rw [← he] at h
    exact_mod_cast lt_of_mul_lt_mul_right h (unit_pos b).le
  · exact absurd (value_lt_of_exponent_lt hc hb he) h.le.not_gt

/-- A number rounds to one double only. -/
theorem Rounds.unique (hb : Fits b.significand b.exponent) (hc : Fits c.significand c.exponent)
    (hq : Rounds b q) (hr : Rounds c q) : b = c := by
  have h : ∀ {b c : Binary}, Fits b.significand b.exponent → Fits c.significand c.exponent →
      Rounds b q → Rounds c q → ¬b.value < c.value := by
    intro b c hb hc hq hr hv
    obtain ⟨hle, ho⟩ := high_le_low hb hc hv
    have he : b.high = c.low := le_antisymm hle (hr.le.1.trans hq.le.2)
    unfold Rounds at hq hr
    rcases ho he with ho | ho
    · rw [if_neg (by omega)] at hq
      split_ifs at hr <;> linarith [hq.2, hr.1]
    · rw [if_neg (by omega)] at hr
      split_ifs at hq <;> linarith [hq.2, hr.1]
  exact (value_inj hb hc).mp (le_antisymm (not_lt.mp (h hc hb hr hq)) (not_lt.mp (h hb hc hq hr)))

/-! ## The search on one grid -/

theorem cast_unit (b : Binary) : ((2 ^ b.exponent.toNat : ℕ) : ℚ) = 2 ^ b.exponent * b.den := by
  have h := num_div_den ⟨1, b.exponent⟩
  rw [Binary.num, Binary.den, Binary.value, Nat.one_mul, Nat.cast_one, one_mul, div_eq_iff
    (Nat.cast_ne_zero.mpr (Nat.two_pow_pos _).ne')] at h
  exact h

theorem interval_eq (hs : b.significand ≠ 0) : ∃ l n h d, interval b = (l, n, h, d) ∧ 0 < d
    ∧ (l : ℚ) / d = b.low ∧ (n : ℚ) / d = b.value ∧ (h : ℚ) / d = b.high := by
  have hd : (b.den : ℚ) ≠ 0 := Nat.cast_ne_zero.mpr b.den_pos.ne'
  have hn : (b.num : ℚ) = b.significand * (2 ^ b.exponent * b.den) := by
    rw [← cast_unit, Binary.num, Nat.pow_eq, Nat.cast_mul]
  have hdown : ((if b.significand = 2 ^ 52 ∧ -1074 < b.exponent then 2 ^ b.exponent.toNat
      else 2 * 2 ^ b.exponent.toNat : ℕ) : ℚ) = 4 * b.gap * (2 ^ b.exponent * b.den) := by
    rw [← cast_unit]
    unfold Binary.gap
    split_ifs <;> push_cast <;> ring
  have hle : (if b.significand = 2 ^ 52 ∧ -1074 < b.exponent then 2 ^ b.exponent.toNat
      else 2 * 2 ^ b.exponent.toNat) ≤ 4 * b.num := by
    have h : 1 * 2 ^ b.exponent.toNat ≤ b.num := Nat.mul_le_mul_right _ (Nat.pos_of_ne_zero hs)
    split_ifs <;> omega
  refine ⟨_, _, _, _, rfl, Nat.mul_pos (by decide) b.den_pos, ?_, ?_, ?_⟩
  · rw [Nat.pow_eq, Nat.pow_eq, Nat.cast_sub hle, hdown, Nat.cast_mul, Nat.cast_mul, hn]
    unfold Binary.low
    field_simp
    push_cast
    ring
  · rw [Nat.cast_mul, Nat.cast_mul, hn]
    unfold Binary.value
    field_simp
  · rw [Nat.pow_eq, Nat.cast_add, Nat.cast_mul, Nat.cast_mul, Nat.cast_mul, cast_unit, hn]
    unfold Binary.high
    field_simp
    push_cast
    ring

section Grid

variable {p : ℤ} {k : ℕ}

/-- One unit of the last of `k` digits, of a number with `p` places before the point. -/
def grid (p : ℤ) (k : ℕ) : ℚ :=
  10 ^ (p - k)

theorem grid_pos (p : ℤ) (k : ℕ) : 0 < grid p k :=
  zpow_pos (by norm_num) _

theorem grid_eq (p : ℤ) (k : ℕ) :
    grid p k = ((10 ^ (p - k).toNat : ℕ) : ℚ) / (10 ^ ((k : ℤ) - p).toNat : ℕ) := by
  have h : p - k = ((p - k).toNat : ℤ) - (((k : ℤ) - p).toNat : ℤ) := by omega
  rw [Nat.cast_pow, Nat.cast_pow, Nat.cast_ofNat, ← zpow_natCast, ← zpow_natCast,
    ← zpow_sub₀ (by norm_num), ← h, grid]

/-- The decimal of `t` units. -/
def decimalOf (p : ℤ) (k t : ℕ) : Digits :=
  ⟨Text.dropZeros (digits t), p + ((digits t).length - k)⟩

/-- The choice between `t` and `t + 1`. -/
def pick (inside : ℕ → Bool) (t : ℕ) (near : Bool) : Option ℕ :=
  if inside t && inside (t + 1) then some (if near then t else t + 1)
  else if inside t then some t
  else if inside (t + 1) then some (t + 1)
  else none

theorem pick_cases (inside : ℕ → Bool) (t : ℕ) (near : Bool) :
    (∃ u, inside u = true ∧ pick inside t near = some u
        ∧ (u = t ∧ (inside (t + 1) = true → near = true)
          ∨ u = t + 1 ∧ (inside t = true → near = false)))
      ∨ inside t = false ∧ inside (t + 1) = false ∧ pick inside t near = none := by
  unfold pick
  cases h₀ : inside t <;> cases h₁ : inside (t + 1) <;> cases near <;> simp [h₀, h₁]

/-- Whether `t` units of a grid are within an interval, with its ends or without. -/
def within (l h d up down : ℕ) (closed : Prop) [Decidable closed] (t : ℕ) : Bool :=
  if closed then l * up ≤ t * down * d && t * down * d ≤ h * up
  else l * up < t * down * d && t * down * d < h * up

theorem withDigits_eq {l n h d : ℕ} (hi : interval b = (l, n, h, d)) (p : ℤ) (k : ℕ) :
    let up := 10 ^ ((k : ℤ) - p).toNat
    let down := 10 ^ (p - k).toNat
    let t := n * up / (d * down)
    withDigits b p k = (pick (within l h d up down (b.significand % 2 = 0)) t
      (2 * (n * up - t * (d * down)) < d * down)).map (decimalOf p k) := by
  simp only [withDigits, hi, pick, within, decide_eq_true_eq]
  rfl

theorem within_iff {l h d up down : ℕ} (hd : 0 < d) (hu : 0 < up) (t : ℕ)
    (hl : (l : ℚ) / d = b.low) (hh : (h : ℚ) / d = b.high) :
    within l h d up down (b.significand % 2 = 0) t = true ↔ Rounds b (t * (down / up)) := by
  have hd : (0 : ℚ) < d := Nat.cast_pos.mpr hd
  have hu : (0 : ℚ) < up := Nat.cast_pos.mpr hu
  have hv : (t : ℚ) * (down / up) = ((t * down * d : ℕ) : ℚ) / (d * up) := by
    push_cast
    field_simp
  have he : ∀ a : ℕ, (a : ℚ) / d = ((a * up : ℕ) : ℚ) / (d * up) := by
    intro a
    push_cast
    field_simp
  have hp : (0 : ℚ) < d * up := mul_pos hd hu
  unfold within Rounds
  rw [hv, ← hl, ← hh, he, he, div_le_div_iff_of_pos_right hp, div_le_div_iff_of_pos_right hp,
    div_lt_div_iff_of_pos_right hp, div_lt_div_iff_of_pos_right hp]
  simp only [Nat.cast_le, Nat.cast_lt]
  split_ifs <;> simp

theorem floor_grid (b : Binary) (p : ℤ) (k : ℕ) :
    ⌊b.value / grid p k⌋₊ * grid p k ≤ b.value
      ∧ b.value < (⌊b.value / grid p k⌋₊ + 1 : ℕ) * grid p k := by
  have hg := grid_pos p k
  have hv : 0 ≤ b.value / grid p k := div_nonneg (value_nonneg b) hg.le
  refine ⟨(le_div_iff₀ hg).mp (Nat.floor_le hv), (div_lt_iff₀ hg).mp ?_⟩
  push_cast
  exact Nat.lt_floor_add_one _

theorem near_iff {n d up down : ℕ} (hd : 0 < d) (hu : 0 < up) :
    2 * (n * up - n * up / (d * down) * (d * down)) < d * down
      ↔ 2 * ((n : ℚ) / d - (n * up / (d * down) : ℕ) * (down / up)) < (down : ℚ) / up := by
  have hle : n * up / (d * down) * (d * down) ≤ n * up := Nat.div_mul_le_self _ _
  generalize n * up / (d * down) = t at hle ⊢
  have hd : (0 : ℚ) < d := Nat.cast_pos.mpr hd
  have hu : (0 : ℚ) < up := Nat.cast_pos.mpr hu
  have hl : 2 * ((n : ℚ) / d - t * (down / up))
      = ((2 * (n * up - t * (d * down)) : ℕ) : ℚ) / (d * up) := by
    push_cast [Nat.cast_sub hle]
    field_simp
  have hr : (down : ℚ) / up = ((d * down : ℕ) : ℚ) / (d * up) := by
    push_cast
    field_simp
  rw [hl, hr, div_lt_div_iff_of_pos_right (mul_pos hd hu), Nat.cast_lt]

theorem withDigits_eq_pick (hs : b.significand ≠ 0) (p : ℤ) (k : ℕ) : ∃ inside near,
    (∀ t : ℕ, inside t = true ↔ Rounds b (t * grid p k))
      ∧ (near = true ↔ 2 * (b.value - ⌊b.value / grid p k⌋₊ * grid p k) < grid p k)
      ∧ withDigits b p k = (pick inside ⌊b.value / grid p k⌋₊ near).map (decimalOf p k) := by
  obtain ⟨l, n, h, d, hi, hd, hl, hn, hh⟩ := interval_eq hs
  have ht : n * 10 ^ ((k : ℤ) - p).toNat / (d * 10 ^ (p - k).toNat) = ⌊b.value / grid p k⌋₊ := by
    rw [← Nat.floor_div_eq_div (K := ℚ), Nat.cast_mul, Nat.cast_mul, mul_div_mul_comm, hn, grid_eq,
      div_div_eq_mul_div, mul_div_assoc]
  have hw := withDigits_eq hi p k
  dsimp only at hw
  rw [ht] at hw
  refine ⟨_, _, fun t => ?_, ?_, hw⟩
  · rw [within_iff hd (Nat.pow_pos (by decide)) t hl hh, grid_eq]
  · rw [← ht, ← hn, grid_eq, decide_eq_true_eq]
    exact near_iff hd (Nat.pow_pos (by decide))

/-- What the search on one grid finds: the number on the grid that is closest to the value, of those
that round to it. -/
structure Found (b : Binary) (p : ℤ) (k u : ℕ) : Prop where
  eq : withDigits b p k = some (decimalOf p k u)
  rounds : Rounds b (u * grid p k)
  le : u ≤ ⌊b.value / grid p k⌋₊ + 1
  closest : ∀ s : ℕ, Rounds b (s * grid p k) → |u * grid p k - b.value| ≤ |s * grid p k - b.value|

theorem Rounds.floor {s : ℕ} (hr : Rounds b (s * grid p k)) (h : s ≤ ⌊b.value / grid p k⌋₊) :
    Rounds b (⌊b.value / grid p k⌋₊ * grid p k) :=
  hr.between (rounds_value b)
    (mul_le_mul_of_nonneg_right (Nat.cast_le.mpr h) (grid_pos p k).le) (floor_grid b p k).1

theorem Rounds.floor_succ {s : ℕ} (hr : Rounds b (s * grid p k))
    (h : ⌊b.value / grid p k⌋₊ < s) : Rounds b ((⌊b.value / grid p k⌋₊ + 1 : ℕ) * grid p k) :=
  (rounds_value b).between hr (floor_grid b p k).2.le
    (mul_le_mul_of_nonneg_right (Nat.cast_le.mpr h) (grid_pos p k).le)

/-- The grid's number below the value is closest to it among those below, and among all when the
value is in the lower half. -/
theorem abs_floor_le {s : ℕ} (h : s ≤ ⌊b.value / grid p k⌋₊
      ∨ 2 * (b.value - ⌊b.value / grid p k⌋₊ * grid p k) < grid p k) :
    |⌊b.value / grid p k⌋₊ * grid p k - b.value| ≤ |s * grid p k - b.value| := by
  have hlo := (floor_grid b p k).1
  have hg := (grid_pos p k).le
  rw [abs_of_nonpos (sub_nonpos.mpr hlo)]
  rcases Nat.lt_or_ge ⌊b.value / grid p k⌋₊ s with hlt | hge
  · have hs := mul_le_mul_of_nonneg_right (Nat.cast_le (α := ℚ).mpr (Nat.succ_le_of_lt hlt)) hg
    have hn := h.resolve_left (Nat.not_le_of_lt hlt)
    rw [Nat.cast_succ, add_one_mul] at hs
    exact le_abs.mpr (.inl (by linarith))
  · have hs := mul_le_mul_of_nonneg_right (Nat.cast_le (α := ℚ).mpr hge) hg
    exact le_abs.mpr (.inr (by linarith))

/-- The grid's number above the value is closest to it among those above, and among all when the
value is not in the lower half. -/
theorem abs_floor_succ_le {s : ℕ} (h : ⌊b.value / grid p k⌋₊ < s
      ∨ ¬2 * (b.value - ⌊b.value / grid p k⌋₊ * grid p k) < grid p k) :
    |(⌊b.value / grid p k⌋₊ + 1 : ℕ) * grid p k - b.value| ≤ |s * grid p k - b.value| := by
  have hhi := (floor_grid b p k).2
  have hg := (grid_pos p k).le
  rw [abs_of_nonneg (sub_nonneg.mpr hhi.le)]
  rcases Nat.lt_or_ge ⌊b.value / grid p k⌋₊ s with hlt | hge
  · have hs := mul_le_mul_of_nonneg_right (Nat.cast_le (α := ℚ).mpr (Nat.succ_le_of_lt hlt)) hg
    exact le_abs.mpr (.inl (by linarith))
  · have hs := mul_le_mul_of_nonneg_right (Nat.cast_le (α := ℚ).mpr hge) hg
    have hn := h.resolve_left (Nat.not_lt_of_ge hge)
    rw [Nat.cast_succ, add_one_mul]
    exact le_abs.mpr (.inr (by linarith))

theorem withDigits_cases (hs : b.significand ≠ 0) (p : ℤ) (k : ℕ) : (∃ u, Found b p k u)
    ∨ withDigits b p k = none ∧ ∀ s : ℕ, ¬Rounds b (s * grid p k) := by
  obtain ⟨inside, near, hin, hnear, hw⟩ := withDigits_eq_pick hs p k
  rcases pick_cases inside ⌊b.value / grid p k⌋₊ near with
    ⟨u, hu, hp, ⟨rfl, hc⟩ | ⟨rfl, hc⟩⟩ | ⟨h₀, h₁, hp⟩
  · refine .inl ⟨_, by rw [hw, hp, Option.map_some], (hin _).mp hu, Nat.le_succ _, fun s hr => ?_⟩
    rcases Nat.lt_or_ge ⌊b.value / grid p k⌋₊ s with hlt | hge
    · exact abs_floor_le (.inr (hnear.mp (hc ((hin _).mpr (hr.floor_succ hlt)))))
    · exact abs_floor_le (.inl hge)
  · refine .inl ⟨_, by rw [hw, hp, Option.map_some], (hin _).mp hu, le_rfl, fun s hr => ?_⟩
    rcases Nat.lt_or_ge ⌊b.value / grid p k⌋₊ s with hlt | hge
    · exact abs_floor_succ_le (.inl hlt)
    · have hn := hc ((hin _).mpr (hr.floor hge))
      exact abs_floor_succ_le (.inr (mt hnear.mpr (ne_true_of_eq_false hn)))
  · refine .inr ⟨by rw [hw, hp, Option.map_none], fun s hr => ?_⟩
    rcases Nat.lt_or_ge ⌊b.value / grid p k⌋₊ s with hlt | hge
    · exact ne_true_of_eq_false h₁ ((hin _).mpr (hr.floor_succ hlt))
    · exact ne_true_of_eq_false h₀ ((hin _).mpr (hr.floor hge))

/-- The search on a grid finds a number if any on the grid rounds to the value. -/
theorem withDigits_isSome (hs : b.significand ≠ 0) {t : ℕ} (ht : Rounds b (t * grid p k)) :
    (withDigits b p k).isSome = true := by
  rcases withDigits_cases hs p k with ⟨u, hu⟩ | ⟨-, h⟩
  · rw [hu.eq]
    rfl
  · exact absurd ht (h t)

end Grid

/-! ## Seventeen digits suffice -/

theorem places_of_le {n d : ℕ} (hd : 0 < d) (h : d ≤ n) :
    Int.log 10 ((n : ℚ) / d) + 1 = (digits (n / d)).length := by
  have hf : ⌊(n : ℚ) / d⌋₊ = n / d := Nat.floor_div_eq_div n d
  have hv : 0 ≤ (n : ℚ) / d := by positivity
  have hlt := lt_pow_length_digits (n / d)
  have hle := pow_length_digits_le (Nat.div_pos h hd).ne'
  have hp := length_digits_pos (n / d)
  have he : ((digits (n / d)).length : ℤ) - 1 = ((digits (n / d)).length - 1 : ℕ) := by omega
  rw [← eq_sub_iff_add_eq]
  refine log_eq ?_ ?_
  · rw [he, zpow_natCast]
    rw [← hf] at hle
    exact_mod_cast (Nat.le_floor_iff hv).mp hle
  · rw [sub_add_cancel, zpow_natCast]
    rw [← hf] at hlt
    exact_mod_cast (Nat.floor_lt hv).mp hlt

/-- Below one the places are counted on the reciprocal, less what is no whole number of it. -/
theorem places_of_lt {n d : ℕ} (hn : 0 < n) (h : n < d) : 1 < (d + n - 1) / n
    ∧ Int.log 10 ((n : ℚ) / d) = -((digits ((d + n - 1) / n - 1)).length : ℤ) := by
  have hc : 1 < (d + n - 1) / n := by
    rw [Nat.lt_iff_add_one_le, Nat.le_div_iff_mul_le hn]
    omega
  obtain ⟨m, hm⟩ := Nat.exists_eq_succ_of_ne_zero (Nat.ne_zero_of_lt hc)
  have hlo : (m + 1) * n ≤ d + n - 1 := (Nat.le_div_iff_mul_le hn).mp hm.ge
  have hhi : d + n - 1 < (m + 1 + 1) * n := (Nat.div_lt_iff_lt_mul hn).mp (by omega)
  rw [Nat.succ_mul] at hlo
  rw [Nat.succ_mul] at hhi
  rw [hm, Nat.succ_sub_one]
  have hd : (0 : ℚ) < d := Nat.cast_pos.mpr (by omega)
  have hlt := lt_pow_length_digits m
  have hle := pow_length_digits_le (n := m) (by omega)
  obtain ⟨l, hl⟩ := Nat.exists_eq_succ_of_ne_zero (length_digits_pos m).ne'
  rw [hl, Nat.succ_sub_one] at hle
  rw [hl] at hlt ⊢
  refine ⟨by omega, log_eq ?_ ?_⟩
  · have : d ≤ n * 10 ^ (l + 1) :=
      calc d ≤ (m + 1) * n := by omega
        _ ≤ n * 10 ^ (l + 1) := by
          rw [Nat.mul_comm]
          exact Nat.mul_le_mul_left n hlt
    rw [le_div_iff₀ hd, zpow_neg, zpow_natCast, inv_mul_le_iff₀ (by positivity), mul_comm]
    exact_mod_cast this
  · have : n * 10 ^ l < d :=
      calc n * 10 ^ l ≤ m * n := by
            rw [Nat.mul_comm m]
            exact Nat.mul_le_mul_left n hle
        _ < d := by omega
    have he : -((l.succ : ℕ) : ℤ) + 1 = -(l : ℤ) := by
      push_cast
      ring
    rw [div_lt_iff₀ hd, he, zpow_neg, zpow_natCast, lt_inv_mul_iff₀ (by positivity), mul_comm]
    exact_mod_cast this

theorem places_eq {n d : ℕ} (hn : 0 < n) (hd : 0 < d) :
    places n d = Int.log 10 ((n : ℚ) / d) + 1 := by
  unfold places
  split_ifs with h
  · exact (places_of_le hd h).symm
  · obtain ⟨h₁, hl⟩ := places_of_lt hn (not_le.mp h)
    dsimp only
    rw [if_neg (by omega), hl]
    ring

/-- The number of places before the point, which is not positive for what begins with zeros behind
it. -/
def Binary.places (b : Binary) : ℤ :=
  Int.log 10 b.value + 1

theorem pow_places_le (hs : b.significand ≠ 0) :
    (10 : ℚ) ^ (b.places - 1) ≤ b.value ∧ b.value < 10 ^ b.places := by
  have hv : 0 < b.value := (low_pos hs).trans (low_lt_value b)
  rw [Binary.places, add_sub_cancel_right]
  exact ⟨Int.zpow_log_le_self (by decide) hv, Int.lt_zpow_succ_log_self (by decide) _⟩

/-- The grid of seventeen digits is finer than the doubles are. -/
theorem grid_lt (hf : Fits b.significand b.exponent) (hs : b.significand ≠ 0) :
    grid b.places 17 < (b.gap + 1 / 2) * 2 ^ b.exponent := by
  have hg : grid b.places 17 * 10 ^ 16 ≤ b.significand * 2 ^ b.exponent := by
    have he : b.places - (17 : ℕ) + (16 : ℕ) = b.places - 1 := by
      push_cast
      ring
    rw [grid, ← zpow_natCast, ← zpow_add₀ (by norm_num), he]
    exact (pow_places_le hs).1
  have hu := unit_pos b
  unfold Binary.gap
  split_ifs with h
  · rw [h.1] at hg
    push_cast at hg
    linarith
  · have hs : (b.significand : ℚ) < 2 ^ 53 := by exact_mod_cast hf.1
    have := mul_lt_mul_of_pos_right hs hu
    linarith

theorem seventeen_digits (hf : Fits b.significand b.exponent) (hs : b.significand ≠ 0) :
    (withDigits b b.places 17).isSome = true := by
  have hg := grid_lt hf hs
  obtain ⟨hlo, hhi⟩ := floor_grid b b.places 17
  have hb : b.low + b.gap * 2 ^ b.exponent = b.value := by
    unfold Binary.low Binary.value
    ring
  have hc : b.high = b.value + 1 / 2 * 2 ^ b.exponent := by
    unfold Binary.high Binary.value
    ring
  by_cases h : b.low < ⌊b.value / grid b.places 17⌋₊ * grid b.places 17
  · exact withDigits_isSome hs (rounds_of_lt h (hlo.trans_lt (value_lt_high b)))
  · refine withDigits_isSome hs (rounds_of_lt ((low_lt_value b).trans hhi) ?_)
    push_cast at hhi ⊢
    linarith

/-! ## The digits that are found -/

/-- The number that digits with a point stand for. -/
def Digits.value (x : Digits) : ℚ :=
  digitsValue x.digits * 10 ^ (x.point - x.digits.length)

theorem dropZeros_append (ds : List Char) :
    ds = Text.dropZeros ds ++ zeros (ds.length - (Text.dropZeros ds).length) := by
  have h := congrArg List.reverse
    (List.takeWhile_append_dropWhile (p := (· == '0')) (l := ds.reverse))
  have hz : ds.reverse.takeWhile (· == '0')
      = List.replicate (ds.reverse.takeWhile (· == '0')).length '0' := by
    refine List.eq_replicate_iff.mpr ⟨rfl, fun c hc => ?_⟩
    simpa using List.mem_takeWhile_imp hc
  rw [List.reverse_append, List.reverse_reverse, hz, List.reverse_replicate] at h
  have hl := congrArg List.length h
  unfold Text.dropZeros zeros
  rw [List.length_append, List.length_replicate] at hl
  rw [← hl, Nat.add_sub_cancel_left]
  exact h.symm

theorem getLast?_dropZeros (ds : List Char) : (Text.dropZeros ds).getLast? ≠ some '0' := by
  unfold Text.dropZeros
  rw [List.getLast?_reverse]
  intro h
  have := List.head?_dropWhile_not (· == '0') ds.reverse
  rw [h] at this
  exact absurd this (by decide)

/-- Digits without a zero at either end. -/
structure Digits.Trim (x : Digits) : Prop where
  isRow : IsRow x.digits
  ne_nil : x.digits ≠ []
  first : 10 ^ (x.digits.length - 1) ≤ digitsValue x.digits
  last : x.digits.getLast? ≠ some '0'

section Found

variable {p : ℤ} {k t : ℕ}

theorem digitsValue_dropZeros (t : ℕ) : t = digitsValue (Text.dropZeros (digits t))
    * 10 ^ ((digits t).length - (Text.dropZeros (digits t)).length) := by
  have h := congrArg digitsValue (dropZeros_append (digits t))
  rwa [digitsValue_append, digitsValue_zeros, length_zeros, Nat.add_zero, digitsValue_digits] at h

theorem length_dropZeros_le (ds : List Char) : (Text.dropZeros ds).length ≤ ds.length := by
  have h := congrArg List.length (dropZeros_append ds)
  rw [List.length_append, length_zeros] at h
  omega

theorem value_decimalOf (p : ℤ) (k t : ℕ) : (decimalOf p k t).value = t * grid p k := by
  have hl := length_dropZeros_le (digits t)
  have he : p + ((digits t).length - k) - (Text.dropZeros (digits t)).length
      = ((digits t).length - (Text.dropZeros (digits t)).length : ℕ) + (p - k) := by
    omega
  nth_rewrite 2 [digitsValue_dropZeros t]
  unfold Digits.value decimalOf grid
  dsimp only
  rw [he, zpow_add₀ (by norm_num), zpow_natCast]
  push_cast
  ring

theorem trim_decimalOf (ht : t ≠ 0) : (decimalOf p k t).Trim := by
  have hv := digitsValue_dropZeros t
  have hn : Text.dropZeros (digits t) ≠ [] := by
    intro h
    rw [h, digitsValue_nil, Nat.zero_mul] at hv
    exact ht hv
  have hp := List.length_pos_iff.mpr hn
  have hle := length_dropZeros_le (digits t)
  refine ⟨?_, hn, ?_, getLast?_dropZeros _⟩
  · have := isDigit_digits t
    rw [dropZeros_append (digits t)] at this
    exact (isRow_append.mp this).1
  · have h := pow_length_digits_le ht
    have he : (digits t).length - 1 = (Text.dropZeros (digits t)).length - 1
        + ((digits t).length - (Text.dropZeros (digits t)).length) := by
      omega
    rw [he, pow_add] at h
    exact Nat.le_of_mul_le_mul_right (h.trans_eq hv) (Nat.pow_pos (by decide))

theorem dropZeros_pow (k : ℕ) : Text.dropZeros (digits (10 ^ k)) = ['1'] := by
  have h₁ : digitValue '1' = 1 := rfl
  have hv : digitsValue ('1' :: zeros k) = 10 ^ k := by
    rw [digitsValue_cons, h₁, length_zeros, digitsValue_zeros, Nat.one_mul, Nat.add_zero]
  have hd := digits_digitsValue (k := k) (isRow_cons.mpr ⟨rfl, isRow_zeros k⟩)
    (by rw [List.length_cons, length_zeros]) (.inr hv.ge)
  rw [hv] at hd
  rw [hd, Text.dropZeros, List.reverse_cons, zeros, List.reverse_replicate,
    List.dropWhile_append_of_pos fun c hc => beq_iff_eq.mpr (List.eq_of_mem_replicate hc)]
  rfl

theorem length_decimalOf_le (hk : 0 < k) (ht : t ≤ 10 ^ k) :
    (decimalOf p k t).digits.length ≤ k := by
  rcases ht.eq_or_lt with rfl | ht
  · unfold decimalOf
    rw [dropZeros_pow]
    exact hk
  · exact (length_dropZeros_le _).trans ((length_digits_le hk).mpr ht)

theorem findSome?_range {α : Type} {f : ℕ → Option α} {x : α} : ∀ {n : ℕ},
    (List.range n).findSome? f = some x → ∃ k < n, f k = some x ∧ ∀ j < k, f j = none
  | 0, h => nomatch h
  | n + 1, h => by
    rw [List.range_succ, List.findSome?_append, Option.or_eq_some_iff] at h
    rcases h with h | ⟨hn, h⟩
    · obtain ⟨k, hk, hf, hj⟩ := findSome?_range h
      exact ⟨k, by omega, hf, hj⟩
    · refine ⟨n, n.lt_succ_self, by simpa using h, fun j hj => ?_⟩
      exact List.findSome?_eq_none_iff.mp hn j (List.mem_range.mpr hj)

end Found

theorem floor_grid_lt (hs : b.significand ≠ 0) (k : ℕ) :
    ⌊b.value / grid b.places k⌋₊ < 10 ^ k := by
  have hg := grid_pos b.places k
  have hv : 0 ≤ b.value / grid b.places k := div_nonneg (value_nonneg b) hg.le
  have he : (k : ℤ) + (b.places - k) = b.places := by ring
  rw [Nat.floor_lt hv, div_lt_iff₀ hg, Nat.cast_pow, Nat.cast_ofNat, grid, ← zpow_natCast,
    ← zpow_add₀ (by norm_num), he]
  exact (pow_places_le hs).2

section Shortest

variable (hs : b.significand ≠ 0)
include hs

theorem Found.ne_zero {p : ℤ} {k t : ℕ} (h : Found b p k t) : t ≠ 0 := by
  rintro rfl
  have := (low_pos hs).trans_le h.rounds.le.1
  rw [Nat.cast_zero, zero_mul] at this
  exact lt_irrefl _ this

theorem Found.le_pow {k t : ℕ} (h : Found b b.places k t) : t ≤ 10 ^ k :=
  h.le.trans (floor_grid_lt hs k)

/-- A decimal that rounds to a double has a neighbour on the grid of as many digits that does, and
that is no farther from the double. A decimal with places beyond that grid is below the power of ten
that the value is not below, and so that power is nearer. -/
theorem rounds_grid {k n : ℕ} {j : ℤ} (hr : Rounds b (n * 10 ^ j)) (hk : (digits n).length ≤ k) :
    ∃ t : ℕ, Rounds b (t * grid b.places k)
      ∧ |t * grid b.places k - b.value| ≤ |n * 10 ^ j - b.value| := by
  have hl := length_digits_pos n
  rcases le_or_gt (b.places - k) j with hj | hj
  · have he : ((j - (b.places - k)).toNat : ℤ) + (b.places - k) = j := by omega
    have ht : ((n * 10 ^ (j - (b.places - k)).toNat : ℕ) : ℚ) * grid b.places k = n * 10 ^ j := by
      rw [grid, Nat.cast_mul, Nat.cast_pow, Nat.cast_ofNat, mul_assoc, ← zpow_natCast,
        ← zpow_add₀ (by norm_num), he]
    exact ⟨_, ht ▸ hr, by rw [ht]⟩
  · have he : ((k - 1 : ℕ) : ℤ) + (b.places - k) = b.places - 1 := by omega
    have ht : ((10 ^ (k - 1) : ℕ) : ℚ) * grid b.places k = 10 ^ (b.places - 1) := by
      rw [grid, Nat.cast_pow, Nat.cast_ofNat, ← zpow_natCast, ← zpow_add₀ (by norm_num), he]
    have hn : (n : ℚ) ≤ 10 ^ ((digits n).length : ℤ) := by
      rw [zpow_natCast]
      exact_mod_cast (lt_pow_length_digits n).le
    have hle : (n : ℚ) * 10 ^ j ≤ 10 ^ (b.places - 1) :=
      calc (n : ℚ) * 10 ^ j ≤ 10 ^ ((digits n).length : ℤ) * 10 ^ j :=
            mul_le_mul_of_nonneg_right hn (zpow_nonneg (by norm_num) _)
        _ = 10 ^ ((digits n).length + j) := (zpow_add₀ (by norm_num) _ _).symm
        _ ≤ 10 ^ (b.places - 1) := zpow_le_zpow_right₀ (by norm_num) (by omega)
    have hv := (pow_places_le hs).1
    refine ⟨10 ^ (k - 1), ?_, ?_⟩ <;> rw [ht]
    · exact hr.between (rounds_value b) hle hv
    · rw [abs_of_nonpos (by linarith), abs_of_nonpos (by linarith)]
      linarith

variable (hf : Fits b.significand b.exponent)
include hf

/-- What the search finds, and that nothing is found with fewer digits. -/
theorem shortest_found : ∃ k t : ℕ, 0 < k ∧ k ≤ 17 ∧ Found b b.places k t
    ∧ shortest b = decimalOf b.places k t
    ∧ ∀ j, 0 < j → j < k → withDigits b b.places j = none := by
  have hn : 0 < b.num := Nat.mul_pos (Nat.pos_of_ne_zero hs) (Nat.two_pow_pos _)
  have hp : places b.num b.den = b.places := by
    rw [places_eq hn b.den_pos, num_div_den, Binary.places]
  have hsome : ((List.range 17).findSome? fun i => withDigits b b.places (i + 1)).isSome = true :=
    List.findSome?_isSome_iff.mpr ⟨16, by decide, seventeen_digits hf hs⟩
  obtain ⟨x, hx⟩ := Option.isSome_iff_exists.mp hsome
  obtain ⟨i, hi, hw, hj⟩ := findSome?_range hx
  rcases withDigits_cases hs b.places (i + 1) with ⟨t, ht⟩ | ⟨hd, -⟩
  · refine ⟨i + 1, t, i.succ_pos, hi, ht, ?_, fun j hj₀ hji => ?_⟩
    · unfold shortest
      rw [hp]
      dsimp only
      rw [hx, Option.getD_some]
      exact Option.some.inj (hw.symm.trans ht.eq)
    · have := hj (j - 1) (by omega)
      rwa [Nat.sub_add_cancel hj₀] at this
  · exact nomatch hw.symm.trans hd

end Shortest

/-- What makes digits tell a double: they round to it, no fewer digits do, and no digits that are as
few are closer. -/
structure Digits.Tells (x : Digits) (b : Binary) : Prop where
  trim : x.Trim
  rounds : Rounds b x.value
  le : ∀ (n : ℕ) (j : ℤ), Rounds b (n * 10 ^ j) → x.digits.length ≤ (Text.digits n).length
  closest : ∀ (n : ℕ) (j : ℤ), Rounds b (n * 10 ^ j) →
    (Text.digits n).length ≤ x.digits.length → |x.value - b.value| ≤ |n * 10 ^ j - b.value|

theorem tells_shortest (hf : Fits b.significand b.exponent) (hs : b.significand ≠ 0) :
    (shortest b).Tells b := by
  obtain ⟨k, t, hk, -, ht, h, hmin⟩ := shortest_found hs hf
  have hv : (shortest b).value = t * grid b.places k := by rw [h, value_decimalOf]
  have hle : (shortest b).digits.length ≤ k := h ▸ length_decimalOf_le hk (ht.le_pow hs)
  refine ⟨h ▸ trim_decimalOf (ht.ne_zero hs), hv ▸ ht.rounds, fun n j hr => ?_,
    fun n j hr hn => ?_⟩
  · obtain ⟨u, hu, -⟩ := rounds_grid hs hr le_rfl
    have hsome := withDigits_isSome hs hu
    refine hle.trans (Nat.le_of_not_lt fun hlt => ?_)
    rw [hmin _ (length_digits_pos n) hlt] at hsome
    exact Bool.false_ne_true hsome
  · obtain ⟨u, hu, hd⟩ := rounds_grid hs hr (hn.trans hle)
    rw [hv]
    exact (ht.closest u hu).trans hd

/-! ## The text -/

/-- Every layout of digits writes the number they stand for. -/
theorem layout_text {x : Digits} (h : x.Trim) : ∃ n j o, x.layout = (placed false n j o).text
    ∧ (n : ℚ) * 10 ^ (o.getD 0 - j) = x.value
    ∧ o = if -6 ≤ x.point - 1 ∧ x.point - 1 ≤ 20 then none else some (x.point - 1) := by
  obtain ⟨hrow, hne, hpow, -⟩ := h
  rcases x with ⟨ds, point⟩
  dsimp only at hrow hne hpow ⊢
  have hl := List.length_pos_iff.mpr hne
  unfold Digits.layout Digits.value
  dsimp only
  by_cases h₁ : (ds.length : ℤ) ≤ point ∧ point ≤ 21
  · rw [if_pos h₁, if_pos (by omega)]
    refine ⟨_, 0, none, whole_text hrow hne hpow _, ?_, rfl⟩
    have he : ((point.toNat - ds.length : ℕ) : ℤ) = point - ds.length := by omega
    rw [Option.getD_none, Nat.cast_zero, sub_zero, zpow_zero, mul_one, Nat.cast_mul, Nat.cast_pow,
      Nat.cast_ofNat, ← zpow_natCast, he]
  rw [if_neg h₁]
  by_cases h₂ : 0 < point ∧ point ≤ 21
  · rw [if_pos h₂, if_pos (by omega)]
    obtain ⟨k, hk⟩ : ∃ k : ℕ, point = k + 1 := ⟨(point - 1).toNat, by omega⟩
    have hp : point.toNat = k + 1 := by omega
    refine ⟨digitsValue ds, ds.length - (k + 1), none, ?_, ?_, rfl⟩
    · rw [hp]
      refine pointAfter_text hrow (by omega) (.inr ?_)
      rwa [show k + (ds.length - (k + 1)) = ds.length - 1 by omega]
    · rw [Option.getD_none, show (0 : ℤ) - (ds.length - (k + 1) : ℕ) = point - ds.length by omega]
  rw [if_neg h₂]
  by_cases h₃ : -6 < point ∧ point ≤ 0
  · rw [if_pos h₃, if_pos (by omega)]
    refine ⟨digitsValue ds, (-point).toNat + ds.length, none, zeros_text hrow hne _, ?_, rfl⟩
    rw [Option.getD_none, show (0 : ℤ) - ((-point).toNat + ds.length : ℕ) = point - ds.length by
      omega]
  · rw [if_neg h₃, if_neg (by omega)]
    refine ⟨digitsValue ds, ds.length - 1, some (point - 1), withExponent_text hrow (by omega) _,
      ?_, rfl⟩
    rw [Option.getD_some, show point - 1 - (ds.length - 1 : ℕ) = point - ds.length by omega]

section Text

variable {x y : Float} {u v : ℚ}

theorem format_eq (hb : magnitude x = .finite b) :
    format x = if b.significand = 0 then ['0'] else sign x ++ (shortest b).layout := by
  unfold format
  rw [hb]

theorem format_spells (hx : rational? x = some v) (hb : magnitude x = .finite b)
    (hs : b.significand ≠ 0) : ∃ w : WrittenNumber, Spells (format x) w
      ∧ w.negative = decide (v < 0) ∧ w.value = (if v < 0 then -1 else 1) * (shortest b).value
      ∧ w.exponent = if -6 ≤ (shortest b).point - 1 ∧ (shortest b).point - 1 ≤ 20 then none
        else some ((shortest b).point - 1) := by
  obtain ⟨n, j, o, hl, hv, ho⟩ := layout_text (tells_shortest (fits_of_magnitude hb) hs).trim
  have ht : format x = (placed (decide (v < 0)) n j o).text := by
    rw [format_eq hb, if_neg hs, hl, sign_eq hx, text_placed (decide _)]
    simp only [decide_eq_true_eq]
  refine ⟨_, ht ▸ spells_placed _ _ _ _, rfl, ?_, ho⟩
  rw [value_placed, mul_assoc, hv]
  simp only [decide_eq_true_eq]

theorem value_ne_zero_iff (hx : rational? x = some v) (hb : magnitude x = .finite b) :
    v ≠ 0 ↔ b.significand ≠ 0 := by
  obtain ⟨c, hc, hv⟩ := abs_rational? hx
  rw [hb] at hc
  cases hc
  rw [Ne, Ne, ← value_eq_zero, ← hv, abs_eq_zero]

theorem magnitude_of_rational? (hx : rational? x = some v) :
    ∃ b, magnitude x = .finite b ∧ v = if v < 0 then -b.value else b.value := by
  obtain ⟨b, hb, hv⟩ := abs_rational? hx
  refine ⟨b, hb, ?_⟩
  rw [← hv]
  split_ifs with h
  · rw [abs_of_neg h, neg_neg]
  · rw [abs_of_nonneg (not_lt.mp h)]

theorem shortest_pos (hb : magnitude x = .finite b) (hs : b.significand ≠ 0) :
    0 < (shortest b).value :=
  (low_pos hs).trans_le (tells_shortest (fits_of_magnitude hb) hs).rounds.le.1

theorem shortest_inj (hb : magnitude x = .finite b) (hs : b.significand ≠ 0)
    (hc : magnitude y = .finite c) (ht : c.significand ≠ 0)
    (h : (shortest b).value = (shortest c).value) : b = c :=
  Rounds.unique (fits_of_magnitude hb) (fits_of_magnitude hc)
    (h ▸ (tells_shortest (fits_of_magnitude hb) hs).rounds)
    (tells_shortest (fits_of_magnitude hc) ht).rounds

/-- Also zero is read again. -/
theorem format_value (hx : rational? x = some v) (hb : magnitude x = .finite b) :
    ∃ w : WrittenNumber, Spells (format x) w
      ∧ w.value = if v = 0 then 0 else (if v < 0 then -1 else 1) * (shortest b).value := by
  by_cases hv : v = 0
  · have hs : b.significand = 0 := by
      by_contra hs
      exact (value_ne_zero_iff hx hb).mpr hs hv
    rw [format_eq hb, if_pos hs]
    exact ⟨placed false 0 0 none, spells_placed false 0 0 none, by
      rw [if_pos hv, value_placed, Nat.cast_zero, mul_zero, zero_mul]⟩
  · obtain ⟨w, hw, -, hval, -⟩ := format_spells hx hb ((value_ne_zero_iff hx hb).mp hv)
    exact ⟨w, hw, by rw [if_neg hv, hval]⟩

/-- What the text of a number is read as tells the number. -/
theorem eq_of_format_eq (hx : rational? x = some u) (hy : rational? y = some v)
    (h : format x = format y) : u = v := by
  obtain ⟨b, hb, hu⟩ := magnitude_of_rational? hx
  obtain ⟨c, hc, hv⟩ := magnitude_of_rational? hy
  obtain ⟨w, ⟨-, hw⟩, hval⟩ := format_value hx hb
  obtain ⟨w', ⟨-, hw'⟩, hval'⟩ := format_value hy hc
  rw [h, hw'] at hw
  cases hw
  rw [hval] at hval'
  by_cases hu₀ : u = 0 <;> by_cases hv₀ : v = 0
  · rw [hu₀, hv₀]
  · have := shortest_pos hc ((value_ne_zero_iff hy hc).mp hv₀)
    rw [if_pos hu₀, if_neg hv₀] at hval'
    split_ifs at hval' <;> linarith
  · have := shortest_pos hb ((value_ne_zero_iff hx hb).mp hu₀)
    rw [if_neg hu₀, if_pos hv₀] at hval'
    split_ifs at hval' <;> linarith
  · have hs := (value_ne_zero_iff hx hb).mp hu₀
    have ht := (value_ne_zero_iff hy hc).mp hv₀
    have h₁ := shortest_pos hb hs
    have h₂ := shortest_pos hc ht
    rw [if_neg hu₀, if_neg hv₀] at hval'
    rw [hu, hv]
    split_ifs at hval' ⊢ with hu₁ hv₁ hv₁
    · rw [shortest_inj hb hs hc ht (by linarith)]
    · linarith
    · linarith
    · rw [shortest_inj hb hs hc ht (by linarith)]

theorem format_congr (hx : rational? x = some v) (hy : rational? y = some v) :
    format x = format y := by
  obtain ⟨b, hb, hu⟩ := abs_rational? hx
  obtain ⟨c, hc, hv⟩ := abs_rational? hy
  have hbc : b = c :=
    (value_inj (fits_of_magnitude hb) (fits_of_magnitude hc)).mp (hu.symm.trans hv)
  rw [format_eq hb, format_eq hc, sign_eq hx, sign_eq hy, hbc]

/-- The text of a number writes the shortest decimal that rounds to it, and loses nothing of it. -/
theorem format_lossless (hx : rational? x = some u) (hy : rational? y = some v) :
    (u ≠ 0 → ∃ b, magnitude x = .finite b ∧ (shortest b).Tells b ∧ ∃ w : WrittenNumber,
        let k := (shortest b).digits.length
        let e := (shortest b).point - 1
        Spells (format x) w ∧ w.negative = decide (u < 0)
          ∧ w.value = (if u < 0 then -1 else 1)
            * (digitsValue (shortest b).digits * 10 ^ (e - (k - 1)))
          ∧ w.exponent = if -6 ≤ e ∧ e ≤ 20 then none else some e)
      ∧ (u = 0 → format x = ['0'])
      ∧ (format x = format y ↔ (x == y) = true) := by
  obtain ⟨b, hb, -⟩ := abs_rational? hx
  have hs := value_ne_zero_iff hx hb
  refine ⟨fun hu => ?_, fun hu => ?_, ?_⟩
  · obtain ⟨w, hw, hn, hval, he⟩ := format_spells hx hb (hs.mp hu)
    refine ⟨b, hb, tells_shortest (fits_of_magnitude hb) (hs.mp hu), w, hw, hn, ?_, he⟩
    rw [hval, Digits.value, sub_sub_sub_cancel_right]
  · rw [format_eq hb, if_pos (not_not.mp (mt hs.mpr (not_not.mpr hu)))]
  · rw [rational?_eq_iff hx hy]
    exact ⟨eq_of_format_eq hx hy, fun h => format_congr (h ▸ hx) hy⟩

theorem rational?_after_nine_and_half :
    rational? (Float.ofBits 0x4023000000000001) = some (5348024557502465 / 2 ^ 49) := by
  refine rational?_eq_some.mpr ⟨⟨0x13000000000001, -49⟩, rfl, ?_⟩
  have hn : isNegative (Float.ofBits 0x4023000000000001) = false := rfl
  rw [signed, hn, Binary.value]
  norm_num

/-- Two doubles next to each other. -/
theorem format_lossless_neighbours : rational? (Float.ofBits 0x4023000000000000) = some (19 / 2)
    ∧ rational? (Float.ofBits 0x4023000000000001) = some (5348024557502465 / 2 ^ 49)
    ∧ format (Float.ofBits 0x4023000000000000) ≠ format (Float.ofBits 0x4023000000000001) := by
  obtain ⟨-, -, h⟩ := format_lossless rational?_nine_and_half rational?_after_nine_and_half
  exact ⟨rational?_nine_and_half, rational?_after_nine_and_half,
    fun he => absurd (h.mp he) (by decide +kernel)⟩

end Text

end Tale.Decimal
