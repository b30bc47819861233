import Mathlib
import Tale.Library.Texts
import Tale.Proofs.Parts

/-!
# Texts cut in code units

A cut may fall between the two code units of one character (`SplitsPair`). Decoding puts one mark
in place of each half, which is a code unit long again, so the length of a part is the number of
its units wherever it is cut (`unitLength_ofUnits`). A cut anywhere else is one between two
characters (`exists_append`), and the parts on its sides are the text (`cuts_agree`).
-/

namespace Tale

namespace Text

variable {c : Char} {s : List Char} {u v : Nat} {us vs : List Nat} {k : Nat}

theorem isHigh_iff : isHigh u = true ↔ 0xd800 ≤ u ∧ u < 0xdc00 := by
  simp [isHigh]

theorem isLow_iff : isLow u = true ↔ 0xdc00 ≤ u ∧ u < 0xe000 := by
  simp [isLow]

/-- A character is written as one unit that is no surrogate, or as a pair of surrogates. -/
theorem charUnits_cases (c : Char) :
    charUnits c = [c.toNat] ∧ isHigh c.toNat = false ∧ isLow c.toNat = false
      ∨ ∃ high low, charUnits c = [high, low] ∧ isHigh high = true ∧ isLow low = true
        ∧ paired high low = c := by
  have hv : c.toNat < 0xd800 ∨ 0xdfff < c.toNat ∧ c.toNat < 0x110000 := c.valid
  rw [charUnits]
  split_ifs with h
  · refine .inl ⟨rfl, ?_, ?_⟩ <;> rw [← Bool.not_eq_true]
    · rw [isHigh_iff]
      omega
    · rw [isLow_iff]
      omega
  · refine .inr ⟨_, _, rfl, isHigh_iff.mpr (by omega), isLow_iff.mpr (by omega), ?_⟩
    have hn : 0x10000 + (0xd800 + (c.toNat - 0x10000) / 0x400 - 0xd800) * 0x400
        + (0xdc00 + (c.toNat - 0x10000) % 0x400 - 0xdc00) = c.toNat := by
      omega
    rw [paired, hn, Char.ofNat_toNat]

theorem length_charUnits_paired (hu : isHigh u = true) (hv : isLow v = true) :
    (charUnits (paired u v)).length = 2 := by
  rw [isHigh_iff] at hu
  rw [isLow_iff] at hv
  have hn : (paired u v).toNat = 0x10000 + (u - 0xd800) * 0x400 + (v - 0xdc00) := by
    rw [paired, Char.toNat_ofNat, if_pos (.inr (by omega))]
  rw [charUnits, if_neg (by omega)]
  rfl

/-- A unit without a partner is read as a character of one unit. -/
theorem length_charUnits_lone (hu : u < 0x10000) :
    (charUnits (if isHigh u || isLow u then replacement else Char.ofNat u)).length = 1 := by
  split_ifs with h
  · rfl
  · rw [Bool.or_eq_true, isHigh_iff, isLow_iff] at h
    have hn : (Char.ofNat u).toNat = u := by
      rw [Char.toNat_ofNat, if_pos (by simp only [Nat.isValidChar]; omega)]
    rw [charUnits, hn, if_pos hu]
    rfl

/-! ## Lengths -/

theorem unitLength_cons (c : Char) (s : List Char) :
    unitLength (c :: s) = (charUnits c).length + unitLength s := by
  rw [unitLength, units, List.flatMap_cons, List.length_append]
  rfl

theorem unit_lt (hu : u ∈ units s) : u < 0x10000 := by
  obtain ⟨c, -, hc⟩ := List.mem_flatMap.mp hu
  rcases charUnits_cases c with ⟨h, -⟩ | ⟨high, low, h, hhigh, hlow, -⟩
  · by_contra hlt
    rw [h, List.mem_singleton] at hc
    rw [charUnits, if_neg (hc ▸ hlt)] at h
    exact nomatch (List.cons.inj h).2
  · rw [isHigh_iff] at hhigh
    rw [isLow_iff] at hlow
    rw [h] at hc
    simp only [List.mem_cons, List.not_mem_nil, or_false] at hc
    omega

/-- What units spell is as long as there are units. -/
theorem unitLength_ofUnits (h : ∀ u ∈ us, u < 0x10000) : unitLength (ofUnits us) = us.length := by
  fun_induction ofUnits us with
  | case1 => rfl
  | case2 u =>
    rw [unitLength_cons, length_charUnits_lone (h u (.head _))]
    rfl
  | case3 u v us hpair ih =>
    rw [Bool.and_eq_true] at hpair
    rw [unitLength_cons, length_charUnits_paired hpair.1 hpair.2,
      ih fun w hw => h w (.tail _ (.tail _ hw)), List.length_cons, List.length_cons]
    omega
  | case4 u v us hpair ih =>
    rw [unitLength_cons, length_charUnits_lone (h u (.head _)), ih fun w hw => h w (.tail _ hw),
      List.length_cons (a := u)]
    omega

/-! ## Cuts between characters -/

theorem ofUnits_charUnits_append (c : Char) (us : List Nat) :
    ofUnits (charUnits c ++ us) = c :: ofUnits us := by
  rcases charUnits_cases c with ⟨h, hhigh, hlow⟩ | ⟨high, low, h, hhigh, hlow, hc⟩
  · rw [h]
    rcases us with _ | ⟨v, us⟩ <;>
      simp only [List.cons_append, List.nil_append, ofUnits, hhigh, hlow, Bool.false_and,
        Bool.or_self, Bool.false_eq_true, if_false, Char.ofNat_toNat]
  · rw [h]
    simp only [List.cons_append, List.nil_append, ofUnits, hhigh, hlow, Bool.and_self, if_true, hc]

theorem ofUnits_units : ∀ s : List Char, ofUnits (units s) = s
  | [] => rfl
  | c :: s => by
    rw [units, List.flatMap_cons, ofUnits_charUnits_append]
    exact congrArg _ (ofUnits_units s)

/-- A high surrogate stands before a place, and a low one after it. -/
def SplitsPair (us : List Nat) (k : Nat) : Prop :=
  (us.take k).getLast?.any isHigh = true ∧ (us.drop k).head?.any isLow = true

instance : Decidable (SplitsPair us k) :=
  inferInstanceAs (Decidable (_ ∧ _))

theorem SplitsPair.append (h : SplitsPair us k) (vs : List Nat) :
    SplitsPair (vs ++ us) (vs.length + k) := by
  obtain ⟨hhigh, hlow⟩ := h
  obtain ⟨u, hu, hhigh⟩ := (Option.any_eq_true _ _).mp hhigh
  refine ⟨?_, ?_⟩
  · rw [List.take_length_add_append, List.getLast?_append, hu]
    exact hhigh
  · rwa [List.drop_length_add_append]

/-- A place that is not between two units of one character is between two characters. One before the
end of the first character is its beginning, or splits its pair. -/
theorem exists_append : ∀ {s : List Char} {k : Nat}, k ≤ unitLength s →
    ¬ SplitsPair (units s) k → ∃ p q, s = p ++ q ∧ unitLength p = k
  | [], k, hk, _ => ⟨[], [], rfl, (Nat.le_zero.mp hk).symm⟩
  | c :: s, k, hk, h => by
    rw [unitLength_cons] at hk
    by_cases hc : (charUnits c).length ≤ k
    · obtain ⟨k, rfl⟩ := Nat.exists_eq_add_of_le hc
      obtain ⟨p, q, rfl, rfl⟩ := exists_append (Nat.le_of_add_le_add_left hk)
        fun hs => h (hs.append (charUnits c))
      exact ⟨c :: p, q, rfl, unitLength_cons c p⟩
    · refine ⟨[], c :: s, rfl, ?_⟩
      rcases charUnits_cases c with ⟨hu, -⟩ | ⟨high, low, hu, hhigh, hlow, -⟩
      · rw [hu, List.length_singleton] at hc
        exact (Nat.lt_one_iff.mp (Nat.not_le.mp hc)).symm
      · rw [hu] at hc
        obtain rfl | rfl : k = 0 ∨ k = 1 := by
          rw [List.length_cons, List.length_singleton] at hc
          omega
        · rfl
        · refine absurd ⟨?_, ?_⟩ h <;> rw [units, List.flatMap_cons, hu]
          · exact hhigh
          · exact hlow

theorem take_units (p q : List Char) : (units (p ++ q)).take (unitLength p) = units p := by
  rw [units, List.flatMap_append]
  exact List.take_left

theorem drop_units (p q : List Char) : (units (p ++ q)).drop (unitLength p) = units q := by
  rw [units, List.flatMap_append]
  exact List.drop_left

end Text

namespace Library.Texts

open Decimal (whole? rational? whole?_eq_some)
open Text (units ofUnits unitLength SplitsPair)

variable {s : String} {x y : Float} {v : Value} {i j : ℕ}

theorem startIndex_eq_ok {n i : ℕ} : startIndex x n = .ok i
    ↔ ∃ a : ℤ, rational? x = some (a : ℚ) ∧ 0 ≤ a ∧ a ≤ n ∧ i = a.toNat := by
  simp only [startIndex, ← whole?_eq_some]
  rcases whole? x with _ | a
  · exact iff_of_false nofun nofun
  · simp only [Option.some.injEq, exists_eq_left']
    split_ifs with h₀ h₁
    · exact iff_of_false nofun (by omega)
    · exact iff_of_false nofun (by omega)
    · rw [Except.ok.injEq]
      omega

theorem subByIndex_eq_ok : subByIndex [.string s, .number x, .number y] = .ok v ↔
    ∃ a b : ℤ, rational? x = some (a : ℚ) ∧ rational? y = some (b : ℚ)
      ∧ (0 ≤ a ∧ a ≤ b ∧ b ≤ unitLength s.toList)
      ∧ v = between (units s.toList) a.toNat b.toNat := by
  have h : subByIndex [.string s, .number x, .number y] = (do
      let start ← startIndex x (unitLength s.toList)
      ofWhole y (.textEnd y) fun n => do
        if n < 0 then throw (.textEnd y)
        if n < start || unitLength s.toList < n then
          throw (.textEndBeyond start y (unitLength s.toList))
        return between (units s.toList) start n.toNat) := rfl
  simp only [h, bind_eq_ok, startIndex_eq_ok, ofWhole_eq_ok, guard_eq_ok, Bool.or_eq_true,
    decide_eq_true_eq]
  constructor
  · rintro ⟨_, ⟨a, ha, h₀, -, rfl⟩, b, hb, hneg, hn, ⟨⟩⟩
    exact ⟨a, b, ha, hb, by omega, rfl⟩
  · rintro ⟨a, b, ha, hb, hab, rfl⟩
    exact ⟨a.toNat, ⟨a, ha, by omega, by omega, rfl⟩, b, hb, by omega, by omega, rfl⟩

theorem subByLength_eq_ok : subByLength [.string s, .number x, .number y] = .ok v ↔
    ∃ a n : ℤ, rational? x = some (a : ℚ) ∧ rational? y = some (n : ℚ)
      ∧ (0 ≤ a ∧ 0 ≤ n ∧ a + n ≤ unitLength s.toList)
      ∧ v = between (units s.toList) a.toNat (a + n).toNat := by
  have h : subByLength [.string s, .number x, .number y] = (do
      let start ← startIndex x (unitLength s.toList)
      ofWhole y (.textLength y) fun n => do
        if n < 0 then throw (.textLength y)
        if unitLength s.toList < start + n then
          throw (.textLengthBeyond start y (unitLength s.toList))
        return between (units s.toList) start (start + n.toNat)) := rfl
  simp only [h, bind_eq_ok, startIndex_eq_ok, ofWhole_eq_ok, guard_eq_ok]
  constructor
  · rintro ⟨_, ⟨a, ha, h₀, -, rfl⟩, n, hn, hneg, hlen, ⟨⟩⟩
    refine ⟨a, n, ha, hn, by omega, ?_⟩
    rw [Int.toNat_add h₀ (not_lt.mp hneg)]
  · rintro ⟨a, n, ha, hn, han, rfl⟩
    refine ⟨a.toNat, ⟨a, ha, by omega, by omega, rfl⟩, n, hn, by omega, by omega, ?_⟩
    rw [Int.toNat_add han.1 han.2.1]
    rfl

theorem subByIndex_nat (hx : rational? x = some (i : ℚ)) (hy : rational? y = some (j : ℚ))
    (hij : i ≤ j) (hj : j ≤ unitLength s.toList) :
    subByIndex [.string s, .number x, .number y] = .ok (between (units s.toList) i j) :=
  subByIndex_eq_ok.mpr ⟨i, j, by exact_mod_cast hx, by exact_mod_cast hy, by omega, rfl⟩

/-- A part is as long as there are units between its ends, also if it begins or ends within a
pair. -/
theorem length_between (h : j ≤ unitLength s.toList) :
    length [between (units s.toList) i j] = .ok (.nat (j - i)) := by
  have hl : unitLength (ofUnits (((units s.toList).take j).drop i)) = j - i := by
    rw [Text.unitLength_ofUnits fun u hu => Text.unit_lt
      (List.mem_of_mem_take (List.mem_of_mem_drop hu)), List.length_drop, List.length_take_of_le h]
  show Except.ok (Value.nat (unitLength (String.ofList _).toList)) = _
  rw [String.toList_ofList, hl]

/-- The parts on both sides of a place between two characters. -/
theorem between_append {p q : List Char} (h : s.toList = p ++ q) :
    between (units s.toList) 0 (unitLength p) = .string (String.ofList p)
      ∧ between (units s.toList) (unitLength p) (unitLength s.toList)
        = .string (String.ofList q) := by
  have hall : (units s.toList).take (unitLength s.toList) = units s.toList := List.take_length
  refine ⟨?_, ?_⟩
  · rw [between, h, List.drop_zero, Text.take_units, Text.ofUnits_units]
  · rw [between, hall, h, Text.drop_units, Text.ofUnits_units]

/-- Parts given by their ends exist within the text only, are as long as their ends are apart, and
are the parts given by that length; two of them that meet between characters are the text. -/
theorem cuts_agree (s : String) (x y : Float) :
    ((∃ v, subByIndex [.string s, .number x, .number y] = .ok v) ↔
      ∃ a b : ℤ, rational? x = some (a : ℚ) ∧ rational? y = some (b : ℚ)
        ∧ 0 ≤ a ∧ a ≤ b ∧ b ≤ unitLength s.toList)
    ∧ (∀ (v : Value) (a b : ℤ) (z : Float), subByIndex [.string s, .number x, .number y] = .ok v
      → rational? x = some (a : ℚ) → rational? y = some (b : ℚ)
      → length [v] = .ok (.nat (b - a).toNat)
        ∧ (rational? z = some ((b - a : ℤ) : ℚ)
          → subByLength [.string s, .number x, .number z] = .ok v))
    ∧ ∀ (zero : Float) (k : ℕ), rational? zero = some 0 → rational? x = some (k : ℚ)
      → rational? y = some (unitLength s.toList : ℚ) → k ≤ unitLength s.toList
      → ¬ SplitsPair (units s.toList) k
      → ∃ t u, subByIndex [.string s, .number zero, .number x] = .ok (.string t)
        ∧ subByIndex [.string s, .number x, .number y] = .ok (.string u) ∧ t ++ u = s := by
  refine ⟨?_, ?_, ?_⟩
  · simp only [subByIndex_eq_ok]
    exact ⟨fun ⟨_, a, b, ha, hb, hab, _⟩ => ⟨a, b, ha, hb, hab⟩,
      fun ⟨a, b, ha, hb, hab⟩ => ⟨_, a, b, ha, hb, hab, rfl⟩⟩
  · intro v a b z hv ha hb
    obtain ⟨a', b', ha', hb', hab, rfl⟩ := subByIndex_eq_ok.mp hv
    obtain rfl := whole_unique ha ha'
    obtain rfl := whole_unique hb hb'
    refine ⟨?_, fun hz => subByLength_eq_ok.mpr ⟨a, b - a, ha, hz, by omega, ?_⟩⟩
    · rw [length_between (by omega)]
      congr 2
      omega
    · rw [add_sub_cancel]
  · intro zero k hzero hx hy hk hsplit
    obtain ⟨p, q, hs, rfl⟩ := Text.exists_append hk hsplit
    obtain ⟨hp, hq⟩ := between_append hs
    refine ⟨String.ofList p, String.ofList q, ?_, ?_, ?_⟩
    · rw [← hp]
      exact subByIndex_nat (by rw [hzero, Nat.cast_zero]) hx (Nat.zero_le _) hk
    · rw [← hq]
      exact subByIndex_nat hx hy hk le_rfl
    · rw [← String.ofList_append, ← hs, String.ofList_toList]

/-- Three characters in four units, cut within a pair and right behind it. -/
theorem cuts_agree_paired :
    let s := String.ofList ['a', Char.ofNat 0x1f600, 'b']
    let half := Value.string (String.ofList [Text.replacement])
    (length [half] = .ok (.nat 1)
      ∧ subByLength [.string s, .number 1, .number 1] = .ok half)
    ∧ ∃ t u, subByIndex [.string s, .number 0, .number 3] = .ok (.string t)
      ∧ subByIndex [.string s, .number 3, .number 4] = .ok (.string u) ∧ t ++ u = s := by
  intro s half
  have hs : units s.toList = [0x61, 0xd83d, 0xde00, 0x62] := by
    rw [String.toList_ofList]
    rfl
  have hl : unitLength s.toList = 4 := congrArg List.length hs
  have hzero : rational? 0 = some ((0 : ℤ) : ℚ) := whole?_eq_some.mp (by decide +kernel)
  have hone : rational? 1 = some ((1 : ℤ) : ℚ) := whole?_eq_some.mp (by decide)
  have htwo : rational? 2 = some ((2 : ℤ) : ℚ) := whole?_eq_some.mp (by decide)
  have hthree : rational? 3 = some ((3 : ℤ) : ℚ) := whole?_eq_some.mp (by decide)
  have hfour : rational? 4 = some ((4 : ℤ) : ℚ) := whole?_eq_some.mp (by decide)
  have hhalf : subByIndex [.string s, .number 1, .number 2] = .ok half :=
    subByIndex_eq_ok.mpr ⟨1, 2, hone, htwo, by rw [hl]; decide, by rw [hs]; rfl⟩
  obtain ⟨hlength, hsame⟩ := (cuts_agree s 1 2).2.1 half 1 2 1 hhalf hone htwo
  refine ⟨⟨hlength, hsame hone⟩, (cuts_agree s 3 4).2.2 0 3 ?_ ?_ ?_ ?_ ?_⟩
  · exact_mod_cast hzero
  · exact_mod_cast hthree
  · rw [hl]
    exact_mod_cast hfour
  · rw [hl]
    decide
  · rw [hs]
    decide

end Library.Texts

end Tale
