import Mathlib
import Tale.Library.Lists
import Tale.Proofs.Doubles
import Tale.Proofs.Outcomes

/-!
# Parts of lists

Each function that takes a part of a list looks at its numbers in an order and with bounds of its
own, and answers for exactly one range of whole numbers (`slice_eq_ok`, `splice_eq_ok`,
`chunk_eq_ok`); any other number, a fraction or none at all, is refused. The ranges fit together:
what is spliced stands between two slices, and chunks are a list cut at every so many elements
(`parts_agree`).
-/

namespace Tale.Library

open Decimal (whole? rational? whole?_eq_some)

/-! ## Whole numbers -/

theorem whole_unique {x : Float} {a b : ℤ} (ha : rational? x = some (a : ℚ))
    (hb : rational? x = some (b : ℚ)) : a = b :=
  Int.cast_injective (Option.some.inj (ha.symm.trans hb))

section Whole

variable {β : Type} {b : β} {e : Refusal}

/-- What a function answers for a number: `g` for a whole one, and a refusal for any other. -/
def ofWhole (y : Float) (e : Refusal) (g : ℤ → Except Refusal β) : Except Refusal β :=
  match whole? y with
  | none => throw e
  | some n => g n

theorem ofWhole_eq_ok {y : Float} {g : ℤ → Except Refusal β} :
    ofWhole y e g = .ok b ↔ ∃ n : ℤ, rational? y = some (n : ℚ) ∧ g n = .ok b := by
  simp only [ofWhole, ← whole?_eq_some]
  rcases whole? y with _ | n
  · exact iff_of_false nofun nofun
  · simp only [Option.some.injEq, exists_eq_left']

end Whole

namespace Lists

/-! ## Ranges -/

variable {l xs : List Value} {x y : Float} {v : Value}

theorem startIndex_eq_ok {n i : ℕ} : startIndex x n = .ok i
    ↔ ∃ a : ℤ, rational? x = some (a : ℚ) ∧ 0 ≤ a ∧ a ≤ n ∧ i = a.toNat := by
  simp only [startIndex, ← whole?_eq_some]
  rcases whole? x with _ | a
  · exact iff_of_false nofun nofun
  · simp only [Option.some.injEq, exists_eq_left', Bool.or_eq_true, decide_eq_true_eq]
    split_ifs with h
    · exact iff_of_false nofun (by omega)
    · rw [Except.ok.injEq]
      omega

theorem slice_eq_ok : slice [.list l, .number x, .number y] = .ok v ↔
    ∃ a b : ℤ, rational? x = some (a : ℚ) ∧ rational? y = some (b : ℚ)
      ∧ (0 ≤ a ∧ a ≤ b ∧ b ≤ l.length) ∧ v = .list ((l.take b.toNat).drop a.toNat) := by
  have h : slice [.list l, .number x, .number y] = (do
      let start ← startIndex x l.length
      ofWhole y (.endNotWhole y) fun n => do
        if n < 0 || l.length < n then throw (.endBeyond y l.length)
        if n < start then throw (.endBeforeStart start n.toNat)
        return .list ((l.take n.toNat).drop start)) := rfl
  simp only [h, bind_eq_ok, startIndex_eq_ok, ofWhole_eq_ok, guard_eq_ok, Bool.or_eq_true,
    decide_eq_true_eq]
  constructor
  · rintro ⟨_, ⟨a, ha, h₀, -, rfl⟩, b, hb, hn, hs, ⟨⟩⟩
    exact ⟨a, b, ha, hb, by omega, rfl⟩
  · rintro ⟨a, b, ha, hb, hab, rfl⟩
    exact ⟨a.toNat, ⟨a, ha, by omega, by omega, rfl⟩, b, hb, by omega, by omega, rfl⟩

theorem splice_eq_ok : splice [.list l, .number x, .number y, .list xs] = .ok v ↔
    ∃ s n : ℤ, rational? x = some (s : ℚ) ∧ rational? y = some (n : ℚ)
      ∧ (0 ≤ s ∧ 0 ≤ n ∧ s + n ≤ l.length)
      ∧ v = .list (l.take s.toNat ++ xs ++ l.drop (s.toNat + n.toNat)) := by
  have h : splice [.list l, .number x, .number y, .list xs] = (do
      let start ← startIndex x l.length
      ofWhole y .spliceNotWhole fun n => do
        if n < 0 then throw .spliceNegative
        if l.length < start + n then throw .spliceBeyond
        return .list (l.take start ++ xs ++ l.drop (start + n.toNat))) := rfl
  simp only [h, bind_eq_ok, startIndex_eq_ok, ofWhole_eq_ok, guard_eq_ok]
  constructor
  · rintro ⟨_, ⟨s, hs, h₀, -, rfl⟩, n, hn, hneg, hlen, ⟨⟩⟩
    exact ⟨s, n, hs, hn, by omega, rfl⟩
  · rintro ⟨s, n, hs, hn, hsn, rfl⟩
    exact ⟨s.toNat, ⟨s, hs, by omega, by omega, rfl⟩, n, hn, by omega, by omega, rfl⟩

theorem chunk_eq_ok : chunk [.list l, .number x] = .ok v ↔
    ∃ k : ℤ, rational? x = some (k : ℚ) ∧ 1 ≤ k
      ∧ v = .list ((chunks (k.toNat - 1) l).map .list) := by
  have h : chunk [.list l, .number x] = ofWhole x (.chunkSize x) fun n => do
      if n < 1 then throw (.chunkSize x)
      return .list ((chunks (n.toNat - 1) l).map .list) := rfl
  simp only [h, ofWhole_eq_ok, guard_eq_ok, not_lt]
  constructor
  · rintro ⟨k, hk, h₁, ⟨⟩⟩
    exact ⟨k, hk, h₁, rfl⟩
  · rintro ⟨k, hk, h₁, rfl⟩
    exact ⟨k, hk, h₁, rfl⟩

/-! ## Chunks -/

variable {k : ℕ} {c : List Value}

theorem flatten_chunks (k : ℕ) (l : List Value) : (chunks k l).flatten = l := by
  fun_induction chunks k l with
  | case1 => rfl
  | case2 v vs ih => rw [List.flatten_cons, ih, List.cons_append, List.take_append_drop]

theorem chunk_bounds (h : c ∈ chunks k l) : c ≠ [] ∧ c.length ≤ k + 1 := by
  fun_induction chunks k l with
  | case1 => cases h
  | case2 v vs ih =>
    rcases List.mem_cons.mp h with rfl | h
    · refine ⟨List.cons_ne_nil _ _, ?_⟩
      rw [List.length_cons, List.length_take]
      omega
    · exact ih h

/-- All chunks but the last one are full. A chunk is the last one exactly if nothing is left behind
it. -/
theorem length_chunk (h : c ∈ (chunks k l).dropLast) : c.length = k + 1 := by
  fun_induction chunks k l with
  | case1 => cases h
  | case2 v vs ih =>
    rcases hd : vs.drop k with _ | ⟨w, ws⟩
    · rw [hd, chunks] at h
      cases h
    · have hlt : k < vs.length := by
        rw [← List.drop_eq_nil_iff.not.trans not_le, hd]
        exact List.cons_ne_nil w ws
      have hne : chunks k (vs.drop k) ≠ [] := by
        rw [hd, chunks]
        exact List.cons_ne_nil _ _
      rw [List.dropLast_cons_of_ne_nil hne, List.mem_cons] at h
      rcases h with rfl | h
      · rw [List.length_cons, List.length_take_of_le hlt.le]
      · exact ih h

/-! ## Laws -/

/-- What is spliced stands between the slices before and after the part it replaces. -/
theorem splice_slices {s n : ℤ} {zero sum size : Float}
    (hv : splice [.list l, .number x, .number y, .list xs] = .ok v)
    (hs : rational? x = some (s : ℚ)) (hn : rational? y = some (n : ℚ))
    (hzero : rational? zero = some 0) (hsum : rational? sum = some ((s + n : ℤ) : ℚ))
    (hsize : rational? size = some (l.length : ℚ)) :
    ∃ before after, slice [.list l, .number zero, .number x] = .ok (.list before)
      ∧ slice [.list l, .number sum, .number size] = .ok (.list after)
      ∧ v = .list (before ++ xs ++ after) := by
  obtain ⟨s', n', hs', hn', hsn, rfl⟩ := splice_eq_ok.mp hv
  obtain rfl := whole_unique hs hs'
  obtain rfl := whole_unique hn hn'
  have hzero : rational? zero = some ((0 : ℤ) : ℚ) := by rw [hzero, Int.cast_zero]
  have hsize : rational? size = some ((l.length : ℤ) : ℚ) := by rw [hsize, Int.cast_natCast]
  refine ⟨l.take s.toNat, l.drop (s.toNat + n.toNat),
    slice_eq_ok.mpr ⟨0, s, hzero, hs, by omega, rfl⟩,
    slice_eq_ok.mpr ⟨s + n, l.length, hsum, hsize, by omega, ?_⟩, rfl⟩
  rw [Int.toNat_natCast, List.take_length, Int.toNat_add hsn.1 hsn.2.1]

theorem chunk_pieces {k : ℤ} (hv : chunk [.list l, .number x] = .ok v)
    (hk : rational? x = some (k : ℚ)) :
    ∃ cs : List (List Value), v = .list (cs.map .list) ∧ cs.flatten = l
      ∧ (∀ c ∈ cs, c ≠ [] ∧ c.length ≤ k) ∧ ∀ c ∈ cs.dropLast, c.length = k := by
  obtain ⟨k', hk', h₁, rfl⟩ := chunk_eq_ok.mp hv
  obtain rfl := whole_unique hk hk'
  refine ⟨chunks (k.toNat - 1) l, rfl, flatten_chunks _ l, fun c hc => ?_, fun c hc => ?_⟩
  · obtain ⟨hne, hle⟩ := chunk_bounds hc
    exact ⟨hne, by omega⟩
  · have := length_chunk hc
    omega

/-- A number that is not whole is refused wherever it stands. -/
theorem refused_part (l xs : List Value) (y : Float)
    (h : ∀ n : ℤ, rational? x ≠ some (n : ℚ)) :
    chunk [.list l, .number x] = .error (.chunkSize x)
    ∧ slice [.list l, .number x, .number y] = .error (.startNotWhole x)
    ∧ splice [.list l, .number x, .number y, .list xs] = .error (.startNotWhole x)
    ∧ (∃ e, slice [.list l, .number y, .number x] = .error e)
    ∧ ∃ e, splice [.list l, .number y, .number x, .list xs] = .error e := by
  have hx : whole? x = none :=
    Option.eq_none_iff_forall_ne_some.mpr fun n hn => h n (whole?_eq_some.mp hn)
  have hstart : startIndex x l.length = .error (.startNotWhole x) := by rw [startIndex, hx]
  refine ⟨?_, ?_, ?_, exists_error fun v hv => ?_, exists_error fun v hv => ?_⟩
  · show ofWhole x _ _ = _
    rw [ofWhole, hx]
    rfl
  · show startIndex x l.length >>= _ = _
    rw [hstart]
    rfl
  · show startIndex x l.length >>= _ = _
    rw [hstart]
    rfl
  · obtain ⟨_, n, -, hn, -⟩ := slice_eq_ok.mp hv
    exact h n hn
  · obtain ⟨_, n, -, hn, -⟩ := splice_eq_ok.mp hv
    exact h n hn

/-- Parts of a list are taken, replaced and counted off by the same places, and only by whole
numbers. -/
theorem parts_agree (l xs : List Value) (x y : Float) :
    ((∃ v, slice [.list l, .number x, .number y] = .ok v) ↔
      ∃ a b : ℤ, rational? x = some (a : ℚ) ∧ rational? y = some (b : ℚ)
        ∧ 0 ≤ a ∧ a ≤ b ∧ b ≤ l.length)
    ∧ ((∃ v, splice [.list l, .number x, .number y, .list xs] = .ok v) ↔
      ∃ s n : ℤ, rational? x = some (s : ℚ) ∧ rational? y = some (n : ℚ)
        ∧ 0 ≤ s ∧ 0 ≤ n ∧ s + n ≤ l.length)
    ∧ (∀ (v : Value) (s n : ℤ) (zero sum size : Float),
      splice [.list l, .number x, .number y, .list xs] = .ok v
        → rational? x = some (s : ℚ) → rational? y = some (n : ℚ) → rational? zero = some 0
        → rational? sum = some ((s + n : ℤ) : ℚ) → rational? size = some (l.length : ℚ)
        → ∃ before after, slice [.list l, .number zero, .number x] = .ok (.list before)
          ∧ slice [.list l, .number sum, .number size] = .ok (.list after)
          ∧ v = .list (before ++ xs ++ after))
    ∧ ((∃ v, chunk [.list l, .number x] = .ok v) ↔
      ∃ k : ℤ, rational? x = some (k : ℚ) ∧ 1 ≤ k)
    ∧ (∀ (v : Value) (k : ℤ), chunk [.list l, .number x] = .ok v → rational? x = some (k : ℚ)
      → ∃ cs : List (List Value), v = .list (cs.map .list) ∧ cs.flatten = l
        ∧ (∀ c ∈ cs, c ≠ [] ∧ c.length ≤ k) ∧ ∀ c ∈ cs.dropLast, c.length = k)
    ∧ ((∀ n : ℤ, rational? x ≠ some (n : ℚ))
      → chunk [.list l, .number x] = .error (.chunkSize x)
        ∧ slice [.list l, .number x, .number y] = .error (.startNotWhole x)
        ∧ splice [.list l, .number x, .number y, .list xs] = .error (.startNotWhole x)
        ∧ (∃ e, slice [.list l, .number y, .number x] = .error e)
        ∧ ∃ e, splice [.list l, .number y, .number x, .list xs] = .error e) := by
  refine ⟨?_, ?_, ?_, ?_, ?_, refused_part l xs y⟩
  · simp only [slice_eq_ok]
    exact ⟨fun ⟨_, a, b, ha, hb, hab, _⟩ => ⟨a, b, ha, hb, hab⟩,
      fun ⟨a, b, ha, hb, hab⟩ => ⟨_, a, b, ha, hb, hab, rfl⟩⟩
  · simp only [splice_eq_ok]
    exact ⟨fun ⟨_, s, n, hs, hn, hsn, _⟩ => ⟨s, n, hs, hn, hsn⟩,
      fun ⟨s, n, hs, hn, hsn⟩ => ⟨_, s, n, hs, hn, hsn, rfl⟩⟩
  · exact fun _ _ _ _ _ _ => splice_slices
  · simp only [chunk_eq_ok]
    exact ⟨fun ⟨_, k, hk, h₁, _⟩ => ⟨k, hk, h₁⟩, fun ⟨k, hk, h₁⟩ => ⟨_, k, hk, h₁, rfl⟩⟩
  · exact fun _ _ => chunk_pieces

/-- The second of three elements replaced, the three counted off by twos, and nothing counted off
by halves. -/
theorem parts_agree_trio :
    let l : List Value := [.null, .boolean true, .boolean false]
    let half := Float.ofBits 0x3fe0000000000000
    (∃ before after, slice [.list l, .number 0, .number 1] = .ok (.list before)
      ∧ slice [.list l, .number 2, .number 3] = .ok (.list after)
      ∧ Value.list [.null, .string "", .boolean false] = .list (before ++ [.string ""] ++ after))
    ∧ (∃ cs : List (List Value), Value.list [.list [.null, .boolean true], .list [.boolean false]]
        = .list (cs.map .list) ∧ cs.flatten = l ∧ (∀ c ∈ cs, c ≠ [] ∧ c.length ≤ (2 : ℤ))
      ∧ ∀ c ∈ cs.dropLast, c.length = (2 : ℤ))
    ∧ chunk [.list l, .number half] = .error (.chunkSize half) := by
  intro l half
  have hzero : rational? 0 = some ((0 : ℤ) : ℚ) := whole?_eq_some.mp (by decide +kernel)
  have hone : rational? 1 = some ((1 : ℤ) : ℚ) := whole?_eq_some.mp (by decide)
  have htwo : rational? 2 = some ((2 : ℤ) : ℚ) := whole?_eq_some.mp (by decide)
  have hthree : rational? 3 = some ((3 : ℤ) : ℚ) := whole?_eq_some.mp (by decide)
  have hhalf : ∀ n : ℤ, rational? half ≠ some (n : ℚ) := fun n hn =>
    nomatch (whole?_eq_some.mpr hn).symm.trans (show whole? half = none by decide +kernel)
  have hs : splice [.list l, .number 1, .number 1, .list [.string ""]]
      = .ok (.list [.null, .string "", .boolean false]) :=
    splice_eq_ok.mpr ⟨1, 1, hone, hone, by decide, rfl⟩
  have hc : chunk [.list l, .number 2]
      = .ok (.list [.list [.null, .boolean true], .list [.boolean false]]) :=
    chunk_eq_ok.mpr ⟨2, htwo, by decide, by simp [chunks, l]⟩
  refine ⟨(parts_agree l [.string ""] 1 1).2.2.1 _ 1 1 0 2 3 hs hone hone ?_ htwo ?_,
    (parts_agree l [] 2 2).2.2.2.2.1 _ 2 hc htwo, ((parts_agree l [] half 0).2.2.2.2.2 hhalf).1⟩
  · exact_mod_cast hzero
  · exact_mod_cast hthree

end Lists

end Tale.Library
