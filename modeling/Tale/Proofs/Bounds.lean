import Mathlib
import Tale.Document.Bounds
import Tale.Proofs.Headers

/-!
# The forms of bounds

A bound is written as `n`, `a-b`, `a-` or `-b` (`Bounds.Written`). A text with at most one dash is
accepted exactly if it is one of these, but for a dash alone, which bounds nothing. Of a text with
more dashes only what stands before the second one is read, and the rest is dropped without an
error (`parse_forms`).
-/

namespace Tale.Bounds

open Document (Bounding isBoundChar)
open Text (isDigit digitsValue splitAtChar_last splitAtChar_append)

variable {as bs ds t : List Char} {a n : ℕ} {b : Bounds}

/-- Digits that write a number of a machine word. -/
structure Numeral (ds : List Char) (n : ℕ) : Prop where
  ne_nil : ds ≠ []
  digits : ∀ c ∈ ds, isDigit c = true
  value : digitsValue ds = n
  fits : n < 2 ^ 64

/-- The bounds that a text writes in one of the four forms. -/
inductive Written : Bounds → List Char → Prop
  | exactly {n : ℕ} {ds : List Char} (h : Numeral ds n) : Written ⟨some n, some n⟩ ds
  | between {a b : ℕ} {as bs : List Char} (ha : Numeral as a) (hb : Numeral bs b) :
    Written ⟨some a, some b⟩ (as ++ '-' :: bs)
  | onward {a : ℕ} {as : List Char} (ha : Numeral as a) : Written ⟨some a, none⟩ (as ++ ['-'])
  | upTo {b : ℕ} {bs : List Char} (hb : Numeral bs b) : Written ⟨none, some b⟩ ('-' :: bs)

/-! ## Dashes -/

theorem not_dash (h : ∀ c ∈ ds, isDigit c = true) : ∀ c ∈ ds, c ≠ '-' := by
  rintro c hc rfl
  exact absurd (h _ hc) (by decide)

/-- A text with a dash and no other is cut at it. -/
theorem exists_dash (h : t.count '-' = 1) :
    ∃ as bs, t = as ++ '-' :: bs ∧ (∀ c ∈ as, c ≠ '-') ∧ ∀ c ∈ bs, c ≠ '-' := by
  obtain ⟨as, bs, rfl, has⟩ := List.eq_append_cons_of_mem (List.count_pos_iff.mp (h ▸ Nat.one_pos))
  rw [List.count_append, List.count_cons_self, List.count_eq_zero.mpr has] at h
  have hbs : '-' ∉ bs := List.count_eq_zero.mp (by omega)
  exact ⟨as, bs, rfl, fun _ hc => ne_of_mem_of_not_mem hc has,
    fun _ hc => ne_of_mem_of_not_mem hc hbs⟩

theorem isDigit_of_boundChar {c : Char} (h : isBoundChar c = true) (hc : c ≠ '-') :
    isDigit c = true := by
  rw [isBoundChar, Bool.or_eq_true, beq_iff_eq] at h
  exact h.resolve_right hc

/-! ## Ends -/

theorem end?_eq (hd : ∀ c ∈ ds, isDigit c = true) (hn : ds ≠ []) :
    Bounds.end? ds = if digitsValue ds < 2 ^ 64 then some (some (digitsValue ds)) else none := by
  rw [end?, List.isEmpty_eq_false_iff.mpr hn, if_neg Bool.false_ne_true, Text.numeral?_row hd hn,
    apply_ite (Option.map some)]
  rfl

theorem Numeral.end? (h : Numeral ds n) : end? ds = some (some n) := by
  rw [end?_eq h.digits h.ne_nil, h.value, if_pos h.fits]

theorem numeral_of_end? (hd : ∀ c ∈ ds, isDigit c = true) (h : Bounds.end? ds = some (some n)) :
    Numeral ds n := by
  have hn : ds ≠ [] := by
    rintro rfl
    cases h
  rw [end?_eq hd hn] at h
  split_ifs at h with hlt
  cases h
  exact ⟨hn, hd, rfl, hlt⟩

theorem eq_nil_of_end? (h : Bounds.end? ds = some none) : ds = [] := by
  rw [Bounds.end?] at h
  split_ifs at h with hn
  · exact List.isEmpty_iff.mp hn
  · simp at h

/-! ## Forms -/

theorem read?_last (h : ∀ c ∈ ds, c ≠ '-') : read? ds = (end? ds).map fun n => ⟨n, n⟩ := by
  rw [read?, splitAtChar_last h]

theorem read?_dash (ha : ∀ c ∈ as, c ≠ '-') (hb : ∀ c ∈ bs, c ≠ '-') :
    read? (as ++ '-' :: bs) = some b ↔ end? as = some b.lower ∧ end? bs = some b.upper := by
  have hread : read? (as ++ '-' :: bs)
      = (end? as).bind fun l => (end? bs).bind fun u => some ⟨l, u⟩ := by
    rw [read?, splitAtChar_append ha, splitAtChar_last hb]
    rfl
  rcases b with ⟨lower, upper⟩
  simp [hread, Option.bind_eq_some_iff]

/-- What follows a second dash is not looked at. -/
theorem read?_dashes (ha : ∀ c ∈ as, c ≠ '-') (hb : ∀ c ∈ bs, c ≠ '-') (rest : List Char) :
    read? (as ++ '-' :: (bs ++ '-' :: rest)) = read? (as ++ '-' :: bs) := by
  rw [read?, splitAtChar_append ha, splitAtChar_append hb, read?, splitAtChar_append ha,
    splitAtChar_last hb]

theorem Written.read? (h : Written b t) : read? t = some b := by
  cases h with
  | exactly h =>
    rw [read?_last (not_dash h.digits), h.end?]
    rfl
  | between ha hb =>
    exact (read?_dash (not_dash ha.digits) (not_dash hb.digits)).mpr ⟨ha.end?, hb.end?⟩
  | onward ha => exact (read?_dash (not_dash ha.digits) (List.forall_mem_nil _)).mpr ⟨ha.end?, rfl⟩
  | upTo hb => exact (read?_dash (List.forall_mem_nil _) (not_dash hb.digits)).mpr ⟨rfl, hb.end?⟩

/-- A bound that is read was written. An end is missing exactly if nothing is written for it. -/
theorem written_of_read? (ht : Bounding t) (hc : t.count '-' ≤ 1) (hne : t ≠ ['-'])
    (h : Bounds.read? t = some b) : Written b t := by
  obtain ⟨hnil, ht⟩ := ht
  rcases Nat.le_one_iff_eq_zero_or_eq_one.mp hc with hzero | hone
  · have hd : ∀ c ∈ t, isDigit c = true := fun c hc =>
      isDigit_of_boundChar (ht c hc) (ne_of_mem_of_not_mem hc (List.count_eq_zero.mp hzero))
    rw [read?_last (not_dash hd), Option.map_eq_some_iff] at h
    obtain ⟨_ | n, hn, rfl⟩ := h
    · exact absurd (eq_nil_of_end? hn) hnil
    · exact .exactly (numeral_of_end? hd hn)
  · obtain ⟨as, bs, rfl, has, hbs⟩ := exists_dash hone
    have hda : ∀ c ∈ as, isDigit c = true := fun c hc =>
      isDigit_of_boundChar (ht c (List.mem_append_left _ hc)) (has c hc)
    have hdb : ∀ c ∈ bs, isDigit c = true := fun c hc =>
      isDigit_of_boundChar (ht c (List.mem_append_right _ (.tail _ hc))) (hbs c hc)
    obtain ⟨hlower, hupper⟩ := (read?_dash has hbs).mp h
    rcases b with ⟨_ | a, _ | b⟩
    · rw [eq_nil_of_end? hlower, eq_nil_of_end? hupper] at hne
      exact absurd rfl hne
    · rw [eq_nil_of_end? hlower]
      exact .upTo (numeral_of_end? hdb hupper)
    · rw [eq_nil_of_end? hupper]
      exact .onward (numeral_of_end? hda hlower)
    · exact .between (numeral_of_end? hda hlower) (numeral_of_end? hdb hupper)

theorem Written.count_dash (h : Written b t) : t.count '-' ≤ 1 := by
  have hzero {ds : List Char} {n : ℕ} (h : Numeral ds n) : ds.count '-' = 0 :=
    List.count_eq_zero.mpr fun hc => not_dash h.digits _ hc rfl
  cases h with
  | exactly h => simp [hzero h]
  | between ha hb => simp [hzero ha, hzero hb]
  | onward ha => simp [hzero ha]
  | upTo hb => simp [hzero hb]

theorem Written.exists_digit (h : Written b t) : ∃ c ∈ t, isDigit c = true := by
  have hdigit {ds : List Char} {n : ℕ} (h : Numeral ds n) : ∃ c ∈ ds, isDigit c = true := by
    obtain ⟨c, hc⟩ := List.exists_mem_of_ne_nil ds h.ne_nil
    exact ⟨c, hc, h.digits c hc⟩
  cases h with
  | exactly h => exact hdigit h
  | between ha _ =>
    obtain ⟨c, hc, h⟩ := hdigit ha
    exact ⟨c, List.mem_append_left _ hc, h⟩
  | onward ha =>
    obtain ⟨c, hc, h⟩ := hdigit ha
    exact ⟨c, List.mem_append_left _ hc, h⟩
  | upTo hb =>
    obtain ⟨c, hc, h⟩ := hdigit hb
    exact ⟨c, .tail _ hc, h⟩

/-! ## Bounds of contents -/

variable {name : String}

theorem parse_eq_ok {t : String} : parse (some t) name = .ok b ↔ read? t.toList = some b := by
  rw [parse]
  rcases read? t.toList with _ | bounds <;> simp

theorem parse_eq_error {t : String} :
    parse (some t) name = .error ⟨.bound t name, none⟩ ↔ read? t.toList = none := by
  rw [parse]
  rcases read? t.toList with _ | bounds <;> simp

/-- What is read of a text that can stand in a header. With at most one dash the text is one of the
forms, or it is refused; only a dash alone is accepted without being a form. With more dashes the
text stands for what precedes its second dash. -/
theorem parse_forms (t name : String) (ht : Bounding t.toList) :
    ((∀ b, parse (some t) name ≠ .ok b)
      ↔ parse (some t) name = .error ⟨.bound t name, none⟩)
    ∧ (SourceError.Cause.bound t name).text
      = "Invalid bound " ++ Text.inQuotes t ++ " of section content " ++ name
    ∧ (t.toList.count '-' ≤ 1 → t.toList ≠ ['-']
      → ∀ b, parse (some t) name = .ok b ↔ Written b t.toList)
    ∧ (t.toList = ['-'] → parse (some t) name = .ok ⟨none, none⟩)
    ∧ ∀ front rest, t.toList = front ++ '-' :: rest → front.count '-' = 1
      → ∀ b, parse (some t) name = .ok b ↔ parse (some (String.ofList front)) name = .ok b := by
  refine ⟨?_, rfl, fun hc hne b => ?_, fun h => ?_, fun front rest h hc b => ?_⟩
  · simp only [ne_eq, parse_eq_ok, parse_eq_error, Option.eq_none_iff_forall_ne_some]
  · rw [parse_eq_ok]
    exact ⟨written_of_read? ht hc hne, Written.read?⟩
  · rw [parse_eq_ok, h]
    rfl
  · obtain ⟨as, bs, rfl, has, hbs⟩ := exists_dash hc
    rw [parse_eq_ok, parse_eq_ok, h, String.toList_ofList, List.append_assoc, List.cons_append,
      read?_dashes has hbs]

theorem parse_forms_mixed :
    (Bounding "2-5".toList ∧ "2-5".toList.count '-' ≤ 1 ∧ "2-5".toList ≠ ['-']
      ∧ ∀ b, parse (some "2-5") "s@2-5" = .ok b ↔ Written b "2-5".toList)
    ∧ (Bounding "-".toList ∧ parse (some "-") "s@-" = .ok ⟨none, none⟩)
    ∧ Bounding "-7--9".toList ∧ "-7--9".toList = "-7".toList ++ '-' :: "-9".toList
      ∧ "-7".toList.count '-' = 1
      ∧ ∀ b, parse (some "-7--9") "s@-7--9" = .ok b ↔ parse (some "-7") "s@-7--9" = .ok b := by
  have hrange : Bounding "2-5".toList := ⟨by decide, List.all_eq_true.mp (by decide)⟩
  have hdash : Bounding "-".toList := ⟨by decide, List.all_eq_true.mp (by decide)⟩
  have hdashes : Bounding "-7--9".toList := ⟨by decide, List.all_eq_true.mp (by decide)⟩
  refine ⟨⟨hrange, by decide +kernel, by decide +kernel, ?_⟩, ⟨hdash, ?_⟩, hdashes, rfl,
    by decide +kernel, ?_⟩
  · exact (parse_forms "2-5" "s@2-5" hrange).2.2.1 (by decide +kernel) (by decide +kernel)
  · exact (parse_forms "-" "s@-" hdash).2.2.2.1 rfl
  · exact (parse_forms "-7--9" "s@-7--9" hdashes).2.2.2.2 "-7".toList "-9".toList rfl
      (by decide +kernel)

/-- Two texts that are no form and are accepted: numbers after the first two are dropped, and a
dash without a number bounds nothing. -/
theorem parse_forms_dashes :
    ((∀ b, ¬ Written b "1-2-3".toList)
      ∧ parse (some "1-2-3") "s@1-2-3" = .ok ⟨some 1, some 2⟩)
    ∧ (∀ b, ¬ Written b "-".toList) ∧ parse (some "-") "s@-" = .ok ⟨none, none⟩ := by
  refine ⟨⟨fun b h => ?_, by decide +kernel⟩, fun b h => ?_, by decide +kernel⟩
  · have hcount := h.count_dash
    revert hcount
    decide +kernel
  · obtain ⟨c, hc, hdigit⟩ := h.exists_digit
    obtain rfl := List.mem_singleton.mp hc
    exact absurd hdigit (by decide)

end Tale.Bounds
