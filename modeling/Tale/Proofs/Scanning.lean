import Mathlib.Data.List.TakeDrop
import Mathlib.Data.List.TakeWhile
import Tale.Text.Numeral

/-!
# Scanning texts

A pattern is found at the head of a text exactly where it stands (`after?_eq_some`), and replaced
there (`replaceAll_here`); a class of characters is read up to the first that is not of it
(`span_eq`); a text is cut at the characters that separate its pieces, and nowhere else, or at the
last of them only (`splitLast?_eq_some`); and a row of digits is a numeral if its number stays below
the limit (`numeral?_row`).
-/

namespace Tale.Text

/-! ## Patterns -/

theorem after?_eq_some : ∀ {pat s r : List Char}, after? pat s = some r ↔ s = pat ++ r
  | [], s, r => by simp [after?]
  | p :: ps, [], r => by simp [after?]
  | p :: ps, c :: cs, r => by
    simp only [after?]
    split
    · next h => rw [after?_eq_some, h]; simp
    · next h =>
      refine ⟨by rintro ⟨⟩, fun hs => absurd (List.cons.inj hs).1.symm h⟩

theorem after?_eq_none {pat s : List Char} (h : ∀ r, s ≠ pat ++ r) : after? pat s = none := by
  cases ha : after? pat s with
  | none => rfl
  | some r => exact absurd (after?_eq_some.mp ha) (h r)

/-- A text is cut where a class of characters ends. -/
theorem takeWhile_dropWhile_eq {p : Char → Bool} {s as bs : List Char} :
    s.takeWhile p = as ∧ s.dropWhile p = bs
      ↔ s = as ++ bs ∧ (∀ c ∈ as, p c = true) ∧ ∀ c ∈ bs.head?, p c = false := by
  constructor
  · rintro ⟨rfl, rfl⟩
    refine ⟨List.takeWhile_append_dropWhile.symm, fun c => List.mem_takeWhile_imp, fun c hc => ?_⟩
    have := List.head?_dropWhile_not p s
    rwa [hc] at this
  · rintro ⟨rfl, has, hbs⟩
    rw [List.takeWhile_append_of_pos has, List.dropWhile_append_of_pos has]
    rcases bs with _ | ⟨b, bs⟩
    · exact ⟨List.append_nil as, rfl⟩
    · have hb : ¬ p b = true := Bool.not_eq_true _ ▸ hbs b rfl
      rw [List.takeWhile_cons_of_neg hb, List.dropWhile_cons_of_neg hb, List.append_nil]
      exact ⟨rfl, rfl⟩

theorem span_eq {p : Char → Bool} {s as bs : List Char} : s.span p = (as, bs)
    ↔ s = as ++ bs ∧ (∀ c ∈ as, p c = true) ∧ ∀ c ∈ bs.head?, p c = false := by
  rw [List.span_eq_takeWhile_dropWhile, Prod.mk.injEq, takeWhile_dropWhile_eq]

/-! ## Replacing -/

section Replacing

variable {p c : Char} {pat ps new s : List Char}

theorem replaceFrom_length : ∀ (a s : List Char),
    replaceFrom pat new a.length (a ++ s) = replaceFrom pat new 0 s
  | [], _ => rfl
  | _ :: a, s => replaceFrom_length a s

theorem replaceAll_here :
    replaceAll (p :: ps) new (p :: ps ++ s) = new ++ replaceAll (p :: ps) new s := by
  have hp : (p :: ps).isPrefixOf (p :: (ps ++ s)) = true :=
    List.isPrefixOf_iff_prefix.mpr (List.prefix_append (p :: ps) s)
  rw [List.cons_append, replaceAll, replaceFrom, List.isEmpty_cons, if_neg Bool.false_ne_true,
    if_pos hp, List.length_cons, Nat.add_sub_cancel, replaceFrom_length, replaceAll]

theorem replaceAll_cons (h : ¬ p :: ps <+: c :: s) :
    replaceAll (p :: ps) new (c :: s) = c :: replaceAll (p :: ps) new s := by
  have hp : (p :: ps).isPrefixOf (c :: s) = false :=
    Bool.eq_false_iff.mpr (mt List.isPrefixOf_iff_prefix.mp h)
  rw [replaceAll, replaceFrom, List.isEmpty_cons, hp, if_neg Bool.false_ne_true,
    if_neg Bool.false_ne_true, replaceAll]

/-- Where the first character of the pattern is missing there is nothing to replace. -/
theorem replaceAll_append : ∀ {a : List Char} (b : List Char), p ∉ a →
    replaceAll (p :: ps) new (a ++ b) = a ++ replaceAll (p :: ps) new b
  | [], _, _ => rfl
  | c :: a, b, h => by
    rw [List.mem_cons, not_or] at h
    rw [List.cons_append, replaceAll_cons fun hp => h.1 (List.cons_prefix_cons.mp hp).1,
      replaceAll_append b h.2, List.cons_append]

theorem replaceAll_of_not_mem (h : p ∉ s) : replaceAll (p :: ps) new s = s := by
  have hs : replaceAll (p :: ps) new (s ++ []) = s ++ replaceAll (p :: ps) new [] :=
    replaceAll_append [] h
  rwa [List.append_nil, show replaceAll (p :: ps) new [] = [] from rfl, List.append_nil] at hs

end Replacing

/-! ## Pieces -/

section Pieces

variable {sep : Char} {cs ds : List Char}

theorem splitAtChar_last (h : ∀ c ∈ cs, c ≠ sep) : splitAtChar sep cs = [cs] := by
  induction cs with
  | nil => rfl
  | cons c cs ih =>
    rw [List.forall_mem_cons] at h
    simp only [splitAtChar, if_neg h.1, ih h.2]

theorem splitAtChar_append (h : ∀ c ∈ cs, c ≠ sep) :
    splitAtChar sep (cs ++ sep :: ds) = cs :: splitAtChar sep ds := by
  induction cs with
  | nil => simp only [List.nil_append, splitAtChar, if_true]
  | cons c cs ih =>
    rw [List.forall_mem_cons] at h
    simp only [List.cons_append, splitAtChar, if_neg h.1, ih h.2]

theorem append_sep_inj {a b s t : List Char} (ha : sep ∉ a) (hb : sep ∉ b)
    (h : a ++ sep :: s = b ++ sep :: t) : a = b ∧ s = t := by
  have hab := congrArg (splitAtChar sep) h
  rw [splitAtChar_append fun _ hc => ne_of_mem_of_not_mem hc ha,
    splitAtChar_append fun _ hc => ne_of_mem_of_not_mem hc hb] at hab
  obtain rfl := (List.cons.inj hab).1
  exact ⟨rfl, (List.cons.inj (List.append_cancel_left h)).2⟩

theorem splitLast?_eq_none : splitLast? sep cs = none ↔ sep ∉ cs := by
  induction cs with
  | nil => simp [splitLast?]
  | cons c cs ih =>
    rw [splitLast?, List.mem_cons, not_or, ← ih]
    rcases splitLast? sep cs with _ | ⟨before, after⟩
    · simp [eq_comm]
    · simp

theorem splitLast?_append (h : sep ∉ cs) : ∀ before : List Char,
    splitLast? sep (before ++ sep :: cs) = some (before, cs)
  | [] => by simp only [List.nil_append, splitLast?, splitLast?_eq_none.mpr h, if_true]
  | c :: before => by simp only [List.cons_append, splitLast?, splitLast?_append h before]

/-- A text is cut at its last separator. -/
theorem splitLast?_eq_some {before after : List Char} :
    splitLast? sep cs = some (before, after) ↔ cs = before ++ sep :: after ∧ sep ∉ after := by
  refine ⟨fun h => ?_, fun ⟨hc, ha⟩ => hc ▸ splitLast?_append ha before⟩
  have hmem : sep ∈ cs := by
    by_contra hn
    rw [splitLast?_eq_none.mpr hn] at h
    cases h
  obtain ⟨as, bs, hr, ha⟩ := List.eq_append_cons_of_mem (List.mem_reverse.mpr hmem)
  have hc : cs = bs.reverse ++ sep :: as.reverse := by
    rw [← cs.reverse_reverse, hr]
    simp
  have ha : sep ∉ as.reverse := mt List.mem_reverse.mp ha
  rw [hc, splitLast?_append ha] at h
  cases h
  exact ⟨hc, ha⟩

/-- A text that ends in a line feed and has no other is a line, less a carriage return at its
end. -/
theorem lines_ended {l : List Char} (h : '\n' ∉ l) :
    ∃ l', lines (l ++ ['\n']) = [l'] ∧ (l' = l ∨ l = l' ++ ['\r']) := by
  have hs : splitAtChar '\n' (l ++ ['\n']) = [l, []] :=
    splitAtChar_append fun _ hc => ne_of_mem_of_not_mem hc h
  refine ⟨if l.getLast? == some '\r' then l.dropLast else l, by rw [lines, hs]; rfl, ?_⟩
  split_ifs with hr
  · obtain ⟨l, rfl⟩ := List.getLast?_eq_some_iff.mp (beq_iff_eq.mp hr)
    exact .inr (by rw [List.dropLast_concat])
  · exact .inl rfl

end Pieces

/-! ## Numerals -/

theorem numeral?_row {limit : Nat} {ds : List Char} (hd : ∀ c ∈ ds, isDigit c = true)
    (hn : ds ≠ []) :
    numeral? limit ds = if digitsValue ds < limit then some (digitsValue ds) else none := by
  have ha : after? ['+'] ds = none := by
    refine after?_eq_none fun r hr => ?_
    have := hd '+' (hr ▸ .head _)
    exact absurd this (by decide)
  simp only [numeral?, ha, Option.getD_none, List.isEmpty_eq_false_iff.mpr hn,
    List.all_eq_true.mpr hd, Bool.not_true, Bool.or_false, Bool.false_eq_true, if_false]

end Tale.Text
