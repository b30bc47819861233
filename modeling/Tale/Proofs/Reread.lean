import Mathlib
import Tale.Json.Printer
import Tale.Json.Reader
import Tale.Proofs.Numerals
import Tale.Proofs.Scanning

/-!
# JSON that is printed is read again

A value without doubles whose whole numbers fit 64 bits is spelled by its print, whatever follows
(`value?_pretty`), and what is spelled stands for the value again. Each value has at least one
character for each call its readers make, so the number of characters is enough of them.

A character that is escaped comes back as a glyph: the control characters without a letter of their
own as a code unit, all others as a character.
-/

namespace Tale.Json

open Written

/-! ## Texts -/

/-- What a character of a text is once it is printed and read. -/
def glyphOf (c : Char) : Glyph :=
  if (escapeChar c).length = 6 then .unit c.toNat else .char c

theorem hexValue?_hexDigit : ∀ n < 16, hexValue? (hexDigit n) = some n := by
  decide

theorem unit?_hexDigit {n : Nat} (h : n < 256) :
    unit? '0' '0' (hexDigit (n / 16)) (hexDigit (n % 16)) = some n := by
  have h₀ : hexValue? '0' = some 0 := rfl
  have h₁ := hexValue?_hexDigit (n / 16) (by omega)
  have h₂ := hexValue?_hexDigit (n % 16) (by omega)
  have hn : ((0 * 16 + 0) * 16 + n / 16) * 16 + n % 16 = n := by omega
  simp only [unit?, h₀, h₁, h₂, bind, Option.bind_some, pure, hn]

theorem glyphs?_plain {c : Char} (hq : c ≠ '"') (hb : c ≠ '\\') (hc : ¬c.toNat < 0x20)
    (done : List Glyph) (r : List Char) : glyphs? done (c :: r) = glyphs? (.char c :: done) r := by
  rw [glyphs?.eq_5 done c r hq (fun _ _ _ _ _ h => absurd h hb) (fun _ _ h => absurd h hb),
    if_neg hc]

/-- A character inside quotes is read as its glyph. -/
theorem glyphs?_escapeChar (c : Char) (done : List Glyph) (r : List Char) :
    glyphs? done (escapeChar c ++ r) = glyphs? (glyphOf c :: done) r := by
  have hd : ∀ {d : Char}, c.toNat = d.toNat → c = d := fun h => Char.toNat_inj.mp h
  by_cases h₁ : c = '"'
  · subst h₁
    rfl
  by_cases h₂ : c = '\\'
  · subst h₂
    rfl
  by_cases h₃ : c = '\n'
  · subst h₃
    rfl
  by_cases h₄ : c = '\r'
  · subst h₄
    rfl
  by_cases h₅ : c = '\t'
  · subst h₅
    rfl
  by_cases h₆ : c.toNat = 0x08
  · cases hd (d := '\x08') h₆
    rfl
  by_cases h₇ : c.toNat = 0x0c
  · cases hd (d := '\x0c') h₇
    rfl
  simp only [glyphOf, escapeChar, if_neg h₁, if_neg h₂, if_neg h₃, if_neg h₄, if_neg h₅, if_neg h₆,
    if_neg h₇]
  split
  · have hu := unit?_hexDigit (show c.toNat < 256 by omega)
    simp only [List.cons_append, List.nil_append, glyphs?, hu, bind, Option.bind_some]
    rfl
  · next h₈ => exact glyphs?_plain h₁ h₂ h₈ done r

theorem glyphs?_quoted (s : List Char) (done : List Glyph) (r : List Char) :
    glyphs? done (s.flatMap escapeChar ++ '"' :: r)
      = some (done.reverse ++ s.map glyphOf, r) := by
  induction s generalizing done with
  | nil => simp [glyphs?]
  | cons c s ih =>
    rw [List.flatMap_cons, List.append_assoc, glyphs?_escapeChar, ih]
    simp

theorem glyphOf_cases (c : Char) :
    glyphOf c = .char c ∨ glyphOf c = .unit c.toNat ∧ c.toNat < 32 := by
  unfold glyphOf escapeChar
  split_ifs <;> simp_all

theorem chars?_glyphOf (c : Char) (done : List Char) (gs : List Glyph) :
    chars? done (glyphOf c :: gs) = chars? (c :: done) gs := by
  rcases glyphOf_cases c with h | ⟨h, hc⟩ <;> rw [h]
  · rw [chars?]
  · have hh : Text.isHigh c.toNat = false := by
      simp only [Text.isHigh, Bool.and_eq_false_iff, decide_eq_false_iff_not]
      omega
    have hl : Text.isLow c.toNat = false := by
      simp only [Text.isLow, Bool.and_eq_false_iff, decide_eq_false_iff_not]
      omega
    rcases gs with _ | ⟨_ | _, gs⟩ <;> simp [chars?, hh, hl]

theorem text?_glyphOf (s : String) : text? (s.toList.map glyphOf) = some s := by
  have h : ∀ (cs done : List Char), chars? done (cs.map glyphOf) = some (done.reverse ++ cs) := by
    intro cs
    induction cs with
    | nil => simp [chars?]
    | cons c cs ih =>
      intro done
      rw [List.map_cons, chars?_glyphOf, ih]
      simp
  simp [text?, h]

/-! ## Numbers -/

/-- What may follow a number. -/
def Ends (r : List Char) : Prop :=
  ∀ c ∈ r.head?, Text.isDigit c = false ∧ c ≠ '.' ∧ c ≠ 'e' ∧ c ≠ 'E'

theorem ends_cons {c : Char} {r : List Char} (h : c ∈ [',', '\n', ']', '\x7d']) :
    Ends (c :: r) := by
  rintro _ ⟨⟩
  simp only [List.mem_cons, List.not_mem_nil, or_false] at h
  rcases h with rfl | rfl | rfl | rfl <;> decide

/-- What is written from the point on, up to the exponent. -/
def fractionText : Option (List Char) → List Char
  | none => []
  | some ds => '.' :: ds

def exponentText : Option Int → List Char
  | none => []
  | some e => 'e' :: (if e < 0 then '-' else '+') :: Text.digits e.natAbs

namespace WrittenNumber

def text (w : WrittenNumber) : List Char :=
  (if w.negative then ['-'] else [])
    ++ (w.whole ++ (fractionText w.fraction ++ exponentText w.exponent))

/-- Whether a number is one that the grammar knows. -/
structure WellFormed (w : WrittenNumber) : Prop where
  isDigit : ∀ c ∈ w.whole, Text.isDigit c = true
  ne_nil : w.whole ≠ []
  plain : w.whole.length = 1 ∨ w.whole.head? ≠ some '0'
  fraction : ∀ ds ∈ w.fraction, ds ≠ [] ∧ ∀ c ∈ ds, Text.isDigit c = true

end WrittenNumber

theorem digits1?_append {ds r : List Char} (hd : ∀ c ∈ ds, Text.isDigit c = true) (hn : ds ≠ [])
    (hr : ∀ c ∈ r.head?, Text.isDigit c = false) : digits1? (ds ++ r) = some (ds, r) := by
  have hs : (ds ++ r).span Text.isDigit = (ds, r) := Text.span_eq.mpr ⟨rfl, hd, hr⟩
  rw [digits1?, hs]
  cases ds with
  | nil => exact absurd rfl hn
  | cons d ds => rfl

theorem exponent?_text {r : List Char} (hr : Ends r) (e : Option Int) :
    exponent? (exponentText e ++ r) = some (e, r) := by
  cases e with
  | none =>
    cases r with
    | nil => rfl
    | cons c r =>
      obtain ⟨-, -, he, hE⟩ := hr c rfl
      simp only [exponentText, List.nil_append, exponent?, he, hE, or_self, if_false]
  | some e =>
    have hd := digits1?_append (r := r) (Decimal.isDigit_digits e.natAbs) Nat.toDigits_ne_nil
      fun c hc => (hr c hc).1
    have hv := Decimal.digitsValue_digits e.natAbs
    by_cases he : e < 0
    · simp [exponentText, exponent?, he, hd, hv, abs_of_neg he]
    · simp [exponentText, exponent?, he, hd, hv, abs_of_nonneg (not_lt.mp he)]

theorem fraction?_text {r : List Char} (hr : ∀ c ∈ r.head?, Text.isDigit c = false ∧ c ≠ '.')
    {f : Option (List Char)} (hf : ∀ ds ∈ f, ds ≠ [] ∧ ∀ c ∈ ds, Text.isDigit c = true) :
    fraction? (fractionText f ++ r) = some (f, r) := by
  cases f with
  | none =>
    cases r with
    | nil => rfl
    | cons c r => exact fraction?.eq_2 _ fun r' h => (hr c rfl).2 (List.cons.inj h).1
  | some ds =>
    obtain ⟨hn, hd⟩ := hf ds rfl
    simp [fractionText, fraction?, digits1?_append hd hn fun c hc => (hr c hc).1]

/-- What may follow a number may also follow its digits, after an exponent or not. -/
theorem head_exponentText {r : List Char} (hr : Ends r) (e : Option Int) :
    ∀ c ∈ (exponentText e ++ r).head?, Text.isDigit c = false ∧ c ≠ '.' := by
  cases e with
  | none => exact fun c hc => ⟨(hr c hc).1, (hr c hc).2.1⟩
  | some e =>
    rintro _ ⟨⟩
    decide

theorem head_fractionText {r : List Char} (hr : ∀ c ∈ r.head?, Text.isDigit c = false ∧ c ≠ '.')
    (f : Option (List Char)) : ∀ c ∈ (fractionText f ++ r).head?, Text.isDigit c = false := by
  cases f with
  | none => exact fun c hc => (hr c hc).1
  | some ds =>
    rintro _ ⟨⟩
    rfl

/-- A number is read as it is written, whatever follows. -/
theorem number?_text {w : WrittenNumber} (hw : w.WellFormed) {r : List Char} (hr : Ends r) :
    number? (w.text ++ r) = some (w, r) := by
  rcases w with ⟨negative, whole, fraction, exponent⟩
  have hz : ¬(whole.length ≠ 1 ∧ whole.head? = some '0') := by
    rintro ⟨hl, hh⟩
    exact hw.plain.elim hl fun h => h hh
  have he := head_exponentText hr exponent
  have hd := digits1?_append hw.isDigit hw.ne_nil (head_fractionText he fraction)
  have hf := fraction?_text he hw.fraction
  have hx := exponent?_text hr exponent
  simp only [WrittenNumber.text, List.append_assoc]
  cases negative with
  | true =>
    simp only [number?, if_true, List.cons_append, List.nil_append, hd, bind, Option.bind_some,
      if_neg hz, hf, hx, pure]
  | false =>
    have hm : ∀ cs,
        whole ++ (fractionText fraction ++ (exponentText exponent ++ r)) ≠ '-' :: cs := by
      intro cs h
      cases whole with
      | nil => exact hw.ne_nil rfl
      | cons d ds =>
        have hd : d = '-' := (List.cons.inj h).1
        exact absurd (hw.isDigit d (.head _)) (by rw [hd]; decide)
    simp only [number?, Bool.false_eq_true, if_false, List.nil_append, hd, bind, Option.bind_some,
      if_neg hz, hf, hx, pure]

/-- The spelling of a whole number. -/
def spelling (n : Int) : WrittenNumber :=
  ⟨n < 0, Text.digits n.natAbs, none, none⟩

theorem digits_eq (n : Nat) : Text.digits n
    = if n < 10 then [n.digitChar] else Text.digits (n / 10) ++ [(n % 10).digitChar] :=
  Nat.toDigits_eq_if (by decide)

/-- Only zero is written with a zero in front. -/
theorem head?_digits (n : Nat) (hn : n ≠ 0) : (Text.digits n).head? ≠ some '0' := by
  rw [digits_eq]
  split
  · next h =>
    revert hn
    exact (by decide : ∀ n < 10, n ≠ 0 → [n.digitChar].head? ≠ some '0') n h
  · have h : Text.digits (n / 10) ≠ [] := Nat.toDigits_ne_nil
    rw [List.head?_append_of_ne_nil _ h]
    exact head?_digits (n / 10) (by omega)

theorem digits_plain (n : Nat) :
    (Text.digits n).length = 1 ∨ (Text.digits n).head? ≠ some '0' := by
  by_cases hn : n = 0
  · exact .inl (hn ▸ rfl)
  · exact .inr (head?_digits n hn)

/-- The first character of a number. -/
theorem intText_head (n : Int) :
    ∃ c cs, intText n = c :: cs ∧ (c = '-' ∨ Text.isDigit c = true) := by
  unfold intText
  split
  · exact ⟨_, _, rfl, .inl rfl⟩
  · cases h : Text.digits n.natAbs with
    | nil => exact absurd h Nat.toDigits_ne_nil
    | cons d ds => exact ⟨d, ds, rfl, .inr (Decimal.isDigit_digits n.natAbs d (h ▸ .head _))⟩

theorem text_spelling (n : Int) : (spelling n).text = intText n := by
  by_cases hn : n < 0 <;>
    simp [WrittenNumber.text, spelling, intText, fractionText, exponentText, hn]

theorem wellFormed_spelling (n : Int) : (spelling n).WellFormed :=
  ⟨Decimal.isDigit_digits _, Nat.toDigits_ne_nil, digits_plain _, nofun⟩

theorem number?_intText {r : List Char} (hr : Ends r) (n : Int) :
    number? (intText n ++ r) = some (spelling n, r) := by
  rw [← text_spelling]
  exact number?_text (wellFormed_spelling n) hr

theorem value?_spelling {n : Int} (h : -(2 ^ 63) ≤ n ∧ n < 2 ^ 64) :
    (spelling n).value? = some (.int n) := by
  have hw : Text.word64 = 2 ^ 64 := rfl
  have hv := Decimal.digitsValue_digits n.natAbs
  have h : (spelling n).whole? = some n := by
    simp only [WrittenNumber.whole?, spelling, hv, hw, Option.isSome_none, Bool.or_self,
      Bool.false_eq_true, if_false, decide_eq_true_eq]
    split
    · rw [if_neg (by omega)]
      exact congrArg some (by omega)
    · rw [if_pos (by omega)]
      exact congrArg some (by omega)
  rw [WrittenNumber.value?, h]

/-! ## Values -/

mutual

/-- Whether no number is a double and 64 bits hold each. -/
def isExact : Json → Bool
  | .int n => -(2 ^ 63) ≤ n && n < 2 ^ 64
  | .float _ => false
  | .arr xs => exactElements xs
  | .obj ms => exactMembers ms
  | _ => true

def exactElements : List Json → Bool
  | [] => true
  | x :: xs => isExact x && exactElements xs

def exactMembers : List (String × Json) → Bool
  | [] => true
  | (_, x) :: ms => isExact x && exactMembers ms

end

theorem skipSpace_newLine (depth : Nat) (s : List Char) :
    skipSpace (newLine depth ++ s) = skipSpace s := by
  have h : ∀ n, skipSpace (List.replicate n ' ' ++ s) = skipSpace s := by
    intro n
    induction n with
    | zero => rfl
    | succ n ih => exact ih
  exact h _

theorem skipSpace_cons {c : Char} {s : List Char} (h : isSpace c = false) :
    skipSpace (c :: s) = c :: s := by
  rw [skipSpace, List.dropWhile_cons_of_neg (by simp [h])]

theorem ends_newLine (depth : Nat) (s : List Char) : Ends (newLine depth ++ s) :=
  ends_cons (by decide)

/-- A value is printed from a character on that is no blank and closes nothing. -/
theorem pretty_head (d : Nat) {j : Json} (h : j.isExact = true) : ∃ c cs, prettyChars d j = c :: cs
    ∧ isSpace c = false ∧ c ≠ ']' ∧ c ≠ '\x7d' := by
  have hd : ∀ {c}, c = '-' ∨ Text.isDigit c = true →
      isSpace c = false ∧ c ≠ ']' ∧ c ≠ '\x7d' := by
    intro c hc
    rcases hc with rfl | hc
    · decide
    · refine ⟨?_, ?_, ?_⟩
      · by_contra hs
        simp only [isSpace, Bool.not_eq_false, Bool.or_eq_true, beq_iff_eq, or_assoc] at hs
        rcases hs with rfl | rfl | rfl | rfl <;> cases hc
      · rintro rfl
        cases hc
      · rintro rfl
        cases hc
  cases j with
  | null => exact ⟨_, _, rfl, by decide⟩
  | bool b => cases b <;> exact ⟨_, _, rfl, by decide⟩
  | int n =>
    obtain ⟨c, cs, hn, hc⟩ := intText_head n
    exact ⟨c, cs, hn, hd hc⟩
  | float x => cases h
  | str s => exact ⟨_, _, rfl, by decide⟩
  | arr xs => cases xs <;> exact ⟨_, _, rfl, by decide⟩
  | obj ms =>
    cases ms with
    | nil => exact ⟨_, _, rfl, by decide⟩
    | cons m ms => exact ⟨_, _, rfl, by decide⟩

theorem value?_number {c : Char} {s : List Char} (hc : c = '-' ∨ Text.isDigit c = true) (n : Nat) :
    value? (n + 1) (c :: s) = (number? (c :: s)).map fun (n, r) => (.number n, r) := by
  have hne : ∀ d, Text.isDigit d = false → d ≠ '-' → c ≠ d := by
    rintro d hd hm rfl
    rcases hc with hc | hc
    · exact hm hc
    · exact Bool.false_ne_true (hd.symm.trans hc)
  rw [value?]
  all_goals
    intro r h
    exact hne _ (by rfl) (by decide) (List.cons.inj h).1

section

variable {n : Nat} {s t r : List Char} {w : Written} {ws : List Written} {gs : List Glyph}
  {vs : List (List Glyph × Written)}

theorem elements?_last (hw : value? n (skipSpace s) = some (w, t)) (ht : skipSpace t = ']' :: r) :
    elements? (n + 1) s = some ([w], r) := by
  simp only [elements?, hw, ht, bind, Option.bind_some, pure]

theorem elements?_more (hw : value? n (skipSpace s) = some (w, t)) {t' : List Char}
    (ht : skipSpace t = ',' :: t') (hs : elements? n t' = some (ws, r)) :
    elements? (n + 1) s = some (w :: ws, r) := by
  simp only [elements?, hw, ht, hs, bind, Option.bind_some, pure]

theorem members?_last {u u' : List Char} (hk : skipSpace s = '"' :: u)
    (hg : glyphs? [] u = some (gs, ':' :: u')) (hw : value? n (skipSpace u') = some (w, t))
    (ht : skipSpace t = '\x7d' :: r) : members? (n + 1) s = some ([(gs, w)], r) := by
  have hc : skipSpace (':' :: u') = ':' :: u' := rfl
  simp only [members?, hk, hg, hc, hw, ht, bind, Option.bind_some, pure]

theorem members?_more {u u' : List Char} (hk : skipSpace s = '"' :: u)
    (hg : glyphs? [] u = some (gs, ':' :: u')) (hw : value? n (skipSpace u') = some (w, t))
    {t' : List Char} (ht : skipSpace t = ',' :: t') (hs : members? n t' = some (vs, r)) :
    members? (n + 1) s = some ((gs, w) :: vs, r) := by
  have hc : skipSpace (':' :: u') = ':' :: u' := rfl
  simp only [members?, hk, hg, hc, hw, ht, hs, bind, Option.bind_some, pure]

theorem value?_elements (hc : (skipSpace s).head? ≠ some ']')
    (h : elements? n (skipSpace s) = some (ws, r)) :
    value? (n + 1) ('[' :: s) = some (.arr ws, r) := by
  have hm : ∀ t, skipSpace s ≠ ']' :: t := fun t h => hc (h ▸ rfl)
  simp only [value?, h, Option.map_some]

theorem value?_members (hc : (skipSpace s).head? ≠ some '\x7d')
    (h : members? n (skipSpace s) = some (vs, r)) :
    value? (n + 1) ('\x7b' :: s) = some (.obj vs, r) := by
  have hm : ∀ t, skipSpace s ≠ '\x7d' :: t := fun t h => hc (h ▸ rfl)
  simp only [value?, h, Option.map_some]

end

/-- The text of a printed value, as a reader comes to it. -/
theorem skipSpace_pretty (d d' : Nat) {j : Json} (h : j.isExact = true) (r : List Char) :
    skipSpace (newLine d' ++ (prettyChars d j ++ r)) = prettyChars d j ++ r := by
  obtain ⟨c, cs, hc, hs, -⟩ := pretty_head d h
  rw [skipSpace_newLine, hc, List.cons_append, skipSpace_cons hs]

theorem skipSpace_pretty' (d : Nat) {j : Json} (h : j.isExact = true) (r : List Char) :
    skipSpace (prettyChars d j ++ r) = prettyChars d j ++ r := by
  obtain ⟨c, cs, hc, hs, -⟩ := pretty_head d h
  rw [hc, List.cons_append, skipSpace_cons hs]

theorem skipSpace_name (d : Nat) (k : String) (r : List Char) :
    skipSpace (newLine d ++ (quoted k ++ r)) = quoted k ++ r :=
  skipSpace_newLine d _

theorem glyphs?_name (k : String) (r : List Char) :
    ∃ u, quoted k ++ r = '"' :: u ∧ glyphs? [] u = some (k.toList.map glyphOf, r) := by
  refine ⟨k.toList.flatMap escapeChar ++ '"' :: r, by simp [quoted], ?_⟩
  rw [glyphs?_quoted]
  rfl

mutual

/-- The print of a value is read as something that stands for the value. -/
theorem value?_pretty : ∀ j : Json, j.isExact = true → ∃ w : Written,
    (∀ d n r, (prettyChars d j).length ≤ n → Ends r →
      value? n (prettyChars d j ++ r) = some (w, r))
    ∧ ∀ l, j.depth ≤ l → w.toJson? l = some j
  | .null, _ => by
    refine ⟨.null, fun d n r hn _ => ?_, fun l _ => rfl⟩
    obtain ⟨n, rfl⟩ := Nat.exists_eq_succ_of_ne_zero (Nat.ne_zero_of_lt hn)
    rfl
  | .bool b, _ => by
    refine ⟨.bool b, fun d n r hn _ => ?_, fun l _ => rfl⟩
    cases b <;> obtain ⟨n, rfl⟩ := Nat.exists_eq_succ_of_ne_zero (Nat.ne_zero_of_lt hn) <;> rfl
  | .int i, h => by
    have hi : -(2 ^ 63) ≤ i ∧ i < 2 ^ 64 := by simpa [isExact] using h
    refine ⟨.number (spelling i), fun d n r hn hr => ?_, fun l _ => value?_spelling hi⟩
    obtain ⟨c, cs, hc, hd⟩ := intText_head i
    have hni := number?_intText hr i
    simp only [prettyChars, hc, List.length_cons, List.cons_append] at hn hni ⊢
    obtain ⟨n, rfl⟩ := Nat.exists_eq_succ_of_ne_zero (Nat.ne_zero_of_lt hn)
    rw [value?_number hd, hni]
    rfl
  | .float _, h => by cases h
  | .str s, _ => by
    refine ⟨.text (s.toList.map glyphOf), fun d n r hn _ => ?_, fun l _ => ?_⟩
    · obtain ⟨u, hu, hg⟩ := glyphs?_name s r
      obtain ⟨n, rfl⟩ := Nat.exists_eq_succ_of_ne_zero (Nat.ne_zero_of_lt hn)
      rw [prettyChars, hu, value?, hg]
      rfl
    · rw [toJson?, text?_glyphOf]
      rfl
  | .arr [], _ => by
    refine ⟨.arr [], fun d n r hn _ => ?_, fun l hl => ?_⟩
    · obtain ⟨n, rfl⟩ := Nat.exists_eq_succ_of_ne_zero (Nat.ne_zero_of_lt hn)
      rfl
    · obtain ⟨l, rfl⟩ := Nat.exists_eq_succ_of_ne_zero (Nat.ne_zero_of_lt hl)
      rfl
  | .arr (x :: xs), h => by
    obtain ⟨hx, hxs⟩ : x.isExact = true ∧ exactElements xs = true := by
      simpa [isExact, exactElements] using h
    obtain ⟨ws, hw, hj⟩ := elements?_pretty x xs hx hxs
    refine ⟨.arr ws, fun d n r hn _ => ?_, fun l hl => ?_⟩
    · obtain ⟨n, rfl⟩ := Nat.exists_eq_succ_of_ne_zero (Nat.ne_zero_of_lt hn)
      have hs := skipSpace_pretty (d + 1) (d + 1) hx
        (prettyRest (d + 1) xs ++ (newLine d ++ ']' :: r))
      simp only [prettyChars, List.cons_append, List.append_assoc, List.nil_append,
        List.length_cons, List.length_append] at hn hs ⊢
      refine value?_elements ?_ (hw (d + 1) d _ _ r ?_ ?_)
      · obtain ⟨c, cs, hc, -, hne, -⟩ := pretty_head (d + 1) hx
        rw [hs, hc]
        exact fun h => hne (Option.some.inj h)
      · rw [List.length_append]
        omega
      · rw [hs, skipSpace_pretty' _ hx]
    · obtain ⟨l, rfl⟩ := Nat.exists_eq_succ_of_ne_zero (Nat.ne_zero_of_lt hl)
      rw [toJson?, hj _ (Nat.le_of_succ_le_succ hl)]
      rfl
  | .obj ms, h => by
    obtain ⟨ws, hw, hj⟩ := value?_record ms h
    refine ⟨.obj ws, fun d n r hn _ => hw d n r hn, fun l hl => ?_⟩
    obtain ⟨l, rfl⟩ := Nat.exists_eq_succ_of_ne_zero (Nat.ne_zero_of_lt hl)
    rw [toJson?, hj _ (Nat.le_of_succ_le_succ hl)]
    rfl
termination_by j => sizeOf j

theorem value?_record : ∀ ms : List (String × Json), exactMembers ms = true →
    ∃ ws : List (List Glyph × Written),
    (∀ d n r, (prettyChars d (.obj ms)).length ≤ n →
      value? n (prettyChars d (.obj ms) ++ r) = some (.obj ws, r))
    ∧ ∀ l, depthMembers ms ≤ l → membersJson? l ws = some ms
  | [], _ => by
    refine ⟨[], fun d n r hn => ?_, fun l hl => rfl⟩
    obtain ⟨n, rfl⟩ := Nat.exists_eq_succ_of_ne_zero (Nat.ne_zero_of_lt hn)
    rfl
  | (k, x) :: ms, h => by
    obtain ⟨hx, hms⟩ : x.isExact = true ∧ exactMembers ms = true := by
      simpa [exactMembers] using h
    obtain ⟨ws, hw, hj⟩ := members?_pretty k x ms hx hms
    refine ⟨ws, fun d n r hn => ?_, hj⟩
    obtain ⟨n, rfl⟩ := Nat.exists_eq_succ_of_ne_zero (Nat.ne_zero_of_lt hn)
    simp only [prettyChars, List.cons_append, List.append_assoc, List.nil_append,
      List.length_cons, List.length_append] at hn ⊢
    refine value?_members ?_ (hw (d + 1) d _ _ r ?_ ?_)
    · rw [skipSpace_name]
      exact fun h => absurd (Option.some.inj h) (by decide)
    · rw [List.length_append, List.length_append]
      omega
    · rw [skipSpace_name]
      rfl
termination_by ms => sizeOf ms

theorem elements?_pretty : ∀ (x : Json) (xs : List Json), x.isExact = true →
    exactElements xs = true → ∃ ws : List Written,
    (∀ d d' n s r, (prettyChars d x ++ prettyRest d xs).length < n →
      skipSpace s = prettyChars d x ++ (prettyRest d xs ++ (newLine d' ++ ']' :: r)) →
      elements? n s = some (ws, r))
    ∧ ∀ l, depthElements (x :: xs) ≤ l → elementsJson? l ws = some (x :: xs)
  | x, [], hx, _ => by
    obtain ⟨w, hw, hj⟩ := value?_pretty x hx
    refine ⟨[w], fun d d' n s r hn hs => ?_, fun l hl => ?_⟩
    · obtain ⟨n, rfl⟩ := Nat.exists_eq_succ_of_ne_zero (Nat.ne_zero_of_lt hn)
      simp only [prettyRest, List.append_nil, List.nil_append] at hn hs
      refine elements?_last (t := newLine d' ++ ']' :: r) ?_ ?_
      · rw [hs]
        exact hw d _ _ (by omega) (ends_newLine d' _)
      · exact skipSpace_newLine d' _
    · rw [elementsJson?, hj l (by simp only [depthElements] at hl; omega)]
      rfl
  | x, y :: ys, hx, hs => by
    obtain ⟨hy, hys⟩ : y.isExact = true ∧ exactElements ys = true := by
      simpa [exactElements] using hs
    obtain ⟨w, hw, hj⟩ := value?_pretty x hx
    obtain ⟨ws, hws, hjs⟩ := elements?_pretty y ys hy hys
    refine ⟨w :: ws, fun d d' n s r hn hs => ?_, fun l hl => ?_⟩
    · obtain ⟨n, rfl⟩ := Nat.exists_eq_succ_of_ne_zero (Nat.ne_zero_of_lt hn)
      simp only [prettyRest, List.append_assoc, List.cons_append, List.length_append,
        List.length_cons] at hn hs
      refine elements?_more ?_ (skipSpace_cons rfl) (hws d d' n _ r ?_ (skipSpace_pretty d d hy _))
      · rw [hs]
        exact hw d _ _ (by omega) (ends_cons (by decide))
      · rw [List.length_append]
        omega
    · simp only [depthElements] at hl hjs
      rw [elementsJson?, hj l (by omega)]
      simp only [bind, Option.bind_some, hjs l (by omega), pure]

termination_by x xs => sizeOf x + sizeOf xs

theorem members?_pretty : ∀ (k : String) (x : Json) (ms : List (String × Json)),
    x.isExact = true → exactMembers ms = true → ∃ ws : List (List Glyph × Written),
    (∀ d d' n s r, (quoted k ++ (prettyChars d x ++ prettyMembers d ms)).length < n →
      skipSpace s = quoted k ++ ':' :: ' ' :: (prettyChars d x ++ (prettyMembers d ms
        ++ (newLine d' ++ '\x7d' :: r))) →
      members? n s = some (ws, r))
    ∧ ∀ l, depthMembers ((k, x) :: ms) ≤ l → membersJson? l ws = some ((k, x) :: ms)
  | k, x, [], hx, _ => by
    obtain ⟨w, hw, hj⟩ := value?_pretty x hx
    refine ⟨[(k.toList.map glyphOf, w)], fun d d' n s r hn hs => ?_, fun l hl => ?_⟩
    · obtain ⟨n, rfl⟩ := Nat.exists_eq_succ_of_ne_zero (Nat.ne_zero_of_lt hn)
      simp only [prettyMembers, List.append_nil, List.nil_append, List.length_append] at hn hs
      obtain ⟨u, hu, hg⟩ := glyphs?_name k
        (':' :: ' ' :: (prettyChars d x ++ (newLine d' ++ '\x7d' :: r)))
      refine members?_last (hs.trans hu) hg (t := newLine d' ++ '\x7d' :: r) ?_ ?_
      · have hc := skipSpace_pretty' d hx (newLine d' ++ '\x7d' :: r)
        rw [show skipSpace (' ' :: _) = _ from hc]
        exact hw d _ _ (by omega) (ends_newLine d' _)
      · exact skipSpace_newLine d' _
    · rw [membersJson?, text?_glyphOf]
      simp only [bind, Option.bind_some, hj l (by simp only [depthMembers] at hl; omega)]
      rfl
  | k, x, (k', y) :: ms, hx, hs => by
    obtain ⟨hy, hms⟩ : y.isExact = true ∧ exactMembers ms = true := by
      simpa [exactMembers] using hs
    obtain ⟨w, hw, hj⟩ := value?_pretty x hx
    obtain ⟨ws, hws, hjs⟩ := members?_pretty k' y ms hy hms
    refine ⟨(k.toList.map glyphOf, w) :: ws, fun d d' n s r hn hs => ?_, fun l hl => ?_⟩
    · obtain ⟨n, rfl⟩ := Nat.exists_eq_succ_of_ne_zero (Nat.ne_zero_of_lt hn)
      simp only [prettyMembers, List.append_assoc, List.cons_append, List.length_append,
        List.length_cons] at hn hs
      obtain ⟨u, hu, hg⟩ := glyphs?_name k _
      refine members?_more (hs.trans hu) hg (t := ',' :: _) ?_ (skipSpace_cons rfl)
        (hws d d' n _ r ?_ (skipSpace_name d k' _))
      · rw [show skipSpace (' ' :: _) = _ from skipSpace_pretty' d hx _]
        exact hw d _ _ (by omega) (ends_cons (by decide))
      · rw [List.length_append, List.length_append]
        omega
    · simp only [depthMembers] at hl hjs
      rw [membersJson?, text?_glyphOf]
      simp only [bind, Option.bind_some, hj l (by omega), hjs l (by omega), pure]
termination_by _ x ms => sizeOf x + sizeOf ms

end

/-! ## Whole texts -/

/-- A record is read with all its members if it is to have them. -/
theorem toRecord?_of_members {names : List String} {l : Nat} {ws : List (List Glyph × Written)}
    {ms : List (String × Json)} (h : membersJson? l ws = some ms) (hn : ∀ m ∈ ms, m.1 ∈ names) :
    toRecord? names (l + 1) (.obj ws) = some (.obj ms) := by
  have hm : ∀ {ws ms}, membersJson? l ws = some ms → ∃ named,
      (ws.mapM fun m => (text? m.1).map fun k => (k, m.2)) = some named
        ∧ named.map Prod.fst = ms.map Prod.fst
        ∧ (named.mapM fun m => (m.2.toJson? l).map fun j => (m.1, j)) = some ms := by
    intro ws
    induction ws with
    | nil =>
      rintro _ ⟨⟩
      exact ⟨[], rfl, rfl, rfl⟩
    | cons w ws ih =>
      obtain ⟨k, w⟩ := w
      intro ms h
      simp only [membersJson?, bind, Option.bind_eq_some_iff, pure, Option.some.injEq] at h
      obtain ⟨k', hk, j, hj, ms, hms, rfl⟩ := h
      obtain ⟨named, h₁, h₂, h₃⟩ := ih hms
      refine ⟨(k', w) :: named, ?_, by simp [h₂], ?_⟩
      · simp [hk, h₁]
      · simp [hj, h₃]
  obtain ⟨named, h₁, h₂, h₃⟩ := hm h
  have hf : (named.filter fun m => names.contains m.1) = named := by
    refine List.filter_eq_self.mpr fun m hm => ?_
    have hk : m.1 ∈ ms.map Prod.fst := h₂ ▸ List.mem_map_of_mem hm
    obtain ⟨m', hm', he⟩ := List.mem_map.mp hk
    simpa [← he] using hn m' hm'
  calc toRecord? names (l + 1) (.obj ws)
      = (ws.mapM fun m => (text? m.1).map fun k => (k, m.2)).bind fun named =>
        ((named.filter fun m => names.contains m.1).mapM fun m : String × Written =>
          (m.2.toJson? l).map fun j => (m.1, j)).bind fun ms => some (.obj ms) := rfl
    _ = some (.obj ms) := by rw [h₁, Option.bind_some, hf, h₃, Option.bind_some]

/-- The print of a record is read as the record. -/
theorem parseRecord?_pretty {names : List String} {ms : List (String × Json)}
    (h : exactMembers ms = true) (hd : depthMembers ms < recordLevels)
    (hn : ∀ m ∈ ms, m.1 ∈ names) :
    parseRecord? names (Json.obj ms).pretty = some (.obj ms) := by
  obtain ⟨ws, hw, hj⟩ := value?_record ms h
  have hs := skipSpace_pretty' 0 (j := .obj ms) h []
  have hv := hw 0 ((prettyChars 0 (.obj ms)).length + 1) [] (Nat.le_succ _)
  rw [List.append_nil] at hs hv
  have ht : Written.ofText? (Json.obj ms).pretty = some (.obj ws) := by
    simp only [Written.ofText?, pretty, String.toList_ofList, hs, hv, bind, Option.bind_some]
    rfl
  rw [parseRecord?, ht]
  exact toRecord?_of_members (hj _ (Nat.le_of_lt_succ hd)) hn

end Tale.Json
