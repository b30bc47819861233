import Mathlib.Data.List.Forall2
import Mathlib.Data.List.TakeWhile
import Tale.Language.Lexer
import Tale.Proofs.Words

/-!
# How tokens are spelled

`Spelled kind content text` says that a text writes a token. What is read at the head of a text
as a token is spelled by the characters it takes (`Lexeme.spelled_of_read`), and a spelling is
read as its token, whatever follows after a blank (`Lexeme.read_spelled`). So spellings with a
blank between any two of them are read as the tokens they spell (`Tokens.ofText_spelled`).
-/

namespace Tale

/-- What a text between quotes of a kind means. Both quotes of the other kinds and line breaks may
stand for themselves. -/
inductive Quoted (quote : Char) : (content text : List Char) → Prop
  | nil : Quoted quote [] []
  | plain {c : Char} {s t : List Char} (hq : c ≠ quote) (hb : c ≠ '\\') (h : Quoted quote s t) :
    Quoted quote (c :: s) (c :: t)
  | escaped {c d : Char} {s t : List Char} (hd : Token.unescape? d = some c)
    (h : Quoted quote s t) : Quoted quote (c :: s) ('\\' :: d :: t)

/-- Digits, one at least, with at most one dot before, among or after them. -/
structure Numeric (cs : List Char) : Prop where
  chars (c : Char) (h : c ∈ cs) : Text.isDigit c = true ∨ c = '.'
  dots : cs.count '.' ≤ 1
  digit : ∃ c ∈ cs, Text.isDigit c = true

inductive Spelled : TokenKind → (content text : List Char) → Prop
  | identifier {c : Char} {cs : List Char} (hc : Token.isNameStart c = true)
    (hcs : ∀ d ∈ cs, Token.isNamePart d = true)
    (hk : String.ofList (c :: cs) ∉ Token.keywords) : Spelled .identifier (c :: cs) (c :: cs)
  | keyword {w : String} (h : w ∈ Token.keywords) : Spelled .keyword w.toList w.toList
  | operator {w : String} (h : isOperator w = true) : Spelled .operator w.toList w.toList
  | punctuation {c : Char} (h : Token.isPunctuation c = true) : Spelled .punctuation [c] [c]
  | number {cs : List Char} (h : Numeric cs) : Spelled .number cs cs
  | tag {cs : List Char} (h : ∀ c ∈ cs, Token.isNamePart c = true) : Spelled .tag cs ('#' :: cs)
  | string {quote : Char} {s t : List Char} (hq : Token.isQuote quote = true)
    (h : Quoted quote s t) : Spelled .string s (quote :: (t ++ [quote]))

/-! ## Classes of characters -/

namespace Token

theorem keywords_named : ∀ w ∈ keywords,
    (w.toList.head?.any isNameStart && w.toList.all isNamePart) = true := by
  decide +kernel

/-- A character that is read by its class only. -/
def Apart (c : Char) : Prop :=
  ¬ (c = ' ' ∨ c = '\t' ∨ c = '\n') ∧ isNameStart c = false ∧ Text.isDigit c = false

instance : DecidablePred Apart :=
  fun _ => inferInstanceAs (Decidable (_ ∧ _))

theorem operatorChar_apart {c : Char} (h : isOperatorChar c = true) : Apart c := by
  have hc : "+-*/^&|=><!?:%~.".toList.all (Apart ·) = true := by decide
  exact of_decide_eq_true (List.all_eq_true.mp hc c (List.contains_iff_mem.mp h))

theorem punctuation_apart {c : Char} (h : isPunctuation c = true) :
    Apart c ∧ isOperatorChar c = false := by
  have hc : ['[', ']', '(', ')', '\x7b', '\x7d', '$'].all
      (fun c => Apart c ∧ isOperatorChar c = false) = true := by
    decide
  exact of_decide_eq_true (List.all_eq_true.mp hc c (List.contains_iff_mem.mp h))

theorem quote_apart {c : Char} (h : isQuote c = true) :
    Apart c ∧ isOperatorChar c = false ∧ isPunctuation c = false ∧ c ≠ '\\' := by
  simp only [isQuote, Bool.or_eq_true, beq_iff_eq] at h
  rcases h with (rfl | rfl) | rfl <;> decide

theorem isNameStart_of_isDigit {c : Char} (h : Text.isDigit c = true) : isNameStart c = false := by
  have hu : c ≠ '_' := by
    rintro rfl
    exact absurd h (by decide)
  simp only [Text.isDigit, Bool.and_eq_true, decide_eq_true_eq, Char.le_def,
    UInt32.le_iff_toNat_le] at h
  simp [isNameStart, Char.le_def, UInt32.le_iff_toNat_le, hu] at h ⊢
  omega

end Token

/-- All texts that are operators. -/
def operators : List String :=
  ["?", ":", "..."] ++ [UnaryOp.negate, .not].map (·.symbol) ++ BinaryOp.all.map (·.symbol)

theorem mem_operators {w : String} (h : isOperator w = true) : w ∈ operators := by
  simp only [isOperator, Bool.or_eq_true, List.contains_iff_mem, Option.isSome_iff_exists] at h
  simp only [operators, List.mem_append, List.mem_map]
  rcases h with (h | ⟨op, h⟩) | ⟨op, h⟩
  · exact .inl (.inl h)
  · exact .inl (.inr ⟨op, List.mem_of_find?_eq_some h, by simpa using List.find?_some h⟩)
  · exact .inr ⟨op, List.mem_of_find?_eq_some h, by simpa using List.find?_some h⟩

/-- The signs in an operator, and that none begins a comment. -/
theorem operators_signs : ∀ w ∈ operators, w.toList ≠ [] ∧ w.toList.all Token.isOperatorChar
    ∧ (w.toList.head? = some '/' → w.toList.tail.head? ≠ some '*' ∧ w.toList.tail.head? ≠ some '/')
    := by
  decide +kernel

theorem Quoted.return_not_mem {quote : Char} {s t : List Char} (h : Quoted quote s t)
    (hs : '\r' ∉ s) : '\r' ∉ t := by
  induction h with
  | nil => exact hs
  | plain hq hb h ih =>
    rw [List.mem_cons, not_or] at hs ⊢
    exact ⟨hs.1, ih hs.2⟩
  | @escaped c d s t hd h ih =>
    rw [List.mem_cons, not_or] at hs
    have hne : '\r' ≠ d := by
      rintro rfl
      cases hd
    simp [hne, ih hs.2]

/-- What to write between quotes of a kind, with or without line breaks and tabs. -/
def enquote (quote : Char) (blanks : Bool) : List Char → List Char
  | [] => []
  | c :: cs =>
    (if c = quote ∨ c = '\\' then ['\\', c]
      else if c = '\n' ∧ !blanks then ['\\', 'n']
      else if c = '\t' ∧ !blanks then ['\\', 't']
      else [c]) ++ enquote quote blanks cs

/-- Everything can be written between quotes of each kind. -/
theorem Quoted.enquote {quote : Char} (hq : Token.isQuote quote = true) (blanks : Bool)
    (s : List Char) : Quoted quote s (enquote quote blanks s) := by
  induction s with
  | nil => exact .nil
  | cons c s ih =>
    rw [Tale.enquote]
    split_ifs with h₁ h₂ h₃
    · refine .escaped ?_ ih
      rcases h₁ with rfl | rfl
      · obtain ⟨hn, ht⟩ : c ≠ 'n' ∧ c ≠ 't' := by
          constructor <;> rintro rfl <;> exact absurd hq (by decide)
        simp [Token.unescape?, hn, ht, hq]
      · rfl
    · rw [h₂.1]
      exact .escaped rfl ih
    · rw [h₃.1]
      exact .escaped rfl ih
    · rw [not_or] at h₁
      exact .plain h₁.1 h₁.2 ih

namespace Spelled

variable {kind : TokenKind} {content text : List Char}

theorem ne_nil (h : Spelled kind content text) : text ≠ [] := by
  cases h with
  | @keyword w h =>
    intro hw
    have hn := Token.keywords_named w h
    rw [hw] at hn
    cases hn
  | operator h => exact (operators_signs _ (mem_operators h)).1
  | number h =>
    obtain ⟨c, hc, -⟩ := h.digit
    exact List.ne_nil_of_mem hc
  | _ => exact List.cons_ne_nil _ _

/-- There is a carriage return in a spelling only if there is one in what a string means. -/
theorem return_not_mem (h : Spelled kind content text) (hc : kind = .string → '\r' ∉ content) :
    '\r' ∉ text := by
  have apart {p : Char → Bool} {cs : List Char} (hp : p '\r' = false) (h : ∀ c ∈ cs, p c = true) :
      '\r' ∉ cs := by
    intro hm
    rw [h _ hm] at hp
    cases hp
  cases h with
  | identifier hs hcs =>
    refine apart (p := Token.isNamePart) (by decide) (List.forall_mem_cons.mpr ⟨?_, hcs⟩)
    rw [Token.isNamePart, hs, Bool.true_or]
  | keyword h =>
    have hn := Token.keywords_named _ h
    rw [Bool.and_eq_true, List.all_eq_true] at hn
    exact apart (by decide) hn.2
  | operator h =>
    exact apart (by decide) (List.all_eq_true.mp (operators_signs _ (mem_operators h)).2.1)
  | punctuation h => exact apart (p := Token.isPunctuation) (by decide) (by simpa using h)
  | number h =>
    intro hm
    rcases h.chars _ hm with h | h <;> exact absurd h (by decide)
  | tag h => exact List.not_mem_cons_of_ne_of_not_mem (by decide) (apart (by decide) h)
  | @string quote _ _ hq h =>
    have hne : '\r' ≠ quote := by
      rintro rfl
      exact absurd hq (by decide)
    simp [hne, h.return_not_mem (hc rfl)]

end Spelled

/-! ## Reading what is spelled -/

/-- What may follow a spelling. -/
def Parted (rest : List Char) : Prop :=
  ∀ c ∈ rest.head?, c = ' '

theorem takeWhile_parted {p : Char → Bool} {cs rest : List Char} (h : ∀ c ∈ cs, p c = true)
    (hr : Parted rest) (hp : p ' ' = false) : (cs ++ rest).takeWhile p = cs := by
  rw [List.takeWhile_append_of_pos h]
  rcases rest with _ | ⟨c, rest⟩
  · simp
  · rw [hr c rfl, List.takeWhile_cons_of_neg (by simp [hp]), List.append_nil]

namespace Lexeme

variable {c : Char} {cs rest : List Char}

theorem read_name (hc : Token.isNameStart c = true) (hcs : ∀ d ∈ cs, Token.isNamePart d = true)
    (hr : Parted rest) : read c (cs ++ rest) = .ok (.token
      (if Token.keywords.contains (String.ofList (c :: cs)) then .keyword else .identifier)
      (c :: cs), cs.length) := by
  have hne : ∀ d, Token.isNameStart d = false → c ≠ d := by
    rintro d hd rfl
    rw [hc] at hd
    cases hd
  have hblank : ¬ (c = ' ' ∨ c = '\t' ∨ c = '\n') := by
    rintro (h | h | h) <;> exact hne _ (by decide) h
  have hslash : c ≠ '/' := hne _ (by decide)
  simp only [read, if_neg hblank, hslash, false_and, if_false, if_pos hc,
    takeWhile_parted hcs hr (by decide), List.length_cons, Nat.add_sub_cancel]

theorem numberTail_append : ∀ {cs : List Char} {dot : Bool},
    (∀ d ∈ cs, Text.isDigit d = true ∨ d = '.') →
    cs.count '.' + dot.toNat ≤ 1 → Parted rest → numberTail dot (cs ++ rest) = .ok cs
  | [], dot, _, _, hr => by
    rcases rest with _ | ⟨c, rest⟩
    · rfl
    · rw [hr c rfl]
      rfl
  | d :: cs, dot, h, hd, hr => by
    rw [List.forall_mem_cons] at h
    rcases h.1 with hdig | rfl
    · have hne : d ≠ '.' := by
        rintro rfl
        exact absurd hdig (by decide)
      rw [List.count_cons_of_ne hne] at hd
      simp only [List.cons_append, numberTail, if_pos hdig, numberTail_append h.2 hd hr]
    · rw [List.count_cons_self] at hd
      cases dot with
      | true => simp at hd
      | false =>
        have hd' : cs.count '.' + true.toNat ≤ 1 := by simpa using hd
        have hdot : Text.isDigit '.' = false := by decide
        simp only [List.cons_append, numberTail, hdot, numberTail_append h.2 hd' hr,
          Bool.false_eq_true, if_false, if_true]

theorem stringTail_append {quote : Char} (hq : quote ≠ '\\') {s t : List Char}
    (h : Quoted quote s t) : stringTail quote (t ++ quote :: rest) = .ok (s, t.length + 1) := by
  induction h with
  | nil => rw [List.nil_append, stringTail.eq_def]; simp
  | plain hc hb h ih =>
    rw [List.cons_append, stringTail.eq_def]
    simp only [if_neg hc, if_neg hb, ih, List.length_cons]
  | escaped hd h ih =>
    rw [List.cons_append, List.cons_append, stringTail, if_neg (Ne.symm hq), if_pos rfl]
    simp only [hd, ih, List.length_cons]

/-- What comes after the first sign of a symbol. -/
theorem head_parted {p : Char → Bool} (h : ∀ d ∈ cs, p d = true) (hr : Parted rest) :
    ∀ d ∈ (cs ++ rest).head?, cs.head? = some d ∧ p d = true ∨ d = ' ' := by
  rcases cs with _ | ⟨e, cs⟩
  · exact fun d hd => .inr (hr d hd)
  · rintro _ ⟨⟩
    exact .inl ⟨rfl, h e List.mem_cons_self⟩

theorem read_operator {w : String} (h : isOperator w = true) (hw : w.toList = c :: cs)
    (hr : Parted rest) :
    read c (cs ++ rest) = .ok (.token .operator (c :: cs), cs.length) := by
  obtain ⟨-, hs, hcom⟩ := operators_signs w (mem_operators h)
  rw [hw] at hs hcom
  simp only [List.all_cons, Bool.and_eq_true, List.all_eq_true] at hs
  obtain ⟨hblank, hname, hdigit⟩ := Token.operatorChar_apart hs.1
  have hhead := head_parted hs.2 hr
  have hnum : (Text.isDigit c || (c == '.' && (cs ++ rest).head?.any Text.isDigit)) = false := by
    have hany : (cs ++ rest).head?.any Text.isDigit = false := by
      rcases he : (cs ++ rest).head? with _ | d
      · rfl
      · rcases hhead d he with ⟨-, hd⟩ | rfl
        · exact (Token.operatorChar_apart hd).2.2
        · decide
    rw [hdigit, hany, Bool.and_false, Bool.or_false]
  have hslash : ∀ d, d = '*' ∨ d = '/' → ¬ (c = '/' ∧ (cs ++ rest).head? = some d) := by
    rintro d hd ⟨rfl, he⟩
    obtain ⟨hstar, hsl⟩ := hcom rfl
    rcases hhead d he with ⟨hd', -⟩ | rfl
    · rcases hd with rfl | rfl
      · exact hstar hd'
      · exact hsl hd'
    · exact absurd hd (by decide)
  have hsym : String.ofList (c :: cs) = w := by
    rw [← hw, String.ofList_toList]
  simp only [read, if_neg hblank, if_neg (hslash _ (.inl rfl)), if_neg (hslash _ (.inr rfl)), hname,
    hnum, if_pos hs.1, takeWhile_parted hs.2 hr (by decide), hsym, if_pos h, Bool.false_eq_true,
    if_false, List.length_cons, Nat.add_sub_cancel]

theorem read_number (h : Numeric (c :: cs)) (hr : Parted rest) :
    read c (cs ++ rest) = .ok (.token .number (c :: cs), cs.length) := by
  obtain ⟨hc, hcs⟩ := List.forall_mem_cons.mp h.chars
  have hdots := h.dots
  have htail : numberTail (c == '.') (cs ++ rest) = .ok cs := by
    refine numberTail_append hcs ?_ hr
    rw [List.count_cons] at hdots
    cases hd : c == '.' <;> simp [hd] at hdots ⊢ <;> exact hdots
  have hnum : (Text.isDigit c || (c == '.' && (cs ++ rest).head?.any Text.isDigit)) = true := by
    rcases hc with hc | rfl
    · rw [hc, Bool.true_or]
    · obtain ⟨d, hd, hdig⟩ := h.digit
      rcases cs with _ | ⟨e, cs⟩
      · rw [List.mem_singleton.mp hd] at hdig
        exact absurd hdig (by decide)
      · rcases hcs e List.mem_cons_self with he | rfl
        · simp [he]
        · simp at hdots
  have hblank : ¬ (c = ' ' ∨ c = '\t' ∨ c = '\n') ∧ c ≠ '/' ∧ Token.isNameStart c = false := by
    rcases hc with hc | rfl
    · refine ⟨?_, ?_, Token.isNameStart_of_isDigit hc⟩
      · rintro (rfl | rfl | rfl) <;> exact absurd hc (by decide)
      · rintro rfl
        exact absurd hc (by decide)
    · decide
  simp only [read, if_neg hblank.1, hblank.2.1, hblank.2.2, hnum, htail, false_and, if_false,
    if_true, Bool.false_eq_true]

/-- What is read where no name, number, operator or comment begins. -/
theorem read_apart (h : Token.Apart c) (ho : Token.isOperatorChar c = false) :
    read c cs
      = if Token.isPunctuation c then .ok (.token .punctuation [c], 0)
        else if Token.isQuote c then
          match stringTail c cs with
          | .ok (s, n) => .ok (.token .string s, n)
          | .error m => .error { m with offset := m.offset + 1 }
        else if c = '#' then
          .ok (.token .tag (cs.takeWhile Token.isNamePart), (cs.takeWhile Token.isNamePart).length)
        else .error ⟨.character (some c) none, 0⟩ := by
  have hne : ∀ d, Token.isOperatorChar d = true → c ≠ d := by
    rintro d hd rfl
    rw [ho] at hd
    cases hd
  have hdot : (c == '.') = false := beq_eq_false_iff_ne.mpr (hne '.' (by decide))
  cases hs : stringTail c cs <;>
    simp only [read, if_neg h.1, hne '/' (by decide), h.2.1, h.2.2, hdot, ho, hs, false_and,
      if_false, Bool.false_and, Bool.or_false, Bool.false_eq_true]

/-- A spelling is read as its token. -/
theorem read_spelled {kind : TokenKind} {content : List Char} (h : Spelled kind content (c :: cs))
    (hr : Parted rest) : read c (cs ++ rest) = .ok (.token kind content, cs.length) := by
  generalize ht : c :: cs = text at h
  cases h with
  | identifier hc hcs hk =>
    cases ht
    rw [read_name hc hcs hr, if_neg (by rwa [List.contains_iff_mem])]
  | @keyword w h =>
    have hn := Token.keywords_named w h
    simp only [← ht, List.head?_cons, Option.any_some, List.all_cons, Bool.and_eq_true,
      List.all_eq_true] at hn
    rw [read_name hn.1 hn.2.2 hr, ht, String.ofList_toList, if_pos (List.contains_iff_mem.mpr h)]
  | operator h => rw [read_operator h ht.symm hr, ht]
  | punctuation h =>
    cases ht
    obtain ⟨ha, ho⟩ := Token.punctuation_apart h
    rw [List.nil_append, read_apart ha ho, if_pos h, List.length_nil]
  | number h =>
    subst ht
    exact read_number h hr
  | tag h =>
    cases ht
    rw [read_apart (by decide) (by decide), takeWhile_parted h hr (by decide)]
    rfl
  | string hq h =>
    cases ht
    obtain ⟨ha, ho, hp, hb⟩ := Token.quote_apart hq
    rw [read_apart ha ho, hp, if_neg Bool.false_ne_true, if_pos hq, List.append_assoc,
      List.singleton_append, stringTail_append hb h, List.length_append, List.length_singleton]

/-! ## What is read is spelled -/

theorem numberTail_ok {dot : Bool} {ds : List Char} (h : numberTail dot cs = .ok ds) :
    ds <+: cs ∧ (∀ d ∈ ds, Text.isDigit d = true ∨ d = '.') ∧ ds.count '.' + dot.toNat ≤ 1 := by
  have stop {dot : Bool} {cs : List Char} : ([] : List Char) <+: cs
      ∧ (∀ d ∈ ([] : List Char), Text.isDigit d = true ∨ d = '.')
      ∧ ([] : List Char).count '.' + dot.toNat ≤ 1 :=
    ⟨List.nil_prefix, fun _ => nofun, by cases dot <;> decide⟩
  fun_induction numberTail dot cs generalizing ds with
  | case1 => cases h; exact stop
  | case2 dot c cs hc ds' hds ih =>
    cases h
    obtain ⟨hp, hcs, hd⟩ := ih hds
    refine ⟨List.cons_prefix_cons.mpr ⟨rfl, hp⟩, List.forall_mem_cons.mpr ⟨.inl hc, hcs⟩, ?_⟩
    rwa [List.count_cons_of_ne]
    rintro rfl
    exact absurd hc (by decide)
  | case5 dot cs hdot ds' hds hc ih =>
    cases h
    obtain ⟨hp, hcs, hd⟩ := ih hds
    refine ⟨List.cons_prefix_cons.mpr ⟨rfl, hp⟩, List.forall_mem_cons.mpr ⟨.inr rfl, hcs⟩, ?_⟩
    rwa [List.count_cons_self, Bool.eq_false_iff.mpr hdot]
  | case7 => cases h; exact stop
  | _ => cases h

theorem numeric_cons {ds : List Char}
    (h : (Text.isDigit c || (c == '.' && cs.head?.any Text.isDigit)) = true)
    (hds : numberTail (c == '.') cs = .ok ds) : Numeric (c :: ds) := by
  obtain ⟨-, hcs, hd⟩ := numberTail_ok hds
  simp only [Bool.or_eq_true, Bool.and_eq_true, beq_iff_eq] at h
  rcases h with hc | ⟨rfl, hdig⟩
  · have hne : c ≠ '.' := by
      rintro rfl
      exact absurd hc (by decide)
    rw [beq_eq_false_iff_ne.mpr hne] at hd
    exact ⟨List.forall_mem_cons.mpr ⟨.inl hc, hcs⟩, by rwa [List.count_cons_of_ne hne],
      c, List.mem_cons_self, hc⟩
  · refine ⟨List.forall_mem_cons.mpr ⟨.inr rfl, hcs⟩, by rwa [List.count_cons_self], ?_⟩
    rcases cs with _ | ⟨d, cs⟩
    · cases hdig
    · have hdig : Text.isDigit d = true := hdig
      rw [numberTail, if_pos hdig] at hds
      split at hds <;> cases hds
      exact ⟨d, by simp, hdig⟩

theorem stringTail_ok {quote : Char} {s : List Char} {n : Nat}
    (h : stringTail quote cs = .ok (s, n)) :
    ∃ t rest, cs = t ++ quote :: rest ∧ n = t.length + 1 ∧ Quoted quote s t := by
  fun_induction stringTail quote cs generalizing s n with
  | case2 cs =>
    cases h
    exact ⟨[], cs, rfl, rfl, .nil⟩
  | case5 d cs e hd s' n' hs hq ih =>
    cases h
    obtain ⟨t, rest, rfl, rfl, ht⟩ := ih hs
    exact ⟨'\\' :: d :: t, rest, rfl, rfl, .escaped hd ht⟩
  | case7 c cs hq hb s' n' hs ih =>
    cases h
    obtain ⟨t, rest, rfl, rfl, ht⟩ := ih hs
    exact ⟨c :: t, rest, rfl, rfl, .plain hq hb ht⟩
  | _ => cases h

theorem take_takeWhile_length (p : Char → Bool) (cs : List Char) :
    cs.take (cs.takeWhile p).length = cs.takeWhile p :=
  (List.prefix_iff_eq_take.mp (List.takeWhile_prefix p)).symm

/-- A token is spelled by the characters it takes. -/
theorem spelled_of_read {kind : TokenKind} {content : List Char} {n : Nat}
    (h : read c cs = .ok (.token kind content, n)) :
    n ≤ cs.length ∧ Spelled kind content (c :: cs.take n) := by
  have taken (p : Char → Bool) : (cs.takeWhile p).length ≤ cs.length :=
    (List.takeWhile_prefix p).length_le
  rw [read] at h
  split_ifs at h with hblank hblock hline hname hnumber hsign hmark hquote htag
  · cases h
  · split at h <;> cases h
  · cases h
  · cases h
    rw [List.length_cons, Nat.add_sub_cancel, take_takeWhile_length]
    refine ⟨taken _, ?_⟩
    split
    · have hk := Spelled.keyword (List.contains_iff_mem.mp ‹_›)
      rwa [String.toList_ofList] at hk
    · exact .identifier hname (fun _ => List.mem_takeWhile_imp)
        fun hk => ‹¬ _› (List.contains_iff_mem.mpr hk)
  · split at h
    · cases h
      rename_i ds hds
      obtain ⟨hp, hcs, hd⟩ := numberTail_ok hds
      rw [← List.prefix_iff_eq_take.mp hp]
      refine ⟨hp.length_le, .number (numeric_cons hnumber hds)⟩
    · cases h
  · simp only [] at h
    split at h
    · cases h
      rw [List.length_cons, Nat.add_sub_cancel, take_takeWhile_length]
      have hs := Spelled.operator ‹_›
      rw [String.toList_ofList] at hs
      exact ⟨taken _, hs⟩
    · cases h
  · cases h
    exact ⟨Nat.zero_le _, .punctuation hmark⟩
  · split at h
    · cases h
      rename_i hs
      obtain ⟨t, rest, rfl, rfl, ht⟩ := stringTail_ok hs
      rw [List.take_length_add_append]
      exact ⟨by simp, .string hquote ht⟩
    · cases h
  · cases h
    rw [take_takeWhile_length, htag]
    exact ⟨taken _, .tag fun _ => List.mem_takeWhile_imp⟩

end Lexeme

/-! ## Line breaks -/

/-- A text with a line feed for each line break. -/
def lineFeeds : List Char → List Char
  | [] => []
  | '\r' :: '\n' :: cs => '\n' :: lineFeeds cs
  | c :: cs => (if c = '\r' then '\n' else c) :: lineFeeds cs

namespace Text

theorem replaceAll_char (a b : Char) (cs : List Char) :
    replaceAll [a] [b] cs = cs.map fun c => if c = a then b else c := by
  induction cs with
  | nil => rfl
  | cons c cs ih =>
    rw [replaceAll] at ih
    rw [replaceAll, replaceFrom, List.map_cons, ← ih]
    by_cases h : c = a
    · simp [h]
    · simp [h, Ne.symm h]

end Text

theorem lineFeeds_eq (cs : List Char) : Text.replaceAll ['\r'] ['\n']
    (Text.replaceAll ['\r', '\n'] ['\n'] cs) = lineFeeds cs := by
  rw [Text.replaceAll_char, Text.replaceAll]
  fun_induction lineFeeds cs with
  | case1 => rfl
  | case2 cs ih =>
    rw [← ih]
    rfl
  | case3 c cs hc ih =>
    have hp : ['\r', '\n'].isPrefixOf (c :: cs) = false := by
      rw [Bool.eq_false_iff, ne_eq, List.isPrefixOf_iff_prefix]
      rintro ⟨cs', h⟩
      cases h
      exact hc cs' rfl rfl
    rw [Text.replaceFrom, ← ih, hp]
    rfl

theorem Cursor.ofText_rest (s : String) : (Cursor.ofText s).rest = lineFeeds s.toList :=
  lineFeeds_eq s.toList

theorem lineFeeds_of_not_mem {cs : List Char} (h : '\r' ∉ cs) : lineFeeds cs = cs := by
  fun_induction lineFeeds cs with
  | case1 => rfl
  | case2 cs => simp at h
  | case3 c cs hc ih =>
    rw [List.mem_cons, not_or] at h
    rw [if_neg (Ne.symm h.1), ih h.2]

/-! ## Rows of tokens -/

namespace Tokens

variable {c : Char} {cs rest : List Char} {l : Location}

theorem scan_token {kind : TokenKind} {content : List Char} {n : Nat}
    (h : Lexeme.read c cs = .ok (.token kind content, n)) :
    scan ⟨l, c :: cs⟩ = cons ⟨kind, String.ofList content, l⟩
      (scan ((⟨l, c :: cs⟩ : Cursor).skip (n + 1))) := by
  rw [scan]
  split
  · rename_i hk
    cases hk
  · rename_i hk
    cases hk
    simp only [h]

theorem scan_misread {m : Misread} (h : Lexeme.read c cs = .error m) :
    scan ⟨l, c :: cs⟩
      = ⟨[], .error ⟨m.cause, some ((⟨l, c :: cs⟩ : Cursor).skip m.offset).location⟩⟩ := by
  rw [scan]
  split
  · rename_i hk
    cases hk
  · rename_i hk
    cases hk
    simp only [h]

theorem scan_gap {n : Nat} (h : Lexeme.read c cs = .ok (.gap, n)) :
    scan ⟨l, c :: cs⟩ = scan ((⟨l, c :: cs⟩ : Cursor).skip (n + 1)) := by
  rw [scan]
  split
  · rename_i hk
    cases hk
  · rename_i hk
    cases hk
    simp only [h]

/-- A spelling in front of a blank or the end is taken as its token. -/
theorem scan_spelled {kind : TokenKind} {content text : List Char} (h : Spelled kind content text)
    (hr : Parted rest) : scan ⟨l, text ++ rest⟩
      = cons ⟨kind, String.ofList content, l⟩ (scan ⟨l.past text, rest⟩) := by
  rcases text with _ | ⟨c, cs⟩
  · exact absurd rfl h.ne_nil
  · rw [List.cons_append, scan_token (Lexeme.read_spelled h hr)]
    simp [Cursor.skip]

theorem scan_blank : scan ⟨l, ' ' :: rest⟩ = scan ⟨l.step ' ', rest⟩ := by
  rw [scan_gap (n := 0) rfl]
  rfl

/-- Spellings with blanks between them are taken as what they spell. -/
theorem scan_row {ws : List Word} {texts : List (List Char)}
    (h : List.Forall₂ (fun w t => Spelled w.1 w.2.toList t) ws texts) (l : Location) :
    (scan ⟨l, [' '].intercalate texts⟩).tokens.map Token.word = ws
      ∧ ∃ location, (scan ⟨l, [' '].intercalate texts⟩).ending = .ok location := by
  induction h generalizing l with
  | nil =>
    rw [List.intercalate_nil, scan]
    exact ⟨rfl, l, rfl⟩
  | @cons w t ws ts hw hws ih =>
    cases hws with
    | nil =>
      have hs : scan ⟨l, t ++ []⟩ = _ := scan_spelled hw fun _ => nofun
      rw [List.append_nil] at hs
      rw [List.intercalate_singleton, hs, scan]
      exact ⟨by simp [cons, Token.word], _, rfl⟩
    | @cons w' t' ws ts hw' hws =>
      have hr : Parted (' ' :: [' '].intercalate (t' :: ts)) := by
        rintro _ ⟨⟩
        rfl
      obtain ⟨htokens, hend⟩ := ih ((l.past t).step ' ')
      rw [List.intercalate_cons_cons, List.append_assoc, List.singleton_append,
        scan_spelled hw hr, scan_blank]
      exact ⟨by simp [cons, Token.word, htokens], hend⟩

theorem return_not_mem_row {ws : List Word} {texts : List (List Char)}
    (h : List.Forall₂ (fun w t => Spelled w.1 w.2.toList t) ws texts)
    (hr : ∀ w ∈ ws, w.1 = .string → '\r' ∉ w.2.toList) : '\r' ∉ [' '].intercalate texts := by
  induction h with
  | nil => exact List.not_mem_nil
  | @cons w t ws ts hw hws ih =>
    rw [List.forall_mem_cons] at hr
    have ht := hw.return_not_mem hr.1
    cases hws with
    | nil => rwa [List.intercalate_singleton]
    | cons hw' hws =>
      rw [List.intercalate_cons_cons]
      simp [ht, ih hr.2]

/-- Reading undoes writing: spellings with blanks between them are read as the tokens they spell,
up to the end of the text, so that the last one can be taken as well. -/
theorem ofText_spelled {ws : List Word} {texts : List String}
    (h : List.Forall₂ (fun w t => Spelled w.1 w.2.toList t.toList) ws texts)
    (hr : ∀ w ∈ ws, w.1 = .string → '\r' ∉ w.2.toList) :
    let ts := ofText (" ".intercalate texts)
    ts.taken.map Token.word = ws ∧ ts.taken = ts.tokens ∧ ∃ location, ts.ending = .ok location := by
  have hrow : List.Forall₂ (fun w t => Spelled w.1 w.2.toList t) ws (texts.map String.toList) :=
    List.forall₂_map_right_iff.mpr h
  have hrest : (Cursor.ofText (" ".intercalate texts)).rest
      = [' '].intercalate (texts.map String.toList) := by
    rw [Cursor.ofText_rest, String.toList_intercalate]
    exact lineFeeds_of_not_mem (return_not_mem_row hrow hr)
  obtain ⟨htokens, location, hend⟩ := scan_row hrow .start
  rw [← hrest] at htokens hend
  have htaken : (ofText (" ".intercalate texts)).taken
      = (ofText (" ".intercalate texts)).tokens := by
    rw [taken]
    split
    · rfl
    · rename_i e he
      exact absurd (hend.symm.trans he) nofun
  exact ⟨htaken ▸ htokens, htaken, location, hend⟩

/-- Words of all kinds that could be taken for one another, were it not for the blanks. -/
theorem ofText_spelled_mixed :
    let ws : List Word := [(.identifier, "of_1"), (.keyword, "of"), (.number, "1."),
      (.number, ".5"), (.operator, "."), (.operator, "/"), (.tag, ""), (.string, "/* it's\n"),
      (.string, "\"\\"), (.punctuation, "[")]
    let texts := ["of_1", "of", "1.", ".5", ".", "/", "#", "'/* it\\'s\n'", "\x60\"\\\\\x60", "["]
    let ts := ofText (" ".intercalate texts)
    List.Forall₂ (fun w t => Spelled w.1 w.2.toList t.toList) ws texts
      ∧ (∀ w ∈ ws, w.1 = .string → '\r' ∉ w.2.toList)
      ∧ ts.taken.map Token.word = ws ∧ ts.taken = ts.tokens
      ∧ ∃ location, ts.ending = .ok location := by
  intro ws texts
  have hs : List.Forall₂ (fun w t => Spelled w.1 w.2.toList t.toList) ws texts := by
    refine .cons ?_ (.cons ?_ (.cons ?_ (.cons ?_ (.cons ?_ (.cons ?_ (.cons ?_ (.cons ?_ (.cons ?_
      (.cons ?_ .nil)))))))))
    · have hname : Spelled .identifier ['o', 'f', '_', '1'] ['o', 'f', '_', '1'] :=
        .identifier (by decide) (List.all_eq_true.mp (by decide)) (by decide)
      exact hname
    · exact .keyword (w := "of") (by decide)
    · have hnumber : Numeric ['1', '.'] := ⟨by simp [Text.isDigit], by decide, '1', by decide⟩
      exact .number hnumber
    · have hnumber : Numeric ['.', '5'] := ⟨by simp [Text.isDigit], by decide, '5', by decide⟩
      exact .number hnumber
    · exact .operator (w := ".") (by decide)
    · exact .operator (w := "/") (by decide)
    · have htag : Spelled .tag [] ['#'] := .tag (List.forall_mem_nil _)
      exact htag
    · have hq : Token.isQuote '\'' = true := by decide
      exact .string hq (.enquote hq true "/* it's\n".toList)
    · have hq : Token.isQuote '\x60' = true := by decide
      exact .string hq (.enquote hq true "\"\\".toList)
    · exact .punctuation (c := '[') (by decide)
  have hr : ∀ w ∈ ws, w.1 = .string → '\r' ∉ w.2.toList := by
    decide
  exact ⟨hs, hr, ofText_spelled hs hr⟩

end Tokens

end Tale
