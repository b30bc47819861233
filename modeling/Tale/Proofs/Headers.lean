import Mathlib
import Tale.Document.Split
import Tale.Proofs.Scanning

/-!
# Headers in documents

A header is `---<<<`, blanks, a name with a bound or without one, blanks and `>>>---` (`Heads`); it
begins with a line and ends with one, and may take several. It is found exactly where it stands
(`header?_eq_some`), so a document is its logic and then, one after the other, the headers and what
stands under them (`Laid`). Nothing of it is lost, and no piece of it holds a header, neither in
the document nor by itself (`split_lossless`).
-/

namespace Tale.Document

open Text (isBlank after?_eq_some)

variable {s t rest : List Char} {name : List Char} {bound : Option (List Char)}

/-! ## What a header looks like -/

/-- One blank or more. -/
def Blanks (s : List Char) : Prop :=
  s ≠ [] ∧ ∀ c ∈ s, isBlank c = true

/-- A letter or an underscore, and then letters, underscores and digits. -/
def Named (s : List Char) : Prop :=
  ∃ c cs, s = c :: cs ∧ Token.isNameStart c = true ∧ ∀ d ∈ cs, Token.isNamePart d = true

/-- Digits and dashes, one at least. -/
def Bounding (s : List Char) : Prop :=
  s ≠ [] ∧ ∀ c ∈ s, isBoundChar c = true

def boundText : Option (List Char) → List Char
  | none => []
  | some b => '@' :: b

/-- A text that heads the contents of a name and a bound. -/
structure Heads (name : List Char) (bound : Option (List Char)) (t : List Char) : Prop where
  named : Named name
  bounding : ∀ b ∈ bound, Bounding b
  written : ∃ before after, Blanks before ∧ Blanks after
    ∧ t = "---<<<".toList ++ (before ++ (name ++ (boundText bound ++ (after ++ ">>>---".toList))))

/-- Nothing more stands in the line. -/
def EndsLine (rest : List Char) : Prop :=
  ∀ c ∈ rest.head?, c = '\n'

/-! ## Characters of a header -/

section Characters

variable {c : Char}

theorem blank_range (h : isBlank c = true) : c.toNat ≤ 32 ∨ 133 ≤ c.toNat := by
  simp only [isBlank, Bool.or_eq_true, Bool.and_eq_true, decide_eq_true_eq, beq_iff_eq] at h
  omega

theorem namePart_range (h : Token.isNamePart c = true) : 48 ≤ c.toNat ∧ c.toNat ≤ 122 := by
  simp only [Token.isNamePart, Token.isNameStart, Text.isDigit, Bool.or_eq_true, Bool.and_eq_true,
    decide_eq_true_eq, beq_iff_eq, Char.le_def, UInt32.le_iff_toNat_le] at h
  rcases h with ((h | h) | rfl) | h
  · exact ⟨le_trans (by decide) h.1, le_trans h.2 (by decide)⟩
  · exact ⟨le_trans (by decide) h.1, le_trans h.2 (by decide)⟩
  · decide
  · exact ⟨le_trans (by decide) h.1, le_trans h.2 (by decide)⟩

theorem boundChar_range (h : isBoundChar c = true) : 45 ≤ c.toNat ∧ c.toNat ≤ 57 := by
  simp only [isBoundChar, Text.isDigit, Bool.or_eq_true, Bool.and_eq_true, decide_eq_true_eq,
    beq_iff_eq, Char.le_def, UInt32.le_iff_toNat_le] at h
  rcases h with h | rfl
  · exact ⟨le_trans (by decide) h.1, le_trans h.2 (by decide)⟩
  · decide

theorem namePart_of_start (h : Token.isNameStart c = true) : Token.isNamePart c = true := by
  rw [Token.isNamePart, h, Bool.true_or]

theorem not_blank_of_namePart (h : Token.isNamePart c = true) : isBlank c = false := by
  have := namePart_range h
  refine Bool.eq_false_iff.mpr fun hb => ?_
  have := blank_range hb
  omega

theorem not_namePart_of_blank (h : isBlank c = true) : Token.isNamePart c = false :=
  Bool.eq_false_iff.mpr fun hn => Bool.false_ne_true ((not_blank_of_namePart hn).symm.trans h)

theorem not_boundChar_of_blank (h : isBlank c = true) : isBoundChar c = false := by
  have := blank_range h
  refine Bool.eq_false_iff.mpr fun hb => ?_
  have := boundChar_range hb
  omega

end Characters

/-! ## Reading a header -/

theorem Blanks.head (h : Blanks s) : ∀ c ∈ (s ++ rest).head?, isBlank c = true := by
  rcases s with _ | ⟨b, bs⟩
  · exact absurd rfl h.1
  · rintro c ⟨⟩
    exact h.2 b (.head bs)

theorem blanks?_eq_some : blanks? s = some rest
    ↔ ∃ bs, Blanks bs ∧ s = bs ++ rest ∧ ∀ c ∈ rest.head?, isBlank c = false := by
  constructor
  · rcases s with _ | ⟨c, cs⟩
    · nofun
    · rw [blanks?]
      split_ifs with hc
      · rintro ⟨⟩
        obtain ⟨hs, hall, hstop⟩ := Text.takeWhile_dropWhile_eq.mp ⟨rfl, rfl⟩
        refine ⟨c :: cs.takeWhile isBlank, ⟨List.cons_ne_nil _ _, ?_⟩, congrArg _ hs, hstop⟩
        exact List.forall_mem_cons.mpr ⟨hc, hall⟩
      · nofun
  · rintro ⟨_ | ⟨b, bs⟩, ⟨hne, hall⟩, rfl, hstop⟩
    · exact absurd rfl hne
    · obtain ⟨hb, hall⟩ := List.forall_mem_cons.mp hall
      rw [List.cons_append, blanks?, if_pos hb,
        (Text.takeWhile_dropWhile_eq.mpr ⟨rfl, hall, hstop⟩).2]

theorem name?_eq_some : name? s = some (name, rest)
    ↔ Named name ∧ s = name ++ rest ∧ ∀ c ∈ rest.head?, Token.isNamePart c = false := by
  constructor
  · rcases s with _ | ⟨c, cs⟩
    · nofun
    · rw [name?]
      split_ifs with hc
      · rintro ⟨⟩
        obtain ⟨hs, hall, hstop⟩ := Text.takeWhile_dropWhile_eq.mp ⟨rfl, rfl⟩
        exact ⟨⟨c, _, rfl, hc, hall⟩, congrArg _ hs, hstop⟩
      · nofun
  · rintro ⟨⟨c, cs, rfl, hc, hall⟩, rfl, hstop⟩
    obtain ⟨htake, hdrop⟩ := Text.takeWhile_dropWhile_eq.mpr ⟨rfl, hall, hstop⟩
    rw [List.cons_append, name?, if_pos hc, htake, hdrop]

theorem bound?_at (cs : List Char) : bound? ('@' :: cs) = some (bound, rest)
    ↔ ∃ b, bound = some b ∧ Bounding b ∧ cs = b ++ rest
      ∧ ∀ c ∈ rest.head?, isBoundChar c = false := by
  rw [bound?]
  rcases hs : cs.span isBoundChar with ⟨_ | ⟨b, bs⟩, r⟩
  · refine iff_of_false nofun ?_
    rintro ⟨b, -, ⟨hne, hall⟩, hcs, hstop⟩
    exact hne (Prod.mk.inj ((Text.span_eq.mpr ⟨hcs, hall, hstop⟩).symm.trans hs)).1
  · obtain ⟨hcs, hall, hstop⟩ := Text.span_eq.mp hs
    constructor
    · rintro ⟨⟩
      exact ⟨_, rfl, ⟨List.cons_ne_nil b bs, hall⟩, hcs, hstop⟩
    · rintro ⟨b', rfl, ⟨hne, hall⟩, hcs, hstop⟩
      obtain ⟨rfl, rfl⟩ := Prod.mk.inj ((Text.span_eq.mpr ⟨hcs, hall, hstop⟩).symm.trans hs)
      rfl

theorem bound?_eq_some : bound? s = some (bound, rest)
    ↔ (∀ b ∈ bound, Bounding b) ∧ s = boundText bound ++ rest
      ∧ ∀ c ∈ rest.head?, if bound.isSome then isBoundChar c = false else c ≠ '@' := by
  by_cases hat : ∃ cs, s = '@' :: cs
  · obtain ⟨cs, rfl⟩ := hat
    rw [bound?_at]
    rcases bound with _ | b
    · refine iff_of_false nofun ?_
      rintro ⟨-, rfl, hstop⟩
      exact hstop '@' rfl rfl
    · simp [boundText]
  · rw [bound?.eq_2 s fun cs hs => hat ⟨cs, hs⟩]
    rcases bound with _ | b
    · constructor
      · rintro ⟨⟩
        refine ⟨nofun, rfl, fun c hc => ?_⟩
        rintro rfl
        exact hat ⟨_, List.eq_cons_of_mem_head? hc⟩
      · rintro ⟨-, rfl, -⟩
        rfl
    · exact iff_of_false nofun fun ⟨_, hs, _⟩ => hat ⟨_, hs⟩

/-- A header is read exactly where it is written: each of its parts ends where the next begins, as
their characters are of classes apart. -/
theorem header?_eq_some {h : Header} : header? s = some h
    ↔ ∃ t rest, s = t ++ rest ∧ Heads h.name h.bound t ∧ h.width = t.length ∧ EndsLine rest := by
  simp only [header?, Option.bind_eq_bind, Option.bind_eq_some_iff, after?_eq_some,
    blanks?_eq_some, name?_eq_some, bound?_eq_some, Prod.exists]
  constructor
  · rintro ⟨_, rfl, _, ⟨before, hbefore, rfl, -⟩, name, _, ⟨hname, rfl, -⟩, bound, _,
      ⟨hbound, rfl, -⟩, _, ⟨after, hafter, rfl, -⟩, rest, rfl, h⟩
    split_ifs at h with hrest
    cases h
    refine ⟨_, rest, ?_, ⟨hname, hbound, before, after, hbefore, hafter, rfl⟩, ?_, ?_⟩
    · simp only [List.append_assoc]
    · simp only [List.length_append]
      omega
    · simpa [EndsLine, Option.all_eq_true] using hrest
  · rintro ⟨t, rest, rfl, ⟨hname, hbound, before, after, hbefore, hafter, rfl⟩, hw, hrest⟩
    refine ⟨_, by simp only [List.append_assoc], _, ⟨before, hbefore, rfl, ?_⟩, h.name, _,
      ⟨hname, rfl, ?_⟩, h.bound, _, ⟨hbound, rfl, ?_⟩, _, ⟨after, hafter, rfl, ?_⟩, rest, rfl, ?_⟩
    · obtain ⟨c, cs, hc, hstart, -⟩ := hname
      rw [hc]
      rintro _ ⟨⟩
      exact not_blank_of_namePart (namePart_of_start hstart)
    · rcases h.bound with _ | b
      · exact fun c hc => not_namePart_of_blank (hafter.head c hc)
      · rintro _ ⟨⟩
        rfl
    · intro c hc
      have hblank := hafter.head c hc
      split_ifs
      · exact not_boundChar_of_blank hblank
      · rintro rfl
        exact absurd hblank (by decide)
    · rintro _ ⟨⟩
      rfl
    · rw [if_pos (by simpa [EndsLine, Option.all_eq_true] using hrest)]
      refine congrArg some ?_
      rcases h with ⟨name, bound, width⟩
      dsimp only at hw
      simp only [Header.mk.injEq, true_and, hw, List.length_append]
      omega

/-! ## Where headers stand -/

/-- Whether the next line begins after a text; `ls` says it of the place before the text. -/
def startsLine (ls : Bool) (before : List Char) : Bool :=
  before.getLast?.elim ls (· == '\n')

theorem startsLine_cons (ls : Bool) (c : Char) (before : List Char) :
    startsLine ls (c :: before) = startsLine (c == '\n') before := by
  rw [startsLine, startsLine, List.getLast?_cons]
  cases before.getLast? <;> rfl

theorem startsLine_append (ls : Bool) (s t : List Char) :
    startsLine ls (s ++ t) = startsLine (startsLine ls s) t := by
  rw [startsLine, startsLine, startsLine, List.getLast?_append]
  cases t.getLast? <;> rfl

/-- A header stands at the head of a text, and nothing else in the lines it takes. -/
def Headed (s : List Char) : Prop :=
  ∃ name bound t rest, s = t ++ rest ∧ Heads name bound t ∧ EndsLine rest

/-- A header stands somewhere in a text; `ls` says whether the text begins a line. -/
def HasHeader (ls : Bool) (s : List Char) : Prop :=
  ∃ before rest, s = before ++ rest ∧ startsLine ls before = true ∧ Headed rest

theorem Heads.ne_nil (h : Heads name bound t) : t ≠ [] := by
  obtain ⟨before, after, -, -, rfl⟩ := h.written
  nofun

/-- A header does not end in a line break. -/
theorem Heads.startsLine (h : Heads name bound t) (ls : Bool) : startsLine ls t = false := by
  obtain ⟨before, after, -, -, rfl⟩ := h.written
  simp only [← List.append_assoc, startsLine_append]
  rfl

theorem EndsLine.append (h : EndsLine s) (hs : s ≠ []) (rest : List Char) :
    EndsLine (s ++ rest) := by
  rcases s with _ | ⟨c, cs⟩
  · exact absurd rfl hs
  · exact h

theorem headed_iff : Headed s ↔ header? s ≠ none := by
  rw [Option.ne_none_iff_exists']
  constructor
  · rintro ⟨name, bound, t, rest, hs, ht, hrest⟩
    exact ⟨⟨name, bound, t.length⟩, header?_eq_some.mpr ⟨t, rest, hs, ht, rfl, hrest⟩⟩
  · rintro ⟨h, hh⟩
    obtain ⟨t, rest, hs, ht, -, hrest⟩ := header?_eq_some.mp hh
    exact ⟨_, _, t, rest, hs, ht, hrest⟩

theorem not_headed_nil : ¬ Headed [] := by
  rintro ⟨name, bound, t, rest, hs, ht, -⟩
  exact ht.ne_nil (List.append_eq_nil_iff.mp hs.symm).1

/-- What is no header at the end of a piece is none in the text either, since a header does not
end where a line begins. -/
theorem Headed.append {ls : Bool} (h : Headed s) (hs : startsLine ls s = true)
    (rest : List Char) : Headed (s ++ rest) := by
  obtain ⟨name, bound, t, after, rfl, ht, hafter⟩ := h
  have hne : after ≠ [] := by
    rintro rfl
    rw [List.append_nil, ht.startsLine] at hs
    cases hs
  exact ⟨name, bound, t, after ++ rest, List.append_assoc .., ht, hafter.append hne rest⟩

theorem not_hasHeader_nil (ls : Bool) : ¬ HasHeader ls [] := by
  rintro ⟨before, rest, hs, -, h⟩
  rw [(List.append_eq_nil_iff.mp hs.symm).2] at h
  exact not_headed_nil h

theorem hasHeader_cons {ls : Bool} {c : Char} {cs : List Char} :
    HasHeader ls (c :: cs) ↔ (ls = true ∧ Headed (c :: cs)) ∨ HasHeader (c == '\n') cs := by
  constructor
  · rintro ⟨_ | ⟨b, before⟩, rest, hs, hline, h⟩
    · exact .inl ⟨hline, hs ▸ h⟩
    · obtain ⟨rfl, rfl⟩ := List.cons.inj hs
      rw [startsLine_cons] at hline
      exact .inr ⟨before, rest, rfl, hline, h⟩
  · rintro (⟨hls, h⟩ | ⟨before, rest, rfl, hline, h⟩)
    · exact ⟨[], c :: cs, rfl, hls, h⟩
    · exact ⟨c :: before, rest, rfl, by rw [startsLine_cons, hline], h⟩

/-! ## Splitting at headers -/

/-- What belongs to a header already read is passed over. -/
theorem splitFrom_append (ls : Bool) (t rest : List Char) :
    splitFrom t.length ls (t ++ rest) = splitFrom 0 (startsLine ls t) rest := by
  induction t generalizing ls with
  | nil => rfl
  | cons c t ih => rw [List.cons_append, List.length_cons, splitFrom, ih, startsLine_cons]

/-- The contents under a header. -/
def contentsUnder (name : List Char) (bound : Option (List Char)) (markdown : List Char) :
    RawContent :=
  ⟨String.ofList name, bound.map String.ofList, String.ofList markdown⟩

theorem splitFrom_header (h : Heads name bound t) (hrest : EndsLine rest) :
    splitFrom 0 true (t ++ rest) = ([],
      contentsUnder name bound (splitFrom 0 false rest).1 :: (splitFrom 0 false rest).2) := by
  have hh : header? (t ++ rest) = some ⟨name, bound, t.length⟩ :=
    header?_eq_some.mpr ⟨t, rest, rfl, h, rfl, hrest⟩
  have hline := h.startsLine true
  rcases t with _ | ⟨c, t⟩
  · exact absurd rfl h.ne_nil
  · rw [startsLine_cons] at hline
    rw [List.cons_append] at hh ⊢
    rw [splitFrom, if_pos rfl, hh]
    dsimp only
    rw [List.length_cons, Nat.add_sub_cancel, splitFrom_append, hline]
    rfl

theorem splitFrom_char {ls : Bool} {c : Char} {cs : List Char}
    (h : ¬ (ls = true ∧ Headed (c :: cs))) : splitFrom 0 ls (c :: cs)
      = (c :: (splitFrom 0 (c == '\n') cs).1, (splitFrom 0 (c == '\n') cs).2) := by
  have hnone : (if ls = true then header? (c :: cs) else none) = none := by
    split_ifs with hls
    · exact not_not.mp fun hne => h ⟨hls, headed_iff.mpr hne⟩
    · rfl
  rw [splitFrom, hnone]

/-- Behind a header nothing can head contents before the line ends. -/
theorem splitFrom_endsLine (h : EndsLine s) : splitFrom 0 false s = splitFrom 0 true s := by
  rcases s with _ | ⟨c, cs⟩
  · rfl
  · obtain rfl := h c rfl
    have hc : ¬ Headed ('\n' :: cs) := fun hh => headed_iff.mp hh rfl
    rw [splitFrom_char fun hh => hc hh.2, splitFrom_char fun hh => hc hh.2]

/-- A text without a header is one piece; any other is a piece without a header, a header, and what
is split behind it. -/
theorem splitFrom_cases : ∀ (ls : Bool) (s : List Char),
    ¬ HasHeader ls s ∧ splitFrom 0 ls s = (s, [])
      ∨ ∃ piece name bound t rest, s = piece ++ (t ++ rest) ∧ ¬ HasHeader ls piece
        ∧ startsLine ls piece = true ∧ Heads name bound t ∧ EndsLine rest
        ∧ splitFrom 0 ls s = (piece,
          contentsUnder name bound (splitFrom 0 false rest).1 :: (splitFrom 0 false rest).2)
  | ls, [] => .inl ⟨not_hasHeader_nil ls, rfl⟩
  | ls, c :: cs => by
    by_cases hhere : ls = true ∧ Headed (c :: cs)
    · obtain ⟨rfl, name, bound, t, rest, hs, h, hrest⟩ := hhere
      refine .inr ⟨[], name, bound, t, rest, hs, not_hasHeader_nil true, rfl, h, hrest, ?_⟩
      rw [hs, splitFrom_header h hrest]
    · rw [splitFrom_char hhere]
      rcases splitFrom_cases (c == '\n') cs with ⟨hcs, hsplit⟩
        | ⟨piece, name, bound, t, rest, rfl, hpiece, hline, h, hrest, hsplit⟩
      · exact .inl ⟨hasHeader_cons.not.mpr (not_or.mpr ⟨hhere, hcs⟩), by rw [hsplit]⟩
      · have hline : startsLine ls (c :: piece) = true := by rw [startsLine_cons, hline]
        refine .inr ⟨c :: piece, name, bound, t, rest, rfl, ?_, hline, h, hrest, by rw [hsplit]⟩
        refine hasHeader_cons.not.mpr (not_or.mpr ⟨?_, hpiece⟩)
        rintro ⟨hls, hpiece⟩
        exact hhere ⟨hls, hpiece.append hline (t ++ rest)⟩

/-- A document as it is laid out: pieces without a header, and between them headers that fill the
lines they stand in. -/
inductive Laid : (s logic : List Char) → List RawContent → Prop
  | logic {s : List Char} (hs : ¬ HasHeader true s) : Laid s s []
  | content {piece name t rest markdown : List Char} {bound : Option (List Char)}
    {more : List RawContent} (hpiece : ¬ HasHeader true piece)
    (hline : startsLine true piece = true) (ht : Heads name bound t) (hends : EndsLine rest)
    (hrest : Laid rest markdown more) :
    Laid (piece ++ (t ++ rest)) piece (contentsUnder name bound markdown :: more)

theorem laid_splitFrom (s : List Char) : Laid s (splitFrom 0 true s).1 (splitFrom 0 true s).2 := by
  rcases splitFrom_cases true s with ⟨hs, hsplit⟩
    | ⟨piece, name, bound, t, rest, hs, hpiece, hline, ht, hrest, hsplit⟩
  · rw [hsplit]
    exact .logic hs
  · have hlt : rest.length < s.length := by
      have := List.length_pos_of_ne_nil ht.ne_nil
      rw [hs, List.length_append, List.length_append]
      omega
    rw [hsplit, splitFrom_endsLine hrest, hs]
    exact .content hpiece hline ht hrest (laid_splitFrom rest)
termination_by s.length
decreasing_by exact hlt

theorem split_headless {p : String} (h : ¬ HasHeader true p.toList) : split p = (p, []) := by
  rcases splitFrom_cases true p.toList with ⟨-, hsplit⟩
    | ⟨piece, name, bound, t, rest, hp, -, hline, ht, hrest, -⟩
  · simp only [split, hsplit, String.ofList_toList]
  · exact absurd ⟨piece, t ++ rest, hp, hline, name, bound, t, rest, rfl, ht, hrest⟩ h

/-- The text that heads some contents. -/
def RawContent.HeadedBy (r : RawContent) (t : List Char) : Prop :=
  Heads r.name.toList (r.bound.map String.toList) t

theorem Laid.headless {logic : List Char} {contents : List RawContent}
    (h : Laid s logic contents) :
    ¬ HasHeader true logic ∧ ∀ r ∈ contents, ¬ HasHeader true r.markdown.toList := by
  induction h with
  | logic hs => exact ⟨hs, nofun⟩
  | content hpiece _ _ _ _ ih =>
    refine ⟨hpiece, List.forall_mem_cons.mpr ⟨?_, ih.2⟩⟩
    rw [contentsUnder, String.toList_ofList]
    exact ih.1

/-- Nothing of a document is lost. -/
theorem Laid.lossless {logic : List Char} {contents : List RawContent}
    (h : Laid s logic contents) : ∃ headers, List.Forall₂ RawContent.HeadedBy contents headers
      ∧ s = logic
        ++ (List.zipWith (fun r t => t ++ r.markdown.toList) contents headers).flatten := by
  induction h with
  | logic hs => exact ⟨[], .nil, (List.append_nil _).symm⟩
  | @content piece name t rest markdown bound more hpiece hline ht hends hrest ih =>
    obtain ⟨headers, hheaders, rfl⟩ := ih
    refine ⟨t :: headers, .cons ?_ hheaders, ?_⟩
    · cases bound <;> simpa [RawContent.HeadedBy, contentsUnder] using ht
    · simp [contentsUnder]

/-- A document is the logic it is split into, and then for each contents a header of the name and
bound of these contents and their text. Splitting a piece once more finds nothing. -/
theorem split_lossless (s : String) :
    Laid s.toList (split s).1.toList (split s).2
    ∧ (∃ headers, List.Forall₂ RawContent.HeadedBy (split s).2 headers
      ∧ s.toList = (split s).1.toList
        ++ (List.zipWith (fun r t => t ++ r.markdown.toList) (split s).2 headers).flatten)
    ∧ split (split s).1 = ((split s).1, [])
    ∧ ∀ r ∈ (split s).2, split r.markdown = (r.markdown, []) := by
  have hlaid : Laid s.toList (split s).1.toList (split s).2 := by
    rw [split, String.toList_ofList]
    exact laid_splitFrom s.toList
  obtain ⟨hlogic, hcontents⟩ := hlaid.headless
  exact ⟨hlaid, hlaid.lossless, split_headless hlogic, fun r hr => split_headless (hcontents r hr)⟩

/-- Under the second header stands a line that looks like one, and ends too late. -/
theorem split_lossless_greeting :
    ⟨"a", some "2-", "\n---<<< b >>>--- \nHello"⟩
        ∈ (split "x\n---<<< a\n >>>---\n---<<< a@2- >>>---\n---<<< b >>>--- \nHello").2
      ∧ split "\n---<<< b >>>--- \nHello" = ("\n---<<< b >>>--- \nHello", []) := by
  have hmem : ⟨"a", some "2-", "\n---<<< b >>>--- \nHello"⟩
      ∈ (split "x\n---<<< a\n >>>---\n---<<< a@2- >>>---\n---<<< b >>>--- \nHello").2 := by
    decide +kernel
  have hsplit := (split_lossless _).2.2.2 _ hmem
  exact ⟨hmem, hsplit⟩

end Tale.Document
