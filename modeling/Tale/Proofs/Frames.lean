import Mathlib
import Tale.Fault
import Tale.Player.Frame
import Tale.Proofs.Bounds
import Tale.Proofs.Numerals

/-!
# Trails taken apart

A line of a trail says what the fault passed, and where if that is known: a colon, the line, a colon
and the column follow then. All that a reader goes by is whether the text ends like that. So what
was passed and the place come back from every line that has a place, whatever stands in front of it;
and a line without a place is taken to have one exactly if its own text ends in two numbers
(`frames_recovered`). None of the texts that stand in trails does, since each ends in a letter, a
quote or a bracket.
-/

namespace Tale

/-! ## Numbers -/

namespace Text

variable {s ds : List Char} {n : ℕ}

/-- A number of a machine word, with or without a plus sign. -/
def Number (s : List Char) (n : ℕ) : Prop :=
  ∃ ds, (s = ds ∨ s = '+' :: ds) ∧ Bounds.Numeral ds n

theorem numeral?_plus {limit : ℕ} (hd : ∀ c ∈ ds, isDigit c = true) (hn : ds ≠ []) :
    numeral? limit ('+' :: ds)
      = if digitsValue ds < limit then some (digitsValue ds) else none := by
  have hp : after? ['+'] ('+' :: ds) = some ds := after?_eq_some.mpr rfl
  simp only [numeral?, hp, Option.getD_some, List.isEmpty_eq_false_iff.mpr hn,
    List.all_eq_true.mpr hd, Bool.not_true, Bool.or_false, Bool.false_eq_true, if_false]

theorem Number.numeral? (h : Number s n) : numeral? word64 s = some n := by
  obtain ⟨ds, hs, hne, hd, rfl, hlt⟩ := h
  rcases hs with rfl | rfl
  · rw [numeral?_row hd hne]
    exact if_pos hlt
  · rw [numeral?_plus hd hne]
    exact if_pos hlt

theorem number_of_numeral? (h : Text.numeral? word64 s = some n) : Number s n := by
  rw [Text.numeral?] at h
  have hs : s = (after? ['+'] s).getD s ∨ s = '+' :: (after? ['+'] s).getD s := by
    rcases ha : after? ['+'] s with _ | r
    · exact .inl rfl
    · exact .inr (after?_eq_some.mp ha)
  refine ⟨_, hs, ?_⟩
  generalize (after? ['+'] s).getD s = ds at h
  dsimp only at h
  split_ifs at h with hd hlt
  · rw [Bool.not_eq_true, Bool.or_eq_false_iff, Bool.not_eq_false', List.all_eq_true,
      List.isEmpty_eq_false_iff] at hd
    cases h
    exact ⟨hd.1, hd.2, rfl, hlt⟩

theorem Number.not_mem_colon (h : Number s n) : ':' ∉ s := by
  obtain ⟨ds, hs, hd⟩ := h
  have hds : ':' ∉ ds := fun hc => absurd (hd.digits _ hc) (by decide)
  rcases hs with rfl | rfl
  · exact hds
  · exact List.not_mem_cons_of_ne_of_not_mem (by decide) hds

/-- A number ends in a digit. -/
theorem Number.last (h : Number s n) (front : List Char) :
    ∃ c, (front ++ s).getLast? = some c ∧ isDigit c = true := by
  obtain ⟨ds, hs, hd⟩ := h
  obtain ⟨ds, c, rfl⟩ := (List.eq_nil_or_concat' ds).resolve_left hd.ne_nil
  refine ⟨c, ?_, hd.digits c (by simp)⟩
  rcases hs with rfl | rfl <;> simp [List.getLast?_append, List.getLast?_cons]

theorem number_digits (hn : n < 2 ^ 64) : Number (digits n) n :=
  ⟨digits n, .inl rfl, List.ne_nil_of_length_pos Nat.length_toDigits_pos,
    Decimal.isDigit_digits n, Decimal.digitsValue_digits n, hn⟩

end Text

namespace Player.Frame

open Text (Number digits splitLast? splitLast?_append splitLast?_eq_some)

variable {info front line column : List Char} {l c : ℕ}

/-- A text that ends in a colon, a number, a colon and another number. -/
def EndsPlaced (info : List Char) : Prop :=
  ∃ front line column l c, info = front ++ ':' :: (line ++ ':' :: column)
    ∧ Number line l ∧ Number column c

/-! ## Reading -/

theorem placed?_append (hl : Number line l) (hc : Number column c) :
    placed? (front ++ ':' :: (line ++ ':' :: column))
      = some ⟨String.ofList front, some (l, c)⟩ := by
  have hcolumn : splitLast? ':' (front ++ ':' :: (line ++ ':' :: column))
      = some (front ++ ':' :: line, column) :=
    splitLast?_eq_some.mpr ⟨by simp, hc.not_mem_colon⟩
  have hline : splitLast? ':' (front ++ ':' :: line) = some (front, line) :=
    splitLast?_append hl.not_mem_colon front
  simp [placed?, hcolumn, hline, hl.numeral?, hc.numeral?]

theorem endsPlaced_of_placed? {f : Frame} (h : placed? info = some f) : EndsPlaced info := by
  simp only [placed?, Option.bind_eq_bind, Option.bind_eq_some_iff, Prod.exists] at h
  obtain ⟨rest, column, hcolumn, front, line, hline, l, hl, c, hc, -⟩ := h
  obtain ⟨rfl, -⟩ := splitLast?_eq_some.mp hcolumn
  obtain ⟨rfl, -⟩ := splitLast?_eq_some.mp hline
  exact ⟨front, line, column, l, c, by simp, Text.number_of_numeral? hl,
    Text.number_of_numeral? hc⟩

/-- What follows a text in a line with a place. -/
def placeText : Option Location → List Char
  | some l => ':' :: (digits l.line ++ ':' :: digits l.column)
  | none => []

/-- What a line of a trail is read as is decided by what follows its head. Blanks are trimmed from
the head alone, since its first letter stops that, whatever follows it. -/
theorem ofLine_line (info : String) (place : Option Location) :
    let text := info.toList ++ placeText place
    ofLine (Fault.line info place) = (placed? text).getD ⟨String.ofList text, none⟩ := by
  intro text
  have hline : (Fault.line info place).toList = "    at ".toList ++ text := by
    rcases place with _ | l <;> simp [text, placeText, Fault.line, Location.text, Text.decimal]
  have hhead : ("    at ".toList ++ text).dropWhile Text.isBlank = "at ".toList ++ text := rfl
  rw [ofLine, hline, hhead, Text.after?_eq_some.mpr rfl, Option.getD_some]

/-! ## Texts of trails -/

theorem EndsPlaced.last (h : EndsPlaced info) :
    ∃ c, info.getLast? = some c ∧ Text.isDigit c = true := by
  obtain ⟨front, line, column, l, c, rfl, -, hc⟩ := h
  obtain ⟨d, hd, hdigit⟩ := hc.last (front ++ ':' :: (line ++ [':']))
  exact ⟨d, by simpa using hd, hdigit⟩

theorem getLast?_toList_append (s : String) {t : String} {c : Char}
    (h : t.toList.getLast? = some c) : (s ++ t).toList.getLast? = some c := by
  rw [String.toList_append, List.getLast?_append, h, Option.some_or]

theorem passage_last (p : Fault.Passage) :
    ∃ c, p.text.toList.getLast? = some c ∧ Text.isDigit c = false := by
  cases p with
  | invocation op => exact ⟨'n', getLast?_toList_append _ (by decide), by decide⟩
  | element f i => exact ⟨')', getLast?_toList_append _ (by decide), by decide⟩
  | functionAction => exact ⟨'n', by decide, by decide⟩
  | pinned f => exact ⟨')', getLast?_toList_append _ (by decide), by decide⟩
  | «section» name =>
    exact ⟨'"', getLast?_toList_append _ (getLast?_toList_append _ (by decide)), by decide⟩
  | initialization => exact ⟨'n', by decide, by decide⟩

theorem not_endsPlaced_passage (p : Fault.Passage) : ¬ EndsPlaced p.text.toList := by
  intro h
  obtain ⟨c, hc, hdigit⟩ := h.last
  obtain ⟨d, hd, hother⟩ := passage_last p
  obtain rfl : c = d := Option.some.inj (hc.symm.trans hd)
  exact Bool.noConfusion (hdigit.symm.trans hother)

/-- What is written into a trail comes back: with a place, any text and any place within a machine
word; without one, exactly the texts that do not end in two numbers; and no text that stands in a
trail ends like that, whatever is named, quoted or described in it. -/
theorem frames_recovered :
    (∀ (info : String) (l : Location), l.line < 2 ^ 64 → l.column < 2 ^ 64 →
      ofLine (Fault.line info (some l)) = ⟨info, some (l.line, l.column)⟩)
    ∧ (∀ info : String,
      ofLine (Fault.line info none) = ⟨info, none⟩ ↔ ¬ EndsPlaced info.toList)
    ∧ ∀ p : Fault.Passage, ¬ EndsPlaced p.text.toList := by
  refine ⟨fun info l hl hc => ?_, fun info => ?_, not_endsPlaced_passage⟩
  · rw [ofLine_line, placeText, placed?_append (Text.number_digits hl)
      (Text.number_digits hc), Option.getD_some, String.ofList_toList]
  · rw [ofLine_line, placeText, List.append_nil]
    constructor
    · rintro h ⟨front, line, column, l, c, hi, hl, hc⟩
      rw [hi, placed?_append hl hc, Option.getD_some] at h
      cases h
    · intro h
      rcases hp : placed? info.toList with _ | f
      · rw [Option.getD_none, String.ofList_toList]
      · exact absurd (endsPlaced_of_placed? hp) h

/-- A text that looks placed itself, with the last line there is. Read without its place, it would
be taken for a place of its own. -/
theorem frames_recovered_placed :
    let l : Location := ⟨2 ^ 64 - 1, 7⟩
    l.line < 2 ^ 64 ∧ l.column < 2 ^ 64
      ∧ ofLine (Fault.line "f:1:2" (some l)) = ⟨"f:1:2", some (2 ^ 64 - 1, 7)⟩
      ∧ ofLine (Fault.line "f:1:2" none) ≠ ⟨"f:1:2", none⟩ := by
  intro l
  have hl : l.line < 2 ^ 64 := by decide
  have hc : l.column < 2 ^ 64 := by decide
  refine ⟨hl, hc, frames_recovered.1 "f:1:2" l hl hc, ?_⟩
  decide +kernel

end Player.Frame

end Tale
