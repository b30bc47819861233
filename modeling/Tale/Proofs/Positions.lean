import Mathlib.Data.List.Induction
import Tale.Proofs.Spelling

/-!
# Where tokens stand

A text is counted with a line feed for each of its line breaks. The place of a token is that of its
first character (`Tokens.ofText_spans`): its line is one more than the line feeds before it, its
column one more than the characters since the last of them. From there on the text spells the
token, and the next token begins where it ends or later.
-/

namespace Tale

/-! ## Places -/

/-- The characters after the last line feed. -/
def lastLine (s : List Char) : List Char :=
  (s.reverse.takeWhile (· ≠ '\n')).reverse

namespace Location

/-- An earlier place. -/
def Before (l m : Location) : Prop :=
  l.line < m.line ∨ l.line = m.line ∧ l.column < m.column

theorem Before.trans {l m n : Location} (h : l.Before m) (h' : m.Before n) : l.Before n := by
  unfold Before at *
  omega

theorem before_step (l : Location) (c : Char) : l.Before (l.step c) := by
  unfold Before step
  split
  · exact .inl (Nat.lt_succ_self _)
  · exact .inr ⟨rfl, Nat.lt_succ_self _⟩

theorem past_append (l : Location) (s t : List Char) : l.past (s ++ t) = (l.past s).past t :=
  List.foldl_append

theorem before_past (l : Location) : ∀ {s : List Char}, s ≠ [] → l.Before (l.past s)
  | [c], _ => before_step l c
  | c :: d :: s, _ =>
    (before_step l c).trans (before_past (l.step c) (List.cons_ne_nil d s))

/-- The place after a text, counted in the text. -/
theorem past_start (s : List Char) :
    start.past s = ⟨1 + s.count '\n', 1 + (lastLine s).length⟩ := by
  induction s using List.reverseRecOn with
  | nil => rfl
  | append_singleton s c ih =>
    rw [past_append, ih]
    show step _ c = _
    by_cases h : c = '\n'
    · subst h
      simp [step, lastLine, Nat.add_assoc]
    · simp [step, lastLine, h, Nat.add_assoc]

end Location

/-! ## What a lexeme takes -/

namespace Lexeme

variable {c : Char} {cs : List Char} {n : Nat}

theorem blockComment_le (h : blockComment cs = some n) : n ≤ cs.length := by
  fun_induction blockComment cs generalizing n with
  | case1 | case2 => cases h
  | case3 =>
    cases h
    simp
  | case4 c cs hc ih =>
    obtain ⟨m, hm, rfl⟩ := Option.map_eq_some_iff.mp h
    exact Nat.add_le_add_right (ih hm) 2
  | case5 c cs _ _ ih =>
    obtain ⟨m, hm, rfl⟩ := Option.map_eq_some_iff.mp h
    exact Nat.succ_le_succ (ih hm)

theorem lineComment_le (cs : List Char) : lineComment cs ≤ cs.length := by
  fun_induction lineComment cs with
  | case1 => exact Nat.le_refl 0
  | case2 cs => exact Nat.succ_le_succ (Nat.zero_le _)
  | case3 c cs hc ih => exact Nat.succ_le_succ ih

theorem gap_le (h : read c cs = .ok (.gap, n)) : n ≤ cs.length := by
  rw [read] at h
  split_ifs at h with hblank hblock hline
  · cases h
    exact Nat.zero_le _
  · split at h
    · cases h
      rename_i n hn
      have := blockComment_le hn
      rcases cs with _ | ⟨d, cs⟩
      · cases hblock.2
      · exact Nat.succ_le_succ this
    · cases h
  · cases h
    exact lineComment_le cs
  · cases h
  · split at h <;> cases h
  · simp only [] at h
    split at h <;> cases h
  · cases h
  · split at h <;> cases h
  · cases h

/-- A text is not read beyond its end. -/
theorem read_le {lexeme : Lexeme} (h : read c cs = .ok (lexeme, n)) : n ≤ cs.length := by
  cases lexeme with
  | gap => exact gap_le h
  | token => exact (spelled_of_read h).1

end Lexeme

/-! ## Stretches -/

/-- A token is written from one offset of a text up to another one. -/
structure Token.Spans (text : List Char) (t : Token) (start stop : Nat) : Prop where
  lt : start < stop
  le : stop ≤ text.length
  spelled : Spelled t.kind t.content.toList ((text.drop start).take (stop - start))
  line : t.location.line = 1 + (text.take start).count '\n'
  column : t.location.column = 1 + (lastLine (text.take start)).length

namespace Token.Spans

variable {text : List Char} {t t' : Token} {start stop start' stop' : Nat}

theorem location_eq (h : t.Spans text start stop) :
    t.location = Location.start.past (text.take start) := by
  rw [Location.past_start, ← h.line, ← h.column]

/-- What is written later has a later place. -/
theorem before (h : t.Spans text start stop) (h' : t'.Spans text start' stop')
    (hs : stop ≤ start') : t.location.Before t'.location := by
  obtain ⟨n, rfl⟩ := Nat.exists_eq_add_of_le (h.lt.le.trans hs)
  rw [h.location_eq, h'.location_eq, List.take_add, Location.past_append]
  refine Location.before_past _ (List.ne_nil_of_length_pos ?_)
  have := h.lt
  have := h'.lt
  have := h'.le
  rw [List.length_take, List.length_drop]
  omega

end Token.Spans

namespace Tokens

/-- A cursor in a text. -/
structure Within (text : List Char) (offset : Nat) (k : Cursor) : Prop where
  le : offset ≤ text.length
  location : k.location = Location.start.past (text.take offset)
  rest : k.rest = text.drop offset

theorem Within.skip {text : List Char} {offset n : Nat} {k : Cursor} (h : Within text offset k)
    (hn : n ≤ k.rest.length) : Within text (offset + n) (k.skip n) where
  le := by
    have := h.le
    rw [h.rest, List.length_drop] at hn
    omega
  location := by
    rw [Cursor.skip, h.location, h.rest, ← Location.past_append, ← List.take_add]
  rest := by
    rw [Cursor.skip, h.rest, List.drop_drop]

theorem Within.spans {text : List Char} {offset n : Nat} {k : Cursor} {c : Char} {cs : List Char}
    {kind : TokenKind} {content : List Char} (h : Within text offset k) (hrest : k.rest = c :: cs)
    (hread : Lexeme.read c cs = .ok (.token kind content, n)) :
    Token.Spans text ⟨kind, String.ofList content, k.location⟩ offset (offset + (n + 1)) where
  lt := Nat.lt_add_of_pos_right (Nat.succ_pos n)
  le := (h.skip (hrest ▸ Nat.succ_le_succ (Lexeme.read_le hread))).le
  spelled := by
    rw [← h.rest, hrest, Nat.add_sub_cancel_left, String.toList_ofList]
    exact (Lexeme.spelled_of_read hread).2
  line := by
    show k.location.line = _
    rw [h.location, Location.past_start]
  column := by
    show k.location.column = _
    rw [h.location, Location.past_start]

/-- The tokens of a scan are written one after the other, from the cursor on. A gap writes none. -/
theorem scan_spans {text : List Char} (k : Cursor) {offset : Nat} (h : Within text offset k) :
    ∃ spans : List (Nat × Nat),
      List.Forall₂ (fun t s => t.Spans text s.1 s.2) (scan k).tokens spans
        ∧ (∀ s ∈ spans, offset ≤ s.1) ∧ spans.Pairwise fun s s' => s.2 ≤ s'.1 := by
  fun_induction scan k generalizing offset with
  | case1 k hrest => exact ⟨[], .nil, nofun, .nil⟩
  | case2 k c cs hrest m hread => exact ⟨[], .nil, nofun, .nil⟩
  | case3 k c cs hrest n hread ih =>
    have hn : n + 1 ≤ k.rest.length := by
      rw [hrest]
      exact Nat.succ_le_succ (Lexeme.read_le hread)
    obtain ⟨spans, hspans, hoffset, hpairs⟩ := ih (h.skip hn)
    exact ⟨spans, hspans, fun s hs => Nat.le_of_add_right_le (hoffset s hs), hpairs⟩
  | case4 k c cs hrest kind content n hread ih =>
    have hn : n + 1 ≤ k.rest.length := by
      rw [hrest]
      exact Nat.succ_le_succ (Lexeme.read_le hread)
    obtain ⟨spans, hspans, hoffset, hpairs⟩ := ih (h.skip hn)
    refine ⟨(offset, offset + (n + 1)) :: spans, .cons ?_ hspans, ?_, .cons hoffset hpairs⟩
    · exact h.spans hrest hread
    · exact List.forall_mem_cons.mpr
        ⟨Nat.le_refl _, fun s hs => Nat.le_of_add_right_le (hoffset s hs)⟩

theorem pairwise_before {text : List Char} {tokens : List Token} {spans : List (Nat × Nat)}
    (h : List.Forall₂ (fun t s => t.Spans text s.1 s.2) tokens spans)
    (hs : spans.Pairwise fun s s' => s.2 ≤ s'.1) :
    tokens.Pairwise fun t t' => t.location.Before t'.location := by
  induction h with
  | nil => exact .nil
  | @cons t s tokens spans ht htokens ih =>
    obtain ⟨hhead, htail⟩ := List.pairwise_cons.mp hs
    refine .cons (fun t' ht' => ?_) (ih htail)
    obtain ⟨i, hi, rfl⟩ := List.getElem_of_mem ht'
    have hi' : i < spans.length := htokens.length_eq ▸ hi
    exact ht.before (htokens.get hi hi') (hhead _ (List.getElem_mem hi'))

theorem taken_prefix (ts : Tokens) : ts.taken <+: ts.tokens := by
  rw [taken]
  split
  · exact List.prefix_refl _
  · exact List.dropLast_prefix _

/-- Places are exact. Each token is written in a stretch of the text with line feeds for line
breaks, counted there; these stretches do not overlap, and so the places increase. -/
theorem ofText_spans (source : String) : ∃ spans : List (Nat × Nat),
    List.Forall₂ (fun t s => t.Spans (lineFeeds source.toList) s.1 s.2) (ofText source).tokens spans
      ∧ spans.Pairwise (fun s s' => s.2 ≤ s'.1)
      ∧ (ofText source).tokens.Pairwise (fun t t' => t.location.Before t'.location)
      ∧ (ofText source).taken <+: (ofText source).tokens := by
  have hstart : Within (lineFeeds source.toList) 0 (.ofText source) :=
    ⟨Nat.zero_le _, rfl, Cursor.ofText_rest source⟩
  obtain ⟨spans, hspans, -, hpairs⟩ := scan_spans _ hstart
  exact ⟨spans, hspans, hpairs, pairwise_before hspans hpairs, taken_prefix _⟩

end Tokens

end Tale
